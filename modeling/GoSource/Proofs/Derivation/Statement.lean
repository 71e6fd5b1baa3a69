/-
Statements and headers that the parser returns are derivable.

# Headers

That the brace after a header opens the body is known in two steps. The
expression at the end of the header is settled (`Settled`): if a brace
follows, it is none of the expression's. And a body has been read after
it, so a brace did follow (`block_head`). Together they say that the
expression could not have taken the brace (`EndsHeader`).

# Lists of statements

A statement inside a list is ended by a semicolon; the last may be ended
by the end of the list instead. While the list is read, what has been read
is therefore either ended, or it is followed by the end of the list.
-/
import GoSource.Proofs.Derivation.TypeExpr

namespace GoSource.Grammar

open GoSource.Parser

variable {m : Mode} {s : Parsing} {parse : SubParser} {sm : SimpleMode}

-- =============================================================== blocks

/-- The end of a list of statements. -/
def AtListEnd (s : Parsing) : Prop :=
  s.current.kind = .rBrace ∨ s.current.kind = .eof

theorem ifAtListEnd {α : Type} {p q : Parser α} {P : List Token → α → Parsing → Prop}
    (yes : AtListEnd s → p.Reads m s P) (no : ¬ AtListEnd s → q.Reads m s P) :
    (atListEnd >>= fun b => if b = true then p else q).Reads m s P := by
  refine .bind (P := fun ts b s' => ts = [] ∧ s' = s ∧ (b = true ↔ AtListEnd s)) ?_ ?_
  · refine .bind_kind ?_
    unfold AtListEnd
    split
    · next h => exact .pure ⟨rfl, rfl, by simp [h]⟩
    · next h => exact .pure ⟨rfl, rfl, by simp [h]⟩
    · next hb he => exact .pure ⟨rfl, rfl, by simp, fun h => (h.elim hb he).elim⟩
  · rintro _ b s₁ ⟨rfl, rfl, hb⟩
    split
    · next h => exact yes (hb.mp h)
    · next h => exact no fun h' => h (hb.mpr h')

/-- What has been read of a list of statements, the latest first. -/
def StmtsSoFar (m : Mode) (ts : List Token) (ss : List Stmt) (s : Parsing) : Prop :=
  Derives (.endedStmts m) ts ss.reverse ∨ Derives (.stmts m) ts ss.reverse ∧ AtListEnd s

theorem block_head {bs : List Token} {b : Block} {s' : Parsing} (h : Derives .block bs b)
    (hpass : s.Passes bs s') : s.current.kind = .lBrace := by
  cases h with
  | block hl =>
    obtain rfl : s.current = _ := hpass.takes.1
    exact hl

variable (hp : parse.Sound)

include hp

theorem stmtList_reads :
    (stmtList parse).Reads m s fun ts ss _ => Derives (.stmts m) ts ss := by
  refine .bind (P := fun ts ss _ => Derives (.stmts m) ts ss.reverse)
    (.repeating (I := StmtsSoFar m) (.inl .noStmts) fun ts ss s' hss => ?_)
    fun ts ss s' hss => .bind_recording fun _ => .pure ?_
  · refine ifAtListEnd (fun _ => .stop ?_) fun hmore => ?_
    · obtain hss | ⟨hss, -⟩ := hss
      · exact .stmtsClosed hss
      · exact hss
    have hss : Derives (.endedStmts m) ts ss.reverse := hss.resolve_right fun h => hmore h.2
    refine .bind_eat (by decide) (fun hc => .pure ⟨by simp, .inl (.skipSemi hss hc)⟩) fun hno => ?_
    refine .bind (hp .statement m s' trivial) fun us stmt s₁ hstmt => ?_
    obtain hstmt | ⟨hends, -⟩ := hstmt
    · refine ifAtListEnd (fun hend => .pure ?_) fun _ => .bind_expect (by decide) fun hc => .pure ?_
      · rw [List.append_nil]
        refine ⟨hstmt.ne_nil rfl, .inr ⟨?_, hend⟩⟩
        rw [List.reverse_cons]
        exact .stmtsOpen hss hstmt
      · refine ⟨by simp, .inl ?_⟩
        rw [List.reverse_cons]
        exact .endedStmt hss hstmt hc
    · obtain h | h := hends
      · exact absurd h hno
      · exact absurd h hmore
  · rwa [List.append_nil]

theorem block_reads : (block parse).Reads m s (Production.block.Meets m s) := by
  refine .inside fun s => .bind_expect (by decide) fun hl => ?_
  refine .bind (stmtList_reads hp) fun ts ss s₁ hss => .bind_expect (by decide) fun hr => .pure ?_
  rw [← extent_bracketed]
  exact .block hl hss hr

-- ==================================================== simple statements

omit hp in
theorem exprs_singleton {ts : List Token} {x : Expr} (h : Derives (.exprs m) ts [x]) :
    Derives (.expr m) ts x := by
  obtain ⟨us, bs, vs, b, rfl, has, hus, hb⟩ := h.separated_cases
  rw [← List.nil_append [x]] at has
  obtain ⟨rfl, hlast⟩ := List.append_inj' has rfl
  obtain rfl : x = b := by simpa using hlast
  obtain ⟨rfl, -⟩ | ⟨_, _, _, _, _, -, has, -⟩ := hus.terminated_cases
  · exact hb
  · simp at has

omit hp in
theorem single_reads {left : List Expr} {P : List Token → Expr → Parsing → Prop}
    (h : ∀ x, left = [x] → P [] x s) : (single left).Reads m s P := by
  unfold single
  split
  · next x => exact .pure (h x rfl)
  · exact .unexpected

omit hp in
theorem definedNames_reads {left : List Expr} {P : List Token → List Ident → Parsing → Prop}
    (h : ∀ names, AreNames left names → P [] names s) : (definedNames left).Reads m s P := by
  unfold definedNames
  induction left generalizing P with
  | nil => exact .pure (h [] rfl)
  | cons x left ih =>
    rw [List.mapM_cons]
    refine .bind (P := fun ts n s' => ts = [] ∧ s' = s ∧ x.form = .ident n) ?_ ?_
    · split
      · next n hn => exact .pure ⟨rfl, rfl, hn⟩
      · exact .unexpectedAt
    rintro _ n s₁ ⟨rfl, rfl, hn⟩
    refine .bind (P := fun ts names s' => ts = [] ∧ s' = s₁ ∧ AreNames left names)
      (ih fun names hnames => ⟨rfl, rfl, hnames⟩) ?_
    rintro _ names s₂ ⟨rfl, rfl, hnames⟩
    refine .pure (h _ ?_)
    rw [AreNames, List.map_cons, List.map_cons, hn, hnames]

/-- A range clause, or nothing at all. -/
theorem bind_rangeClause {β : Type} {f : Option Expr → Parser β}
    {Q : List Token → β → Parsing → Prop}
    (clause : ∀ w xs x s', sm.rangeAllowed = true → w.kind = .kwRange → Derives (.expr m) xs x →
      Settled m x s' → (f (some x)).Reads m s' fun us b s'' => Q (w :: (xs ++ us)) b s'')
    (nothing : (f none).Reads m s Q) : (rangeClause parse sm >>= f).Reads m s Q := by
  unfold rangeClause
  split
  · next hsm =>
    refine .bind (P := fun ts o s' => (o = none → ts = [] ∧ s' = s) ∧ ∀ x ∈ o, ∃ w xs,
      ts = w :: xs ∧ w.kind = .kwRange ∧ Derives (.expr m) xs x ∧ Settled m x s') ?_ ?_
    · refine .bind_eat (by decide) (fun hw => ?_) fun _ => .pure ⟨fun _ => ⟨rfl, rfl⟩, nofun⟩
      refine .map (hp.expression.imp fun xs x s' hx => ⟨nofun, ?_⟩)
      rintro _ ⟨⟩
      exact ⟨_, xs, rfl, hw, hx⟩
    · rintro ts (_ | x) s' ⟨hnone, hsome⟩
      · obtain ⟨rfl, rfl⟩ := hnone rfl
        exact nothing
      · obtain ⟨w, xs, rfl, hw, hx, hset⟩ := hsome x rfl
        exact clause w xs x s' hsm hw hx hset
  · exact .bind_pure nothing

/-- What is read after the expressions at the start of a statement is,
together with them, a statement. -/
def Completes (sm : SimpleMode) (m : Mode) (ls : List Token) :
    List Token → StmtForm → Parsing → Prop :=
  fun ts form s' => Derives (.simple sm m) (ls ++ ts) ⟨form, extent (ls ++ ts)⟩ ∧
    SettledLast m form.last s'

variable {ls : List Token} {left : List Expr}

theorem definition_reads (hleft : Derives (.exprs m) ls left) (hk : s.current.kind = .define) :
    (definition parse sm left).Reads m s (Completes sm m ls) := by
  refine .bind (P := fun ts names s' => ts = [] ∧ s' = s ∧ AreNames left names)
    (definedNames_reads fun names hnames => ⟨rfl, rfl, hnames⟩) ?_
  rintro _ names s₁ ⟨rfl, rfl, hnames⟩
  refine .bind_advance (by rw [hk]; decide) (bind_rangeClause hp ?_ ?_)
  · intro w xs x s' hsm hw hx hset
    refine .bind_recording fun _ => .pure ⟨?_, ?_⟩
    · rw [List.append_nil]
      exact .defineRange hsm hleft hnames hk hw hx
    · rintro _ ⟨⟩
      exact hset
  · refine .bind (exprList_reads hp) fun vs values s' ⟨hvalues, hset⟩ => ?_
    refine .bind_recording fun _ => .bind_recording fun _ => .pure ⟨?_, hset⟩
    rw [List.append_nil]
    exact .shortVar hleft hnames hk hvalues

theorem assignment_reads {op : AssignOp} (hleft : Derives (.exprs m) ls left)
    (hk : AssignOp.ofKind s.current.kind = some op) :
    (assignment parse sm left op).Reads m s (Completes sm m ls) := by
  have plain : ∀ (us : List Token) s', us = [] → (exprList parse >>= fun right =>
      recording (·.addExprs left) >>= fun _ => recording (·.addExprs right) >>= fun _ =>
        pure (.assign left op s.current.span right)).Reads m s'
          fun ts form s'' => Completes sm m ls (s.current :: (us ++ ts)) form s'' := by
    rintro _ s' rfl
    refine .bind (exprList_reads hp) fun rs right s'' ⟨hright, hset⟩ => ?_
    refine .bind_recording fun _ => .bind_recording fun _ => .pure ⟨?_, hset⟩
    rw [List.append_nil]
    exact .assign hleft hk hright
  refine .bind_advance (fun h => by rw [h] at hk; nomatch hk) ?_
  split
  · next hop =>
    subst hop
    refine bind_rangeClause hp ?_ (plain [] _ rfl)
    intro w xs x s' hsm hw hx hset
    refine .bind_recording fun _ => .pure ⟨?_, ?_⟩
    · have ha : s.current.kind = .assign := by
        revert hk
        cases s.current.kind <;> simp [AssignOp.ofKind]
      rw [List.append_nil]
      exact .assignRange hsm hleft ha hw hx
    · rintro _ ⟨⟩
      exact hset
  · exact .bind_pure (plain [] _ rfl)

theorem afterExprs_reads (hleft : Derives (.exprs m) ls left)
    (hset : SettledLast m left.getLast? s) :
    (afterExprs parse sm left).Reads m s (Completes sm m ls) := by
  refine .bind_kind ?_
  split
  · next hk =>
    refine .bind (P := fun ts x s' => ts = [] ∧ s' = s ∧ left = [x])
      (single_reads fun x hx => ⟨rfl, rfl, hx⟩) ?_
    rintro _ x s₁ ⟨rfl, rfl, rfl⟩
    refine .bind_advance (by rw [hk]; decide) ?_
    refine .bind hp.expression fun ys y s' hy => .pure ⟨?_, ?_⟩
    · rw [List.append_nil]
      exact .send (exprs_singleton hleft) hk hy.1
    · rintro _ ⟨⟩
      exact hy.2
  iterate 2
    next hk =>
      refine .bind (P := fun ts x s' => ts = [] ∧ s' = s ∧ left = [x])
        (single_reads fun x hx => ⟨rfl, rfl, hx⟩) ?_
      rintro _ x s₁ ⟨rfl, rfl, rfl⟩
      refine .bind_advance (by rw [hk]; decide) (.pure ⟨?_, fun _ h => by cases h⟩)
      exact .step (exprs_singleton hleft) (by rw [hk]; rfl)
  · next hk => exact definition_reads hp hleft hk
  · split
    · next op hop => exact assignment_reads hp hleft hop
    · refine .map (single_reads ?_)
      rintro x rfl
      refine ⟨?_, hset⟩
      rw [List.append_nil]
      exact .exprStmt (exprs_singleton hleft)

omit hp in
theorem labelBefore_reads {P : List Token → Option Ident → Parsing → Prop}
    (yes : ∀ label, sm.labelAllowed = true → s.current.kind = .colon →
      asLabel left = some label → P [] (some label) s) (no : P [] none s) :
    (labelBefore sm left).Reads m s P := by
  have no' : ∀ b : Bool, b = false → (if b = true then pure (asLabel left) else pure none :
      Parser (Option Ident)).Reads m s P := by
    rintro _ rfl
    exact .pure no
  refine .bind_isAt (fun hc => ?_) fun _ => no' _ (Bool.and_false _)
  cases hsm : sm.labelAllowed with
  | false => exact no' _ rfl
  | true =>
    cases hlabel : asLabel left with
    | none => exact .pure no
    | some label => exact .pure (yes label hsm hc hlabel)

theorem simpleStmt_reads :
    (simpleStmt parse sm).Reads m s ((Production.simpleStmt sm).Meets m s) := by
  refine .passing (.bind_here (bind_rangeClause hp ?_ ?_))
  · intro w xs x s' hsm hw hx hset
    refine .bind_spanFrom (.pure fun hpass => ⟨?_, ?_⟩)
    · rw [List.append_nil] at hpass ⊢
      rw [hpass.extent (by simp)]
      exact .rangeOnly hsm hw hx
    · rintro _ ⟨⟩
      exact hset
  refine .bind (exprList_reads hp) fun ls left s₁ ⟨hleft, hset⟩ => ?_
  refine .bind (P := fun ts label s' => ts = [] ∧ s' = s₁ ∧ ∀ l ∈ label,
      sm.labelAllowed = true ∧ s₁.current.kind = .colon ∧ asLabel left = some l)
    (labelBefore_reads ?_ ⟨rfl, rfl, nofun⟩) ?_
  · rintro label hsm hc hlabel
    refine ⟨rfl, rfl, ?_⟩
    rintro _ ⟨⟩
    exact ⟨hsm, hc, hlabel⟩
  rintro _ (_ | label) s₂ ⟨rfl, rfl, hlabel⟩
  · refine .bind (afterExprs_reads hp hleft hset) fun ts form s' ⟨hform, hset⟩ => ?_
    refine .bind_spanFrom (.pure fun hpass => ⟨?_, hset⟩)
    rw [List.append_nil] at hpass ⊢
    rw [hpass.extent (hform.ne_nil rfl)]
    exact hform
  · obtain ⟨hsm, hc, hlabel⟩ := hlabel label rfl
    refine .bind_advance (by rw [hc]; decide) ?_
    refine .bind (hp .statement m _ trivial) fun ts stmt s' hstmt => ?_
    refine .bind_spanFrom (.pure fun hpass => ⟨?_, nofun⟩)
    obtain hstmt | ⟨-, rfl, i, rfl⟩ := hstmt
    · rw [List.append_nil] at hpass ⊢
      rw [hpass.extent (by simp)]
      exact .labeled hsm hleft hlabel hc hstmt
    · rw [hpass.extent (by simp)]
      exact .labeledEmpty hsm hleft hlabel hc

-- ============================================================== headers

omit hp in
theorem keep_reads {draft : Draft} {P : List Token → Stmt → Parsing → Prop}
    (h : ∀ i arena, P [] ⟨i, draft.span, draft.form⟩ { s with arena }) :
    (keep draft).Reads m s P := by
  unfold keep
  exact .new (fun _ => ⟨_, rfl⟩) h

omit hp in
theorem bind_keep {β : Type} {draft : Draft} {f : Stmt → Parser β}
    {Q : List Token → β → Parsing → Prop}
    (h : ∀ i arena, (f ⟨i, draft.span, draft.form⟩).Reads m { s with arena } Q) :
    (keep draft >>= f).Reads m s Q := by
  unfold keep
  exact .bind_new (fun _ => ⟨_, rfl⟩) h

omit hp in
theorem condition_reads {draft : Draft} {P : List Token → Expr → Parsing → Prop}
    (h : ∀ x sp, draft = ⟨.expr x, sp⟩ → P [] x s) : (condition draft).Reads m s P := by
  obtain ⟨form, sp⟩ := draft
  unfold condition
  split
  · next x hx => exact .pure (h x sp (by rw [show form = .expr x from hx]))
  · exact .unexpectedAt

theorem ifHeader_reads : (ifHeader parse).Reads m s fun ts r s' =>
    Derives (.ifHeader m) ts r ∧ Settled m r.2 s' := by
  refine .bind hp.simpleStmt fun ts first s₁ ⟨hfirst, hset⟩ => ?_
  refine .bind_eat (by decide) (fun hc => ?_) fun _ => ?_
  · refine bind_keep fun i _ => ?_
    refine .bind hp.simpleStmt fun us second s₂ ⟨hsecond, hset⟩ => ?_
    refine .bind (P := fun vs x s' => vs = [] ∧ s' = s₂ ∧ ∃ sp, second = ⟨.expr x, sp⟩)
      (condition_reads fun x sp h => ⟨rfl, rfl, sp, h⟩) ?_
    rintro _ x s₃ ⟨rfl, rfl, sp, rfl⟩
    refine .pure ⟨?_, hset x rfl⟩
    simp only [List.append_nil]
    exact .initCond hfirst hc hsecond
  · refine .bind (P := fun vs x s' => vs = [] ∧ s' = s₁ ∧ ∃ sp, first = ⟨.expr x, sp⟩)
      (condition_reads fun x sp h => ⟨rfl, rfl, sp, h⟩) ?_
    rintro _ x s₃ ⟨rfl, rfl, sp, rfl⟩
    refine .pure ⟨?_, hset x rfl⟩
    simp only [List.append_nil]
    exact .condOnly hfirst

omit hp in
/-- What a settled header ends with does not take the brace of the
body. -/
theorem endsHeader {x : Option Expr} {bs : List Token} {b : Block} {s' : Parsing}
    (hset : SettledLast m.header x s) (hb : Derives .block bs b) (hpass : s.Passes bs s') :
    EndsHeader x :=
  fun y hy => (hset y hy).1 (block_head hb hpass)

theorem otherwise_reads {w : Token} (hw : w.kind = .kwElse) :
    (otherwise parse).Reads m s fun ts stmt _ => Derives (.otherwise m) (w :: ts) stmt := by
  refine .bind_kind ?_
  split
  · exact (hp .ifStmt m s trivial).imp fun ts stmt _ h => .elseIf hw h
  · refine .bind hp.block fun ts b s₁ hb => .new (fun _ => ⟨_, rfl⟩) fun i _ => ?_
    rw [List.append_nil]
    exact .elseBlock hw hb
  · exact .unexpected

theorem ifStmt_reads : (ifStmt parse).Reads m s (Production.ifStmt.Meets m s) := by
  refine .passing (.bind_expect (by decide) fun hw => ?_)
  refine .bind (.asHeader (P := fun ts r s' => Derives (.ifHeader m.header) ts r ∧
    Settled m.header r.2 s') (ifHeader_reads hp)) ?_
  rintro hs ⟨init, x⟩ s₁ ⟨hheader, hset⟩
  refine .bind_passing hp.block fun bs body s₂ hbody hb => ?_
  have hends : EndsHeader (some x) := endsHeader (fun y hy => by cases hy; exact hset) hb hbody
  have finish : ∀ {es other s₃}, Derives (.optional (.otherwise m)) es other →
      (spanFrom s.current.span.start >>= newStmt (.ifStmt init x body other)).Reads m s₃
        fun us stmt s' => s.Passes (s.current :: (hs ++ (bs ++ (es ++ us)))) s' →
          Derives (.ifStmt m) (s.current :: (hs ++ (bs ++ (es ++ us)))) stmt := by
    intro es other s₃ hother
    refine .bind_spanFrom (.new (fun _ => ⟨_, rfl⟩) fun i _ hpass => ?_)
    rw [List.append_nil] at hpass ⊢
    rw [hpass.extent (by simp)]
    exact .conditional hw hheader hends hb hother
  refine .bind_eat (by decide) (fun hk => ?_) fun _ => .bind_pure ?_
  · exact .bind_map (otherwise_reads hp hk) fun ts stmt s₃ h => finish (.present h)
  · exact finish .absent

theorem postStmt_reads : (postStmt parse).Reads m s fun ts post s' =>
    Derives (.optional (.post m)) ts post ∧ ∀ p ∈ post, SettledLast m p.form.last s' := by
  refine .ifAt (fun _ => .pure ⟨.absent, nofun⟩) fun _ => ?_
  refine .bind hp.simpleStmt fun ts draft s₁ ⟨hdraft, hset⟩ => ?_
  obtain ⟨form, sp⟩ := draft
  split
  · exact .unexpectedAt
  · next hform =>
    refine .map (keep_reads fun i _ => ⟨?_, ?_⟩)
    · rw [List.append_nil]
      exact .present (.post hdraft hform)
    · rintro _ ⟨⟩
      exact hset

theorem forClause_reads {init : Option Stmt} {is : List Token}
    (hinit : Derives (.optional (.init m)) is init) :
    (forClause parse init).Reads m s fun ts header s' =>
      Derives (.forHeader m) (is ++ ts) header ∧ SettledLast m header.last s' := by
  refine .bind_expect (by decide) fun hc => ?_
  refine .joinAt (fun xs test _ => Derives (.optional (.expr m)) xs test)
    (fun _ => .pure .absent) (fun _ => .map (hp.anyExpression.imp fun _ _ _ => .present)) ?_
  intro xs test s₁ htest
  refine .bind_expect (by decide) fun hc' => ?_
  refine .bind (postStmt_reads hp) fun ps post s₂ ⟨hpost, hset⟩ => .pure ⟨?_, ?_⟩
  · rw [List.append_nil]
    exact .forClause hinit hc htest hc' hpost
  · rcases post with _ | p
    · exact nofun
    · exact hset p rfl

theorem forHeader_reads : (forHeader parse).Reads m s fun ts header s' =>
    Derives (.forHeader m) ts header ∧ SettledLast m header.last s' := by
  refine .bind_kind ?_
  split
  · exact .pure ⟨.infinite, fun _ h => by cases h⟩
  · exact forClause_reads hp .absent
  · refine .bind hp.simpleStmt fun ts draft s₁ h => ?_
    obtain ⟨form, sp⟩ := draft
    obtain ⟨hdraft, hset⟩ := h
    split
    · next left define x hform =>
      obtain rfl : form = .range left define x := hform
      refine .map (keep_reads fun i _ => ⟨?_, hset⟩)
      rw [List.append_nil]
      exact .forRange hdraft
    · next hform =>
      refine .ifAt (fun _ => .map (condition_reads ?_)) fun _ => ?_
      · rintro x sp' ⟨⟩
        refine ⟨?_, hset⟩
        rw [List.append_nil]
        exact .forCond hdraft
      · refine bind_keep fun i _ => ?_
        exact forClause_reads hp (.present (.init hdraft hform))

theorem forStmt_reads : (forStmt parse).Reads m s (Production.forStmt.Meets m s) := by
  refine .bind_expect (by decide) fun hw => ?_
  refine .bind (.asHeader (P := fun ts h s' => Derives (.forHeader m.header) ts h ∧
    SettledLast m.header h.last s') (forHeader_reads hp)) fun hs header s₁ ⟨hheader, hset⟩ => ?_
  refine .bind_passing hp.block fun bs body s₂ hbody hb => .pure ?_
  rw [List.append_nil]
  exact .loop hw hheader (endsHeader hset hb hbody) hb

-- =========================================================== statements

theorem calledBy_reads {keyword : String} {P : List Token → Expr → Parsing → Prop}
    (h : ∀ ts j sp f l args dots r s', Derives (.expr m) ts ⟨j, sp, .call f l args dots r⟩ →
      P ts ⟨j, sp, .call f l args dots r⟩ s') : (calledBy parse keyword).Reads m s P := by
  refine .bind hp.anyExpression fun ts x s₁ hx => ?_
  obtain ⟨j, sp, form⟩ := x
  split
  · next hform =>
    subst hform
    refine .pure ?_
    rw [List.append_nil]
    exact h _ _ _ _ _ _ _ _ _ hx
  · exact .unexpectedAt

theorem results_reads {w : Token} (hw : w.kind = .kwReturn) :
    (results parse).Reads m s fun ts xs _ => ∀ i, Derives (.stmt m) (w :: ts)
      ⟨i, extent (w :: ts), .returnStmt xs⟩ := by
  refine .bind_kind ?_
  split
  iterate 2 exact .pure fun i => .returnNothing hw
  · refine .bind (exprList_reads hp) fun ts xs s₁ hxs => .bind_recording fun _ => .pure fun i => ?_
    rw [List.append_nil]
    exact .returnStmt hw hxs.1

omit hp in
theorem optionalLabel_reads : optionalLabel.Reads m s fun ts label _ =>
    Derives (.optional .name) ts label :=
  .ifAt (fun _ => .map (ident_reads.imp fun _ _ _ => .present)) fun _ => .pure .absent

/-- A statement with a keyword is read from the keyword on. -/
theorem statement_reads : (statement parse).Reads m s (Production.statement.Meets m s) := by
  have finish : ∀ {form s₁ ts}, (∀ i, Derives (.stmt m) ts ⟨i, extent ts, form⟩) →
      (finishStmt s.current.span.start form).Reads m s₁ fun us stmt s' =>
        s.Passes (ts ++ us) s' → Production.statement.Meets m s (ts ++ us) stmt s' := by
    intro form s₁ ts hform
    refine .bind_spanFrom (.new (fun _ => ⟨_, rfl⟩) fun i _ hpass => .inl ?_)
    rw [List.append_nil] at hpass ⊢
    rw [hpass.extent ((hform i).ne_nil rfl)]
    exact hform i
  have decl : ∀ {k : GroupKind}, s.current.kind = k.keyword →
      (declStmt parse s.current.span.start k).Reads m s fun ts stmt s' =>
        s.Passes ts s' → Production.statement.Meets m s ts stmt s' := by
    intro k hk
    refine .bind (hp.group hk) fun ts ds s₁ hds => .bind_recording fun _ => ?_
    exact finish fun i => .declStmt hds
  refine .passing (.bind_here (.bind_kind ?_))
  split
  · next hk => exact decl hk
  · next hk => exact decl hk
  · next hk => exact decl hk
  · exact .bind hp.block fun ts b s₁ hb => finish fun i => .blockStmt hb
  · exact (hp .ifStmt m s trivial).imp fun ts stmt _ h _ => .inl (.ifStmt h)
  · exact .bind (hp .forStmt m s trivial) fun ts form s₁ h => finish fun i => .forStmt h
  · next hk =>
    refine .bind_advance (by rw [hk]; decide) ?_
    refine .bind (calledBy_reads hp (P := fun ts x _ => ∀ i, Derives (.stmt m)
      (s.current :: ts) ⟨i, extent (s.current :: ts), .goStmt x⟩) ?_) fun ts x s₁ h => finish h
    exact fun _ _ _ _ _ _ _ _ _ hx i => .goStmt hk hx
  · next hk =>
    refine .bind_advance (by rw [hk]; decide) ?_
    refine .bind (calledBy_reads hp (P := fun ts x _ => ∀ i, Derives (.stmt m)
      (s.current :: ts) ⟨i, extent (s.current :: ts), .deferStmt x⟩) ?_) fun ts x s₁ h => finish h
    exact fun _ _ _ _ _ _ _ _ _ hx i => .deferStmt hk hx
  · next hk =>
    refine .bind_advance (by rw [hk]; decide) ?_
    exact .bind (results_reads hp hk) fun ts xs s₁ h => finish h
  · next hk =>
    refine .bind_advance (by rw [hk]; decide) ?_
    exact .bind optionalLabel_reads fun ts label s₁ h => finish fun i => .breakStmt hk h
  · next hk =>
    refine .bind_advance (by rw [hk]; decide) ?_
    exact .bind optionalLabel_reads fun ts label s₁ h => finish fun i => .continueStmt hk h
  · next hk =>
    refine .bind_advance (by rw [hk]; decide) ?_
    exact .bind ident_reads fun ts label s₁ h => finish fun i => .gotoStmt hk h
  · next hk =>
    refine .bind_advance (by rw [hk]; decide) ?_
    have hstmt : ∀ i, Derives (.stmt m) [s.current] ⟨i, extent [s.current], .fallthroughStmt⟩ :=
      fun i => .fallthroughStmt hk
    exact finish hstmt
  · next hk => exact .bind_previousEnd (.new (fun _ => ⟨_, rfl⟩) fun i _ _ =>
      .inr ⟨.inl hk, rfl, i, rfl⟩)
  · next hk => exact .bind_previousEnd (.new (fun _ => ⟨_, rfl⟩) fun i _ _ =>
      .inr ⟨.inr (.inl hk), rfl, i, rfl⟩)
  · next hk => exact .bind_previousEnd (.new (fun _ => ⟨_, rfl⟩) fun i _ _ =>
      .inr ⟨.inr (.inr hk), rfl, i, rfl⟩)
  · exact .bind_current .throw
  · exact .bind_current .throw
  · refine .bind hp.simpleStmt fun ts draft s₁ hdraft => keep_reads fun i _ _ => .inl ?_
    rw [List.append_nil]
    exact .simpleStmt hdraft.1

end GoSource.Grammar
