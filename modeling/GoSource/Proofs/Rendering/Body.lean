/-
Blocks, headers and statements read back.

In a block a semicolon stands behind every statement, and a statement
begins with something else (`BeginsStmt`), so no semicolon is taken for an
empty statement that was passed over. The one place where an empty
statement is in a tree is behind a label.

In a header the parts are divided by semicolons, and the brace of the body
ends it. What the parser makes of a part depends on its form, which it has
got back by then.
-/
import GoSource.Proofs.Rendering.Group

namespace GoSource

open GoSource.Parser

variable {parse : SubParser} {h : Bool} {F : Token → Prop} {i : Nat} {sp sp' : Span}
  {x : Expr} {ss us : List Slot} {sm : SimpleMode}

-- ======================================================= what comes back

def IfRereads (parse : SubParser) (s : Stmt) : Prop :=
  (parse .ifStmt).Rereads false (Render.stmt s) (·.kind = .semi)
    fun s' => Bare.stmt s' = Bare.stmt s

def ForRereads (parse : SubParser) (form : StmtForm) : Prop :=
  (parse .forStmt).Rereads false (Render.stmtForm form) (·.kind = .semi)
    fun form' => Bare.stmtForm form' = Bare.stmtForm form

/-- What stands behind `else`. -/
def OtherwiseRereads (parse : SubParser) (s : Stmt) : Prop :=
  (Grammar.otherwise parse).Rereads false (Render.stmt s) (·.kind = .semi)
    fun s' => Bare.stmt s' = Bare.stmt s

def ForHeaderRereads (parse : SubParser) (header : ForHeader) : Prop :=
  (Grammar.forHeader parse).Rereads true (Render.forHeader header) (·.kind = .lBrace)
    fun header' => Bare.forHeader header' = Bare.forHeader header

/-- The tokens with which a simple statement can begin. -/
def Token.Kind.beginsSimple : Token.Kind → Bool
  | .lParen | .ident | .kwRange => true
  | _ => false

/-- So begins a simple statement, whatever follows it. -/
def BeginsSimple (form : StmtForm) : Prop :=
  ∀ us F t, Leads (Render.stmtForm form ++ us) F t → t.kind.beginsSimple = true

/-- A statement does not begin with a semicolon that would be passed over,
nor with anything that ends a list of statements. -/
def BeginsStmt (s : Stmt) : Prop :=
  ∀ us F t, Leads (Render.stmt s ++ us) F t → t.kind ≠ .semi ∧ t.kind ≠ .rBrace ∧ t.kind ≠ .eof

namespace Grammar

-- =============================================================== blocks

theorem bind_atListEnd_true {β : Type} {P : β → Prop} {f : Bool → Parser β}
    (hk : ∀ t, Leads ss F t → t.kind = .rBrace ∨ t.kind = .eof)
    (hf : (f true).Rereads h ss F P) : (atListEnd >>= f).Rereads h ss F P := by
  have hend : atListEnd.Rereads h [] (fun t => t.kind = .rBrace ∨ t.kind = .eof) (· = true) := by
    refine .bind_kind fun t ht => ?_
    obtain ht | ht := ht
    · rw [ht]
      exact .pure rfl
    · rw [ht]
      exact .pure rfl
  exact .bind hend hk fun _ ho => ho ▸ hf

theorem bind_atListEnd_false {β : Type} {P : β → Prop} {f : Bool → Parser β}
    (hk : ∀ t, Leads ss F t → t.kind ≠ .rBrace ∧ t.kind ≠ .eof)
    (hf : (f false).Rereads h ss F P) : (atListEnd >>= f).Rereads h ss F P := by
  have hend : atListEnd.Rereads h [] (fun t => t.kind ≠ .rBrace ∧ t.kind ≠ .eof) (· = false) := by
    refine .bind_kind fun t ht => ?_
    split
    · next hk => exact absurd hk ht.1
    · next hk => exact absurd hk ht.2
    · exact .pure rfl
  exact .bind hend hk fun _ ho => ho ▸ hf

/-- One statement and the semicolon behind it. -/
theorem nextStmt_rereads {s : Stmt} {acc : List Stmt} (hs : StmtRereads parse s)
    (hbegins : BeginsStmt s) :
    (nextStmt parse acc).Rereads false (Render.stmt s ++ [.kind .semi]) F
      (Rereads.GoesOn fun acc' => ∃ s', acc' = s' :: acc ∧ Bare.stmt s' = Bare.stmt s) := by
  refine bind_atListEnd_false (fun t ht => (hbegins _ _ t ht).2) ?_
  rw [if_neg Bool.false_ne_true]
  refine .bind_eat_none (fun t ht => (hbegins _ _ t ht).1) ?_
  refine .bind hs (fun t ht => ht.2) fun s' hs' => ?_
  refine bind_atListEnd_false (fun t ht => ?_) ?_
  · rw [show t.kind = .semi from ht.2]
    decide
  · rw [if_neg Bool.false_ne_true]
    exact .bind_expect fun _ => .pure ⟨_, rfl, s', rfl, hs'⟩

theorem stmtList_rereads {stmts : List Stmt} (hss : ∀ s ∈ stmts, StmtRereads parse s)
    (hbegins : ∀ s ∈ stmts, BeginsStmt s)
    (hF : ∀ t, F t → t.kind = .rBrace ∨ t.kind = .eof) :
    (stmtList parse).Rereads false (Render.ended .semi (Render.stmtList stmts)) F
      fun stmts' => stmts'.map Bare.stmt = stmts.map Bare.stmt := by
  rw [Render.stmtList_eq]
  refine .bind_last (R := fun acc => acc.reverse.map Bare.stmt = stmts.map Bare.stmt) ?_
    fun acc hacc => .bind_recording (.pure hacc)
  refine .repeating_of (r := fun zs => Render.ended .semi (zs.map Render.stmt))
    (J := fun zs acc => ∃ ws, stmts = ws ++ zs ∧ acc.reverse.map Bare.stmt = ws.map Bare.stmt)
    (fun zs acc hacc => ?_) ⟨[], rfl, rfl⟩
  obtain ⟨ws, rfl, hacc⟩ := hacc
  cases zs with
  | nil =>
    refine .inl (bind_atListEnd_true hF ?_)
    rw [if_pos rfl, List.append_nil]
    exact .pure ⟨acc, rfl, hacc⟩
  | cons z zs =>
    have hz : z ∈ ws ++ z :: zs := List.mem_append_right _ List.mem_cons_self
    refine .inr ⟨zs, Render.stmt z ++ [.kind .semi], fun _ => True, rfl, by simp,
      fun _ _ => trivial, ?_⟩
    refine (nextStmt_rereads (hss z hz) (hbegins z hz)).imp (fun _ ht => ht) ?_
    rintro _ ⟨_, rfl, z', rfl, hz'⟩
    refine ⟨_, rfl, ws ++ [z], by simp, ?_⟩
    exact map_reverse_cons hacc hz'

theorem block_rereads {b : Block}
    (hlist : (stmtList parse).Rereads false (Render.ended .semi (Render.stmtList b.stmts))
      (·.kind = .rBrace) fun ss' => ss'.map Bare.stmt = b.stmts.map Bare.stmt) :
    (block parse).Rereads h (Render.block b) F fun b' => Bare.block b' = Bare.block b := by
  obtain ⟨stmts, sp⟩ := b
  rw [Render.block]
  refine .unrestricted (.bind_expect fun l => ?_)
  refine .bind hlist (fun _ ht => ht.2) fun ss' hss' => .bind_expect fun r => .pure ?_
  rw [Bare.block, Bare.block, Bare.stmtList_eq, Bare.stmtList_eq, hss']

theorem leads_block {b : Block} {t : Token} (ht : Leads (Render.block b ++ us) F t) :
    t.kind = .lBrace := by
  obtain ⟨stmts, sp⟩ := b
  rw [Render.block] at ht
  exact ht.2

-- ============================================================== headers

theorem keep_rereads {draft : Draft} (s : Stmt)
    (hdraft : Bare.stmtForm draft.form = Bare.stmtForm s.form) :
    (keep draft).Rereads h [] F fun s' => Bare.stmt s' = Bare.stmt s :=
  .newStmt hdraft

theorem condition_rereads {draft : Draft}
    (hdraft : Bare.stmtForm draft.form = Bare.stmtForm (.expr x)) :
    (condition draft).Rereads h [] F (SameExpr x) := by
  obtain ⟨y, hy, hsame⟩ := Bare.stmtExpr_of_eq (hdraft.trans (Bare.stmtForm.eq_3 x))
  unfold condition
  rw [hy]
  exact .pure hsame

/-- A simple statement in front of a semicolon. -/
theorem simple_beforeSemi {form : StmtForm} (hform : SimpleRereads parse sm form) :
    (parse (.simpleStmt sm)).Rereads sm.inHeader (Render.stmtForm form) (·.kind = .semi)
      fun draft => Bare.stmtForm draft.form = Bare.stmtForm form :=
  hform.before fun _ ht => .inl ht

/-- The last part of a header, in front of the body. -/
theorem simple_beforeBody {form : StmtForm} (hform : SimpleRereads parse sm form)
    (hsm : sm.inHeader = true) (hends : EndsHeader form.last) :
    (parse (.simpleStmt sm)).Rereads true (Render.stmtForm form) (·.kind = .lBrace)
      fun draft => Bare.stmtForm draft.form = Bare.stmtForm form := by
  rw [← hsm]
  exact hform.before fun _ ht => .inr ⟨hsm, ht, hends⟩

theorem ifHeader_rereads {init : Option Stmt} {cond : Expr}
    (hinit : ∀ s ∈ init, SimpleRereads parse .plain s.form)
    (hcond : SimpleRereads parse .plain (.expr cond)) (hends : EndsHeader (some cond)) :
    (ifHeader parse).Rereads true (Render.header init ++ Render.parens (Render.expr cond))
      (·.kind = .lBrace)
      fun r => Bare.optionalStmt r.1 = Bare.optionalStmt init ∧ SameExpr cond r.2 := by
  have hlast := simple_beforeBody hcond rfl hends
  cases init with
  | none =>
    refine .bind_last hlast fun draft hdraft => .bind_eat_none (fun t ht => ?_) ?_
    · rw [show t.kind = .lBrace from ht]
      decide
    · exact .bind_last (condition_rereads hdraft) fun y hy => .pure ⟨rfl, hy⟩
  | some s =>
    obtain ⟨i, sp, form⟩ := s
    have hfirst := simple_beforeSemi (hinit _ rfl)
    show Rereads _ _ ((Render.stmtForm form ++ [.kind .semi]) ++ _) _ _
    rw [List.append_assoc]
    refine .bind hfirst (fun _ ht => ht.2) fun draft hdraft => .bind_eat fun _ => ?_
    refine .bind_taking_none (keep_rereads ⟨i, sp, form⟩ hdraft) fun s' hs' => ?_
    refine .bind_last hlast fun draft hdraft => ?_
    exact .bind_last (condition_rereads hdraft) fun y hy => .pure ⟨congrArg some hs', hy⟩

theorem otherwise_ifStmt {s : Stmt} (hs : IfRereads parse s)
    (hbegins : ∀ F t, Leads (Render.stmt s) F t → t.kind = .kwIf) : OtherwiseRereads parse s :=
  .bind_kind_of (fun t ht => hbegins _ t ht) hs

theorem otherwise_block {b : Block} (hb : BlockRereads parse b) :
    OtherwiseRereads parse ⟨i, sp, .block b⟩ := by
  refine .bind_kind_of (k := .lBrace) (fun t ht => ?_) ?_
  · rw [← List.append_nil (Render.stmt _)] at ht
    exact leads_block ht
  · refine .bind_last (hb.before fun _ _ => trivial) fun b' hb' => .newStmt ?_
    rw [Bare.stmtForm, Bare.stmtForm, hb']

theorem ifStmt_rereads {init : Option Stmt} {cond : Expr} {body : Block} {other : Option Stmt}
    (hinit : ∀ s ∈ init, SimpleRereads parse .plain s.form)
    (hcond : SimpleRereads parse .plain (.expr cond)) (hends : EndsHeader (some cond))
    (hbody : BlockRereads parse body) (hother : ∀ s ∈ other, OtherwiseRereads parse s) :
    (ifStmt parse).Rereads false (Render.stmt ⟨i, sp, .ifStmt init cond body other⟩)
      (·.kind = .semi) fun s => Bare.stmt s = Bare.stmt ⟨i, sp, .ifStmt init cond body other⟩ := by
  show Rereads _ _ (.kind .kwIf :: (Render.header init ++ (Render.parens (Render.expr cond) ++
    (Render.block body ++ Render.otherwise other)))) _ _
  rw [← List.append_assoc (Render.header init)]
  refine .bind_expect fun start => ?_
  refine .bind (.asHeader (ifHeader_rereads hinit hcond hends)) (fun t ht => leads_block ht)
    fun ⟨init', cond'⟩ ⟨hinit', hcond'⟩ => ?_
  refine .bind hbody (fun _ _ => trivial) fun body' hbody' => ?_
  have hfinish : ∀ other', Bare.optionalStmt other' = Bare.optionalStmt other →
      (spanFrom start.start >>= newStmt (.ifStmt init' cond' body' other')).Rereads false []
        (·.kind = .semi)
        fun s => Bare.stmt s = Bare.stmt ⟨i, sp, .ifStmt init cond body other⟩ := by
    intro other' hother'
    refine .bind_spanFrom fun _ => .newStmt ?_
    rw [Bare.stmtForm, Bare.stmtForm, hinit', hcond', hbody', hother']
  cases other with
  | none =>
    refine .bind_eat_none (fun t ht => ?_) (.bind_pure (hfinish none rfl))
    rw [show t.kind = .semi from ht]
    decide
  | some s =>
    refine .bind_eat fun _ => .bind_last (R := fun o => Bare.optionalStmt o = some (Bare.stmt s))
      (.map ((hother s rfl).imp (fun _ ht => ht) fun s' hs' => congrArg some hs')) hfinish

-- ================================================================ loops

theorem range_of_bare {form form' : StmtForm} {left : List Expr} {define : Bool}
    (h : Bare.stmtForm form' = Bare.stmtForm form) (hform : form' = .range left define x) :
    ∃ left define x, form = .range left define x := by
  subst hform
  cases form with
  | range left define x => exact ⟨left, define, x, rfl⟩
  | _ => exact nomatch h

theorem shortVar_of_bare {form form' : StmtForm} {ns : List Ident} {xs : List Expr}
    (h : Bare.stmtForm form' = Bare.stmtForm form) (hform : form' = .shortVar ns sp xs) :
    ∃ ns sp xs, form = .shortVar ns sp xs := by
  subst hform
  cases form with
  | shortVar ns sp xs => exact ⟨ns, sp, xs, rfl⟩
  | _ => exact nomatch h

theorem postStmt_rereads {post : Option Stmt}
    (hpost : ∀ s ∈ post, SimpleRereads parse .plain s.form ∧ BeginsSimple s.form ∧
      ∀ ns op xs, s.form ≠ .shortVar ns op xs)
    (hends : ∀ s ∈ post, EndsHeader s.form.last) :
    (postStmt parse).Rereads true (Render.optionalStmt post) (·.kind = .lBrace)
      fun post' => Bare.optionalStmt post' = Bare.optionalStmt post := by
  cases post with
  | none => exact .ifAt (fun _ ht => ht) (.pure rfl)
  | some s =>
    obtain ⟨hsimple, hbegins, hshort⟩ := hpost s rfl
    obtain ⟨i, sp, form⟩ := s
    refine .ifNotAt (fun t ht => ?_) ?_
    · rw [← List.append_nil (Render.optionalStmt _)] at ht
      have hk := hbegins _ _ t ht
      intro hbrace
      rw [hbrace] at hk
      exact nomatch hk
    · refine .bind_last (simple_beforeBody hsimple rfl (hends _ rfl)) fun draft hdraft => ?_
      split
      · next hform =>
        obtain ⟨ns, op, xs, hform⟩ := shortVar_of_bare hdraft hform
        exact absurd hform (hshort ns op xs)
      · refine .map ((keep_rereads ⟨i, sp, form⟩ hdraft).imp (fun _ ht => ht) fun s' hs' => ?_)
        exact congrArg some hs'

theorem forClause_rereads {init init' post : Option Stmt} {cond : Option Expr}
    (hinit : Bare.optionalStmt init' = Bare.optionalStmt init)
    (hcond : ∀ x ∈ cond, ExprInParens parse true x)
    (hpost : (postStmt parse).Rereads true (Render.optionalStmt post) (·.kind = .lBrace)
      fun post' => Bare.optionalStmt post' = Bare.optionalStmt post) :
    (forClause parse init').Rereads true
      (.kind .semi :: (Render.bound cond ++ .kind .semi :: Render.optionalStmt post))
      (·.kind = .lBrace)
      fun header => Bare.forHeader header = Bare.forHeader (.clause init cond post) := by
  have hrest : ∀ cond' : Option Expr, cond'.map Bare.expr = cond.map Bare.expr →
      (expect .semi >>= fun _ => postStmt parse >>= fun post' =>
        pure (ForHeader.clause init' cond' post')).Rereads true
        (.kind .semi :: Render.optionalStmt post) (·.kind = .lBrace)
        fun header => Bare.forHeader header = Bare.forHeader (.clause init cond post) := by
    intro cond' hcond'
    refine .bind_expect fun _ => .bind_last hpost fun post' hpost' => .pure ?_
    rw [Bare.forHeader, Bare.forHeader, hinit, hcond', hpost']
  refine .bind_expect fun _ => ?_
  cases cond with
  | none => exact .ifAt (fun _ ht => ht.2) (.bind_pure (hrest none rfl))
  | some x =>
    refine .ifNotAt (fun _ => leads_ne (k := .lParen) (by decide)) ?_
    exact .bind_map (hcond x rfl) (fun _ ht => .of_kind ht.2 rfl) fun y hy =>
      hrest (some y) (congrArg some hy)

theorem forHeader_infinite : ForHeaderRereads parse .infinite :=
  .bind_kind_of (fun _ ht => ht) (.pure rfl)

/-- The header begins with a simple statement. -/
theorem forHeader_simple {form : StmtForm} {header : ForHeader} {G : Token → Prop}
    (hbegins : BeginsSimple form)
    (hrest : (parse (.simpleStmt .forHeader) >>= fun draft =>
      match draft.form with
      | .range _ _ _ => ForHeader.range <$> keep draft
      | _ => isAt .lBrace >>= fun b =>
        if b = true then ForHeader.cond <$> condition draft
        else keep draft >>= fun init => forClause parse (some init)).Rereads true
          (Render.stmtForm form ++ us) G
          fun header' => Bare.forHeader header' = Bare.forHeader header) :
    (forHeader parse).Rereads true (Render.stmtForm form ++ us) G
      fun header' => Bare.forHeader header' = Bare.forHeader header := by
  refine .bind_kind fun t ht => ?_
  have hk := hbegins us G t ht
  cases hkind : t.kind <;> rw [hkind] at hk <;> first | exact hrest | exact nomatch hk

theorem forHeader_cond (hx : SimpleRereads parse .forHeader (.expr x))
    (hbegins : BeginsSimple (.expr x)) (hends : EndsHeader (some x)) :
    ForHeaderRereads parse (.cond x) := by
  show Rereads _ _ (Render.stmtForm (.expr x)) _ _
  rw [← List.append_nil (Render.stmtForm _)]
  refine forHeader_simple hbegins ?_
  rw [List.append_nil]
  refine .bind_last (simple_beforeBody hx rfl hends) fun draft hdraft => ?_
  split
  · next hform =>
    obtain ⟨_, _, _, hform⟩ := range_of_bare hdraft hform
    cases hform
  · refine .ifAt (fun _ ht => ht) (.map ((condition_rereads hdraft).imp (fun _ ht => ht) ?_))
    intro y hy
    rw [Bare.forHeader, Bare.forHeader, hy]

theorem forHeader_range {left : List Expr} {define : Bool}
    (hrange : SimpleRereads parse .forHeader (.range left define x))
    (hbegins : BeginsSimple (.range left define x)) (hends : EndsHeader (some x)) :
    ForHeaderRereads parse (.range ⟨i, sp, .range left define x⟩) := by
  show Rereads _ _ (Render.stmtForm (.range left define x)) _ _
  rw [← List.append_nil (Render.stmtForm _)]
  refine forHeader_simple hbegins ?_
  rw [List.append_nil]
  refine .bind_last (simple_beforeBody hrange rfl hends) fun draft hdraft => ?_
  split
  · refine .map ((keep_rereads ⟨i, sp, .range left define x⟩ hdraft).imp (fun _ ht => ht) ?_)
    intro s' hs'
    rw [Bare.forHeader, Bare.forHeader, hs']
  · next hform =>
    obtain ⟨left', define', x', hrange⟩ := range_of_bare hdraft.symm rfl
    exact absurd hrange (hform left' define' x')

/-- A header of three parts, two of which are kept as statements. -/
theorem forHeader_clause {init post : Option Stmt} {cond : Option Expr}
    (hinit : ∀ s ∈ init, SimpleRereads parse .forHeader s.form ∧ BeginsSimple s.form ∧
      ∀ left define x, s.form ≠ .range left define x)
    (hcond : ∀ x ∈ cond, ExprInParens parse true x)
    (hpost : (postStmt parse).Rereads true (Render.optionalStmt post) (·.kind = .lBrace)
      fun post' => Bare.optionalStmt post' = Bare.optionalStmt post) :
    ForHeaderRereads parse (.clause init cond post) := by
  cases init with
  | none => exact .bind_kind_at (forClause_rereads rfl hcond hpost)
  | some s =>
    obtain ⟨hsimple, hbegins, hrange⟩ := hinit s rfl
    obtain ⟨i, sp, form⟩ := s
    show Rereads _ _ (Render.stmtForm form ++ _) _ _
    refine forHeader_simple hbegins ?_
    refine .bind (simple_beforeSemi hsimple) (fun _ ht => ht.2) fun draft hdraft => ?_
    split
    · next hform =>
      obtain ⟨left, define, x, hform⟩ := range_of_bare hdraft hform
      exact absurd hform (hrange left define x)
    · refine .ifNotAt (fun _ => leads_ne (k := .semi) (by decide)) ?_
      refine .bind_taking_none (keep_rereads ⟨i, sp, form⟩ hdraft) fun s' hs' => ?_
      exact forClause_rereads (congrArg some hs') hcond hpost

theorem forStmt_rereads {header : ForHeader} {body : Block}
    (hheader : ForHeaderRereads parse header)
    (hbody : BlockRereads parse body) :
    (forStmt parse).Rereads false (Render.stmtForm (.forStmt header body)) F
      fun form => Bare.stmtForm form = Bare.stmtForm (.forStmt header body) := by
  show Rereads _ _ (.kind .kwFor :: (Render.forHeader header ++ Render.block body)) _ _
  refine .bind_expect fun _ => ?_
  refine .bind (.asHeader hheader) (fun t ht => ?_) fun header' hheader' => ?_
  · rw [← List.append_nil (Render.block _)] at ht
    exact leads_block ht
  · refine .bind_last (hbody.before fun _ _ => trivial) fun body' hbody' => .pure ?_
    rw [Bare.stmtForm, Bare.stmtForm, hheader', hbody']

-- =========================================================== statements

theorem finishStmt_rereads {start : Location} {form form' : StmtForm}
    (hform : Bare.stmtForm form' = Bare.stmtForm form) :
    (finishStmt start form').Rereads h [] F fun s => Bare.stmt s = Bare.stmt ⟨i, sp, form⟩ :=
  .bind_spanFrom fun _ => .newStmt hform

theorem statement_empty :
    (statement parse).Rereads false (Render.stmtForm .empty) (·.kind = .semi)
      fun s => Bare.stmt s = Bare.stmt ⟨i, sp, .empty⟩ := by
  refine .bind_here fun _ => .bind_kind_of (k := .semi) (fun _ ht => ht) ?_
  exact .bind_previousEnd fun _ => .newStmt rfl

theorem statement_simple {form : StmtForm} (hform : SimpleRereads parse .statement form)
    (hbegins : BeginsSimple form) :
    (statement parse).Rereads false (Render.stmtForm form) (·.kind = .semi)
      fun s => Bare.stmt s = Bare.stmt ⟨i, sp, form⟩ := by
  have hread : (parse (.simpleStmt .statement) >>= keep).Rereads false (Render.stmtForm form)
      (·.kind = .semi) fun s => Bare.stmt s = Bare.stmt ⟨i, sp, form⟩ :=
    .bind_last (simple_beforeSemi hform) fun draft hdraft => keep_rereads ⟨i, sp, form⟩ hdraft
  refine .bind_here fun _ => .bind_kind fun t ht => ?_
  rw [← List.append_nil (Render.stmtForm form)] at ht
  have hk := hbegins _ _ t ht
  cases hkind : t.kind <;> rw [hkind] at hk <;> first | exact hread | exact nomatch hk

theorem statement_decl {k : GroupKind} {ds : List Decl} (hds : GroupRereads parse k ds)
    (hk : Render.keyword ds = k.keyword) :
    (statement parse).Rereads false (Render.stmtForm (.decl ds)) (·.kind = .semi)
      fun s => Bare.stmt s = Bare.stmt ⟨i, sp, .decl ds⟩ := by
  have hread : ∀ start, (declStmt parse start k).Rereads false
      (.kind k.keyword :: Render.parens (Render.ended .semi (ds.map (Render.spec ·.form))))
      (·.kind = .semi) fun s => Bare.stmt s = Bare.stmt ⟨i, sp, .decl ds⟩ := by
    refine fun start => .bind_last (hds false _) fun ds' hds' => ?_
    refine .bind_recording (finishStmt_rereads ?_)
    rw [Bare.stmtForm, Bare.stmtForm, Bare.declList_eq, Bare.declList_eq, hds']
  rw [Render.stmtForm, Render.group, hk]
  cases k with
  | const => exact .bind_here fun start => .bind_kind_at (hread start)
  | var => exact .bind_here fun start => .bind_kind_at (hread start)
  | type => exact .bind_here fun start => .bind_kind_at (hread start)

theorem statement_block {b : Block} (hb : BlockRereads parse b) :
    (statement parse).Rereads false (Render.stmtForm (.block b)) (·.kind = .semi)
      fun s => Bare.stmt s = Bare.stmt ⟨i, sp, .block b⟩ := by
  refine .bind_here fun start => .bind_kind_of (k := .lBrace) (fun t ht => ?_) ?_
  · rw [← List.append_nil (Render.stmtForm _)] at ht
    exact leads_block ht
  · refine .bind_last (hb.before fun _ _ => trivial) fun b' hb' => finishStmt_rereads ?_
    rw [Bare.stmtForm, Bare.stmtForm, hb']

theorem statement_if {init : Option Stmt} {cond : Expr} {body : Block} {other : Option Stmt}
    (hs : IfRereads parse ⟨i, sp, .ifStmt init cond body other⟩) :
    (statement parse).Rereads false (Render.stmtForm (.ifStmt init cond body other))
      (·.kind = .semi)
      fun s => Bare.stmt s = Bare.stmt ⟨i, sp, .ifStmt init cond body other⟩ :=
  .bind_here fun _ => .bind_kind_of (k := .kwIf) (fun _ ht => ht.2) hs

theorem statement_for {header : ForHeader} {body : Block}
    (hs : ForRereads parse (.forStmt header body)) :
    (statement parse).Rereads false (Render.stmtForm (.forStmt header body)) (·.kind = .semi)
      fun s => Bare.stmt s = Bare.stmt ⟨i, sp, .forStmt header body⟩ :=
  .bind_here fun _ => .bind_kind_of (k := .kwFor) (fun _ ht => ht.2)
    (.bind_last hs fun _ hform => finishStmt_rereads hform)

/-- What is started or deferred is a call when it comes back. -/
theorem calledBy_rereads {f : Expr} {l r : Span} {args : List Expr} {dots : Option Span}
    {keyword : String} (hx : ExprInParens parse false ⟨i, sp, .call f l args dots r⟩)
    (hF : ∀ t, F t → Ends false ⟨i, sp, .call f l args dots r⟩ t) :
    (calledBy parse keyword).Rereads false
      (Render.parens (Render.expr ⟨i, sp, .call f l args dots r⟩)) F
      (SameExpr ⟨i, sp, .call f l args dots r⟩) := by
  refine .bind_last (hx.before hF) fun y hy => ?_
  obtain ⟨g, l', args', dots', r', hform⟩ := Bare.call_of_eq (exprForm_of_bare hy)
  rw [hform]
  exact .pure hy

theorem results_rereads {xs : List Expr} (hxs : ∀ x ∈ xs, ExprInParens parse false x) :
    (results parse).Rereads false (Render.exprs xs) (·.kind = .semi)
      fun ys => ys.map Bare.expr = xs.map Bare.expr := by
  cases xs with
  | nil => exact .bind_kind_of (k := .semi) (fun _ ht => ht) (.pure rfl)
  | cons x xs =>
    refine .bind_kind_of (k := .lParen) (fun _ ht => ht.2) ?_
    refine .bind_last (exprList_rereads (List.cons_ne_nil _ _) hxs (fun _ _ t ht => .of_kind ht rfl)
      fun t ht => ?_) fun ys hys => .bind_recording (.pure hys)
    rw [ht]
    decide

theorem optionalLabel_rereads {label : Option Ident} :
    optionalLabel.Rereads h (label.toList.map (.name ·.name)) (·.kind = .semi)
      fun label' => label'.map Bare.ident = label.map Bare.ident := by
  cases label with
  | none =>
    refine .ifNotAt (fun t ht => ?_) (.pure rfl)
    rw [show t.kind = .semi from ht]
    decide
  | some n =>
    refine .ifAt (fun _ ht => ht.2.1) (.map (ident_rereads.imp (fun _ ht => ht) fun m hm => ?_))
    exact congrArg some hm

/-- A statement that is a keyword and what is read after it. -/
theorem keyword_rereads {α : Type} {p : Parser α} {g : α → StmtForm} {k : Token.Kind}
    {form : StmtForm} {start : Location}
    (hp : p.Rereads false ss (·.kind = .semi) fun a => Bare.stmtForm (g a) = Bare.stmtForm form) :
    (advance >>= fun _ => p >>= fun a => finishStmt start (g a)).Rereads false (.kind k :: ss)
      (·.kind = .semi) fun s => Bare.stmt s = Bare.stmt ⟨i, sp, form⟩ :=
  .bind_advance fun _ _ => .bind_last hp fun _ hform => finishStmt_rereads hform

section

variable {f : Expr} {l r : Span} {args : List Expr} {dots : Option Span}
  (hx : ExprInParens parse false ⟨i, sp, .call f l args dots r⟩)

include hx

theorem statement_go {j : Nat} :
    (statement parse).Rereads false (Render.stmtForm (.goStmt ⟨i, sp, .call f l args dots r⟩))
      (·.kind = .semi)
      fun s => Bare.stmt s = Bare.stmt ⟨j, sp', .goStmt ⟨i, sp, .call f l args dots r⟩⟩ := by
  refine .bind_here fun _ => .bind_kind_at (keyword_rereads ((calledBy_rereads hx fun t ht =>
    .of_kind ht rfl).imp (fun _ ht => ht) fun y hy => ?_))
  rw [Bare.stmtForm, Bare.stmtForm, hy]

theorem statement_defer {j : Nat} :
    (statement parse).Rereads false (Render.stmtForm (.deferStmt ⟨i, sp, .call f l args dots r⟩))
      (·.kind = .semi)
      fun s => Bare.stmt s = Bare.stmt ⟨j, sp', .deferStmt ⟨i, sp, .call f l args dots r⟩⟩ := by
  refine .bind_here fun _ => .bind_kind_at (keyword_rereads ((calledBy_rereads hx fun t ht =>
    .of_kind ht rfl).imp (fun _ ht => ht) fun y hy => ?_))
  rw [Bare.stmtForm, Bare.stmtForm, hy]

end

theorem statement_return {xs : List Expr} (hxs : ∀ x ∈ xs, ExprInParens parse false x) :
    (statement parse).Rereads false (Render.stmtForm (.returnStmt xs)) (·.kind = .semi)
      fun s => Bare.stmt s = Bare.stmt ⟨i, sp, .returnStmt xs⟩ := by
  refine .bind_here fun _ => .bind_kind_at (keyword_rereads ((results_rereads hxs).imp
    (fun _ ht => ht) fun ys hys => ?_))
  rw [Bare.stmtForm, Bare.stmtForm, hys]

theorem statement_break {label : Option Ident} :
    (statement parse).Rereads false (Render.stmtForm (.breakStmt label)) (·.kind = .semi)
      fun s => Bare.stmt s = Bare.stmt ⟨i, sp, .breakStmt label⟩ := by
  refine .bind_here fun _ => .bind_kind_at (keyword_rereads (optionalLabel_rereads.imp
    (fun _ ht => ht) fun label' hlabel => ?_))
  rw [Bare.stmtForm, Bare.stmtForm, hlabel]

theorem statement_continue {label : Option Ident} :
    (statement parse).Rereads false (Render.stmtForm (.continueStmt label)) (·.kind = .semi)
      fun s => Bare.stmt s = Bare.stmt ⟨i, sp, .continueStmt label⟩ := by
  refine .bind_here fun _ => .bind_kind_at (keyword_rereads (optionalLabel_rereads.imp
    (fun _ ht => ht) fun label' hlabel => ?_))
  rw [Bare.stmtForm, Bare.stmtForm, hlabel]

theorem statement_goto {label : Ident} :
    (statement parse).Rereads false (Render.stmtForm (.gotoStmt label)) (·.kind = .semi)
      fun s => Bare.stmt s = Bare.stmt ⟨i, sp, .gotoStmt label⟩ := by
  refine .bind_here fun _ => .bind_kind_at (keyword_rereads (ident_rereads.imp
    (fun _ ht => ht) fun label' hlabel => ?_))
  rw [Bare.stmtForm, Bare.stmtForm, hlabel]

theorem statement_fallthrough :
    (statement parse).Rereads false (Render.stmtForm .fallthroughStmt) (·.kind = .semi)
      fun s => Bare.stmt s = Bare.stmt ⟨i, sp, .fallthroughStmt⟩ :=
  .bind_here fun _ => .bind_kind_at (.bind_advance fun _ _ => finishStmt_rereads rfl)

end Grammar

-- ======================================================== how they begin

theorem beginsStmt_of_kind {s : Stmt} {ss : List Slot} (k : Token.Kind)
    (hs : Render.stmt s = .kind k :: ss) (hk : k ≠ .semi ∧ k ≠ .rBrace ∧ k ≠ .eof) :
    BeginsStmt s := by
  intro us F t ht
  rw [hs] at ht
  rw [show t.kind = k from ht.2]
  exact hk

/-- Of the simple statements it is known, of others shown by a keyword. -/
theorem beginsStmt_of_simple {form : StmtForm} (hform : BeginsSimple form) :
    BeginsStmt ⟨i, sp, form⟩ := by
  intro us F t ht
  have hk := hform us F t ht
  refine ⟨?_, ?_, ?_⟩ <;> intro hkind <;> rw [hkind] at hk <;> exact nomatch hk

theorem beginsSimple_parens {form : StmtForm} {ss us : List Slot}
    (hform : Render.stmtForm form = Render.parens ss ++ us) : BeginsSimple form := by
  intro us F t ht
  rw [hform] at ht
  rw [show t.kind = .lParen from ht.2]
  rfl

theorem beginsSimple_names {form : StmtForm} {n : String} {us : List Slot}
    (hform : Render.stmtForm form = .name n :: us) : BeginsSimple form := by
  intro us F t ht
  rw [hform] at ht
  rw [show t.kind = .ident from ht.2.1]
  rfl

-- ================================================================ forms

namespace Always

-- ==================================================== simple statements

/-- A simple statement is read back as a production if its body is. -/
theorem simpleStmt {form : StmtForm} (h : Always fun parse =>
      (Grammar.simpleStmt parse sm).Rereads sm.inHeader (Render.stmtForm form)
        (EndsSimple sm form.last) fun draft => Bare.stmtForm draft.form = Bare.stmtForm form) :
    Always (SimpleRereads · sm form) :=
  h.deeper fun _ h => .production h

theorem bareNames {xs : List Expr} {ns : List Ident} (hnames : AreNames xs ns) (h : Bool) :
    Always fun parse => Grammar.BareNames parse h xs := by
  refine all (P := fun x parse => (parse .expression).Rereads h (Render.expr x)
    (·.kind.endsExpr = true) (SameExpr x)) fun x hx => ?_
  have hform : x.form ∈ ns.map ExprForm.ident := hnames ▸ List.mem_map_of_mem hx
  obtain ⟨n, -, hn⟩ := List.mem_map.mp hform
  obtain ⟨i, sp, form⟩ := x
  obtain rfl : form = .ident n := hn.symm
  exact bareIdent fun _ ht => ht

theorem exprStmt (hx : Always (ExprRereads · x)) : Always (SimpleRereads · sm (.expr x)) :=
  simpleStmt ((hx.inParens _).imp fun _ => Grammar.simpleStmt_expr)

theorem sendStmt {y : Expr} (hx : Always (ExprRereads · x)) (hy : Always (ExprRereads · y)) :
    Always (SimpleRereads · sm (.send x y)) :=
  simpleStmt (((hx.inParens _).and (hy.inParens _)).imp fun _ h => Grammar.simpleStmt_send h.1 h.2)

theorem stepStmt {op : StepOp} (hx : Always (ExprRereads · x)) :
    Always (SimpleRereads · sm (.step x op)) :=
  simpleStmt ((hx.inParens _).imp fun _ => Grammar.simpleStmt_step)

theorem assignStmt {op : AssignOp} {left right : List Expr} (hne : left ≠ []) (hne' : right ≠ [])
    (hleft : ∀ x ∈ left, Always (ExprRereads · x))
    (hright : ∀ x ∈ right, Always (ExprRereads · x)) :
    Always (SimpleRereads · sm (.assign left op sp right)) :=
  simpleStmt (((inParensAll hleft _).and (inParensAll hright _)).imp fun _ h =>
    Grammar.simpleStmt_assign hne hne' h.1 h.2)

theorem shortVarStmt {ns : List Ident} {xs : List Expr} (hne : ns ≠ []) (hne' : xs ≠ [])
    (hxs : ∀ x ∈ xs, Always (ExprRereads · x)) : Always (SimpleRereads · sm (.shortVar ns sp xs)) :=
  simpleStmt (((bareNames (Grammar.areNames_nameExprs ns) _).and (inParensAll hxs _)).imp fun _ h =>
    Grammar.simpleStmt_shortVar hne hne' h.1 h.2)

theorem rangeStmt (hx : Always (ExprRereads · x)) :
    Always (SimpleRereads · .forHeader (.range [] false x)) :=
  simpleStmt ((hx.inParens true).imp fun _ => Grammar.simpleStmt_range)

theorem defineRangeStmt {left : List Expr} {ns : List Ident} (hne : left ≠ [])
    (hnames : AreNames left ns) (hx : Always (ExprRereads · x)) :
    Always (SimpleRereads · .forHeader (.range left true x)) :=
  simpleStmt (((bareNames hnames true).and (hx.inParens true)).imp fun _ h =>
    Grammar.simpleStmt_defineRange hne hnames h.1 h.2)

theorem assignRangeStmt {left : List Expr} (hne : left ≠ [])
    (hleft : ∀ x ∈ left, Always (ExprRereads · x)) (hx : Always (ExprRereads · x)) :
    Always (SimpleRereads · .forHeader (.range left false x)) :=
  simpleStmt (((inParensAll hleft true).and (hx.inParens true)).imp fun _ h =>
    Grammar.simpleStmt_assignRange hne h.1 h.2)

theorem labeledStmt {n : Ident} {s : Stmt} (hs : Always (StmtRereads · s)) :
    Always (SimpleRereads · .statement (.labeled n s)) := by
  refine simpleStmt (((bareNames (Grammar.areNames_nameExprs [n]) false).and hs).imp fun _ h => ?_)
  refine (Grammar.simpleStmt_labeled h.1 h.2).before fun t ht => ?_
  obtain ht | ⟨hsm, -⟩ := ht
  · exact ht
  · exact nomatch hsm

-- =============================================================== bodies

theorem blockOf {b : Block} (hss : ∀ s ∈ b.stmts, Always (StmtRereads · s) ∧ BeginsStmt s) :
    Always (BlockRereads · b) :=
  (all fun s hs => (hss s hs).1).deeper fun _ h => .production (Grammar.block_rereads
    (Grammar.stmtList_rereads h (fun s hs => (hss s hs).2) fun _ ht => .inl ht))

theorem ifOf {init : Option Stmt} {cond : Expr} {body : Block} {other : Option Stmt}
    (hinit : ∀ s ∈ init, Always (SimpleRereads · .plain s.form))
    (hcond : Always (SimpleRereads · .plain (.expr cond))) (hends : EndsHeader (some cond))
    (hbody : Always (BlockRereads · body)) (hother : ∀ s ∈ other, Always (OtherwiseRereads · s)) :
    Always (IfRereads · ⟨i, sp, .ifStmt init cond body other⟩) :=
  (((option hinit).and hcond).and (hbody.and (option hother))).deeper
    fun _ ⟨⟨hinit, hcond⟩, hbody, hother⟩ =>
      .production (Grammar.ifStmt_rereads hinit hcond hends hbody hother)

theorem forOf {header : ForHeader} {body : Block} (hheader : Always (ForHeaderRereads · header))
    (hbody : Always (BlockRereads · body)) : Always (ForRereads · (.forStmt header body)) :=
  (hheader.and hbody).deeper fun _ ⟨hheader, hbody⟩ =>
    .production (Grammar.forStmt_rereads hheader hbody)

theorem clauseHeader {init post : Option Stmt} {cond : Option Expr}
    (hinit : ∀ s ∈ init, Always (SimpleRereads · .forHeader s.form) ∧ BeginsSimple s.form ∧
      ∀ left define x, s.form ≠ .range left define x)
    (hcond : ∀ x ∈ cond, Always (ExprRereads · x))
    (hpost : ∀ s ∈ post, Always (SimpleRereads · .plain s.form) ∧ BeginsSimple s.form ∧
      ∀ ns op xs, s.form ≠ .shortVar ns op xs)
    (hends : ∀ s ∈ post, EndsHeader s.form.last) :
    Always (ForHeaderRereads · (.clause init cond post)) := by
  refine (((option fun s hs => (hinit s hs).1).and (bounds hcond true)).and
    (option fun s hs => (hpost s hs).1)).imp fun _ ⟨⟨hi, hc⟩, hp⟩ => ?_
  refine Grammar.forHeader_clause (fun s hs => ⟨hi s hs, (hinit s hs).2⟩) hc ?_
  exact Grammar.postStmt_rereads (fun s hs => ⟨hp s hs, (hpost s hs).2⟩) hends

-- =========================================================== statements

/-- A statement is read back as a production if its body is. -/
theorem stmt {s : Stmt} (h : Always fun parse => (Grammar.statement parse).Rereads false
      (Render.stmt s) (·.kind = .semi) fun s' => Bare.stmt s' = Bare.stmt s) :
    Always (StmtRereads · s) :=
  h.deeper fun _ h => .production h

end Always

end GoSource
