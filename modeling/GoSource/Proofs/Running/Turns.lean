/-
Repetitions are never cut short.

A repetition of the grammar is given a number of turns, because it must
end for the sake of its definition. It would have ended anyway: a turn that
goes on has taken a token (`Parser.Advances`), so a repetition is what its
equation without a count says (`Advances.repeating_eq`). What is to be
known of a turn is therefore one fact for each repetition of the grammar
(`Grammar.Loop`).

Most turns have to take a token to find out that they go on: a comma, an
operator, a separator. Three do not. A turn of a list of statements may
end without a semicolon, and then the statement itself is what was taken;
the only statement that takes nothing is the empty one, which stands where
no turn begins one. The other two read declarations, at the end of the
input without a semicolon.
-/
import GoSource.Proofs.Derivation.Parse

namespace GoSource

open GoSource.Parser

variable {α σ : Type} {m : Mode} {s : Parsing}

-- ================================================================ turns

/-- A turn fails, or is the last, or takes a token. -/
def Parser.Advances (turn : σ → Parser (Turn σ)) : Prop :=
  ∀ a b s s', s.Fueled → turn a s = .ok (.again b) s' → ∃ ts, ts ≠ [] ∧ s.Passes ts s'

/-- What a turn decides, done: the repetition again, or nothing more. -/
def Parser.afterTurn (turn : σ → Parser (Turn σ)) : Turn σ → Parser σ
  | .again b => repeating turn b
  | .stop b => pure b

/-- What a turn must have taken to decide as it did. -/
def Parser.Turn.Progress (ts : List Token) : Turn σ → Prop
  | .again _ => ts ≠ []
  | .stop _ => True

namespace Parser.Advances

variable {turn : σ → Parser (Turn σ)}

theorem of_reads (h : ∀ m a s, (turn a).Reads m s fun ts t _ => t.Progress ts) :
    Advances turn := by
  intro a b s s' hs hturn
  have hready : s.Ready ⟨s.inHeader, s.guardAllowed⟩ := ⟨rfl, id, hs⟩
  obtain ⟨ts, hpass, hne⟩ := h _ a s hready _ s' hturn
  exact ⟨ts, hne, hpass⟩

/-- Two counts that exceed the number of tokens left are as good as each
other. -/
theorem takeTurns_eq (h : Advances turn) {n k : Nat} {a : σ} (hs : s.Fueled)
    (hn : s.cursor.left < n) (hk : s.cursor.left < k) :
    takeTurns turn n a s = takeTurns turn k a s := by
  induction n generalizing k a s with
  | zero => omega
  | succ n ih =>
    obtain ⟨k, rfl⟩ : ∃ j, k = j + 1 := ⟨k - 1, by omega⟩
    simp only [takeTurns, bind, EStateM.bind]
    cases hturn : turn a s with
    | error e s' => rfl
    | ok t s' =>
      cases t with
      | stop b => rfl
      | again b =>
        obtain ⟨ts, hne, hpass⟩ := h a b s s' hs hturn
        have hle := hpass.takes.left_add_length
        have hpos := List.length_pos_iff.mpr hne
        exact ih (hs.passes hpass) (by omega) (by omega)

/-- A repetition does what it would do without a count. -/
theorem repeating_eq (h : Advances turn) (a : σ) (hs : s.Fueled) :
    repeating turn a s = (turn a >>= afterTurn turn) s := by
  have hfuel : s.cursor.left < s.turns := hs
  obtain ⟨n, hn⟩ : ∃ n, s.turns = n + 1 := ⟨s.turns - 1, by omega⟩
  unfold repeating
  rw [hn]
  simp only [takeTurns, bind, EStateM.bind]
  cases hturn : turn a s with
  | error e s' => rfl
  | ok t s' =>
    cases t with
    | stop b => rfl
    | again b =>
      obtain ⟨ts, hne, hpass⟩ := h a b s s' hs hturn
      have hle := hpass.takes.left_add_length
      have hpos := List.length_pos_iff.mpr hne
      have hturns : s'.cursor.left < s'.turns := hs.passes hpass
      exact h.takeTurns_eq (hs.passes hpass) (by omega) hturns

end Parser.Advances

namespace Grammar

-- ================================================================ lists

theorem afterComma_advances {item : Parser α}
    (h : ∀ m s, item.Reads m s fun _ _ _ => True) : Advances (afterComma item) := by
  refine .of_reads fun m items s => .bind_eat (by decide) (fun _ => ?_) fun _ => .pure trivial
  refine .bind (h m s.next) fun ts a s' _ => .pure ?_
  exact List.cons_ne_nil _ _

theorem nextItem_advances {close separator : Token.Kind} {item : Nat → Parser α}
    (hsep : separator ≠ .eof) (h : ∀ n m s, (item n).Reads m s fun _ _ _ => True) :
    Advances (nextItem close separator item) := by
  refine .of_reads fun m ⟨count, items⟩ s => .ifAt (fun _ => .pure trivial) fun _ => ?_
  refine .bind (h count m s) fun ts a s' _ => ?_
  refine .bind_eat hsep (fun _ => .pure ?_) fun _ => .pure trivial
  simp [Turn.Progress]

-- =========================================================== expressions

variable {parse : SubParser} (hp : parse.Sound)

include hp

theorem nextOperator_advances (levels least : Nat) :
    Advances (nextOperator (binaryExpr parse levels) least) := by
  refine .of_reads fun m left s => .bind_kind ?_
  split
  · next op hop =>
    split
    · have hk : s.current.kind ≠ .eof := by
        intro hk
        rw [hk] at hop
        exact nomatch hop
      refine .bind_advance hk (.bind (binaryExpr_reads hp levels _) fun ts right s' _ => ?_)
      exact .bind_new (fun _ => ⟨_, rfl⟩) fun _ _ => .pure (List.cons_ne_nil _ _)
    · exact .pure trivial
  · exact .pure trivial

theorem selectorOrAssertion_progress (x : Expr) :
    (selectorOrAssertion parse x).Reads m s fun ts _ _ => ts ≠ [] := by
  refine .bind_expect (by decide) fun _ => ?_
  refine .ifAt (fun _ => ?_) fun _ => .ifAt (fun hl => ?_) fun _ => .unexpected
  · refine .bind ident_reads fun _ _ _ _ => .new (fun _ => ⟨_, rfl⟩) fun _ _ => ?_
    exact List.cons_ne_nil _ _
  · refine .bind_advance (by rw [hl]; decide) (.ifAt (fun hk => ?_) fun _ => ?_)
    · refine .ifGuardAllowed (fun _ _ => ?_) .bind_unexpected
      refine .bind_advance (by rw [hk]; decide) (.bind_disallowGuard (.bind_pure ?_))
      exact .bind_expect (by decide) fun _ => .new (fun _ => ⟨_, rfl⟩) fun _ _ =>
        List.cons_ne_nil _ _
    · refine .bind_map (.inside fun _ => hp.type) fun _ _ _ _ => ?_
      exact .bind_expect (by decide) fun _ => .new (fun _ => ⟨_, rfl⟩) fun _ _ =>
        List.cons_ne_nil _ _

theorem suffix_advances : Advances (suffix parse) := by
  refine .of_reads fun m x s => .bind_kind ?_
  split
  · exact .map (selectorOrAssertion_progress hp x)
  · exact .map ((hp (.indexOrSlice x) m s trivial).imp fun _ _ _ h => h.1)
  · exact .map ((hp (.call x) m s trivial).imp fun _ _ _ h => h.1)
  · refine .bind_inHeader ?_
    split
    · refine .bind toType_reads fun ts t s' _ => ?_
      refine .map ((hp (.compositeLit (some t) t.span.start) m s' trivial).imp ?_)
      rintro us y _ ⟨i, l, es, r, elements, -, -, rfl, -⟩
      simp [Turn.Progress]
    · exact .pure trivial
  · exact .pure trivial

theorem nextArgument_advances : Advances (nextArgument parse) := by
  refine .of_reads fun m ⟨args, dots⟩ s => .ifAt (fun _ => .pure trivial) fun _ => ?_
  refine .bind hp.anyExpression fun ts arg s₁ _ => .bind_eat (by decide) (fun _ => ?_) fun _ => ?_
  · exact .bind (eat_possibly (by decide)) fun _ _ _ _ => .pure trivial
  · refine .bind_eat (by decide) (fun _ => .pure ?_) fun _ => .pure trivial
    simp [Turn.Progress]

theorem element_passes : (element parse).Reads m s fun _ _ _ => True := by
  refine .bind (elementPart_reads hp) fun _ _ s₁ _ => .bind_eat (by decide) (fun _ => ?_)
    fun _ => ?_
  · exact .bind (elementPart_reads hp) fun _ _ _ _ => .pure trivial
  · exact .pure trivial

-- =========================================================== parameters

omit hp in
theorem leadingName_advances : Advances leadingName := by
  refine .of_reads fun m found s => ?_
  cases found with
  | undecided names =>
    refine .ifAt (fun _ => ?_) fun _ => .pure trivial
    refine .bind ident_reads fun ns n s₁ _ => .bind_kind ?_
    split
    · next hc =>
      refine .bind_advance (by rw [hc]; decide) (.ifAt (fun _ => .pure trivial) fun _ => .pure ?_)
      simp [Turn.Progress]
    · exact .pure trivial
    · exact .pure trivial
    · exact .pure trivial
  | types names => exact .pure trivial
  | qualified names pkg => exact .pure trivial
  | named names => exact .pure trivial

/-- A parameter is at least a type. -/
theorem paramAfter_progress (names : List Ident) (start : Location) :
    (paramAfter parse names start).Reads m s fun ts _ _ => ts ≠ [] := by
  refine .bind (eat_possibly (by decide)) fun ds dots s₁ _ => .bind hp.type fun ts t s₂ ht => ?_
  have hne : ts ≠ [] := ht.ne_nil rfl
  refine .bind (P := fun _ _ _ => True) (finishParam_reads fun _ _ => trivial) fun us p s₃ _ => ?_
  split
  · refine .bind (eat_possibly (by decide)) fun _ _ _ _ => .pure ?_
    simp [hne]
  · refine .bind moreParams_reads fun _ _ _ _ => .pure ?_
    simp [hne]

theorem unnamedParam_advances : Advances (unnamedParam parse) := by
  refine .of_reads fun m params s => .bind_here ?_
  refine .bind (paramAfter_progress hp [] _) fun ts ⟨p, more⟩ s₁ hne => ?_
  cases more with
  | false => exact .pure trivial
  | true => exact .pure (by simpa [Turn.Progress] using hne)

theorem namedParam_advances : Advances (namedParam parse) := by
  refine .of_reads fun m st s => ?_
  obtain ⟨names, params⟩ := st
  have later : ∀ start, (paramAfter parse names start >>= fun r =>
      if r.2 = true then do pure (.again (← commaSeparated ident, r.1 :: params))
      else pure (.stop ([], r.1 :: params)) : Parser (Turn (List Ident × List Param))).Reads m s
        fun ts t _ => t.Progress ts := by
    intro start
    refine .bind (paramAfter_progress hp names start) fun ts r s₁ hne => ?_
    obtain ⟨p, more⟩ := r
    cases more with
    | false => exact .pure trivial
    | true =>
      refine .bind names_reads fun us names s₂ _ => .pure ?_
      simp [Turn.Progress, hne]
  cases names with
  | nil => exact .bind_here (later _)
  | cons n names => exact .bind_pure (later _)

-- =========================================================== statements

/-- A statement may be empty, but not where a turn begins one. -/
theorem nextStmt_advances : Advances (nextStmt parse) := by
  refine .of_reads fun m stmts s => ifAtListEnd (fun _ => .pure trivial) fun hmore => ?_
  refine .bind_eat (by decide) (fun _ => .pure (List.cons_ne_nil _ _)) fun hsemi => ?_
  refine .bind (hp .statement m s trivial) fun ts stmt s₁ hstmt => ?_
  have hne : ts ≠ [] := by
    rcases hstmt with hstmt | ⟨hends, -⟩
    · exact hstmt.ne_nil rfl
    · rcases hends with h | h
      · exact absurd h hsemi
      · exact absurd h hmore
  refine ifAtListEnd (fun _ => .pure ?_) fun _ => .bind_expect (by decide) fun _ => .pure ?_
  · simpa [Turn.Progress] using hne
  · simp [Turn.Progress]

-- ========================================================= declarations

theorem listedSpec_passes (k : GroupKind) (n : Nat) :
    (listedSpec parse k n).Reads m s fun _ _ _ => True :=
  .bind_here (bind_doc fun _ _ => (spec_reads hp).imp fun _ _ _ _ => trivial)

theorem topLevelDecl_progress : (topLevelDecl parse).Reads m s fun ts _ _ => ts ≠ [] := by
  refine .bind_kind ?_
  split
  · next g hg =>
    exact (hp.group (keyword_of_ofKind hg)).imp fun ts ds _ hds => hds.ne_nil rfl
  · refine .ifAt (fun _ => ?_) fun _ => .unexpected
    refine .bind (hp .functionDecl m s trivial) fun ts d s' hd => .pure ?_
    have hne : ts ≠ [] := Derives.ne_nil hd rfl
    simpa using hne

theorem importDecl_progress : (parse .importDecl).Reads m s fun ts _ _ => ts ≠ [] :=
  (hp .importDecl m s trivial).imp fun _ _ _ hd => Derives.ne_nil hd rfl

theorem anyDecl_progress : (anyDecl parse).Reads m s fun ts _ _ => ts ≠ [] := by
  refine .ifAt (fun _ => ?_) fun _ => topLevelDecl_progress hp
  refine .bind (importDecl_progress hp) fun ts d s' hne => .pure ?_
  simpa using hne

theorem nextImport_advances : Advances (nextImport parse) := by
  refine .of_reads fun m decls s => .ifAt (fun _ => ?_) fun _ => .pure trivial
  refine .bind (importDecl_progress hp) fun ts d s₁ hne => ?_
  refine .bind expectSemi_reads fun cs _ s₂ _ => .pure ?_
  simp [Turn.Progress, hne]

omit hp in
theorem nextDecl_advances {decl : Parser (List Decl)}
    (h : ∀ m s, decl.Reads m s fun ts _ _ => ts ≠ []) : Advances (nextDecl decl) := by
  refine .of_reads fun m decls s => .ifAt (fun _ => .pure trivial) fun _ => ?_
  refine .bind (h m s) fun ts more s₁ hne => ?_
  refine .bind expectSemi_reads fun cs _ s₂ _ => .pure ?_
  simp [Turn.Progress, hne]

-- ========================================================= all of them

theorem Loop.advances (loop : Loop σ) : Advances (loop.turn parse) := by
  cases loop with
  | operators levels least => exact nextOperator_advances hp levels least
  | suffixes => exact suffix_advances hp
  | arguments => exact nextArgument_advances hp
  | expressions =>
    exact afterComma_advances fun _ _ => hp.anyExpression.imp fun _ _ _ _ => trivial
  | names => exact afterComma_advances fun _ _ => ident_reads.imp fun _ _ _ _ => trivial
  | elements => exact nextItem_advances (by decide) fun _ _ _ => element_passes hp
  | leadingNames => exact leadingName_advances
  | unnamedParams => exact unnamedParam_advances hp
  | namedParams => exact namedParam_advances hp
  | fields =>
    exact nextItem_advances (by decide) fun _ m s =>
      (hp .fieldDecl m s trivial).imp fun _ _ _ _ => trivial
  | methods =>
    exact nextItem_advances (by decide) fun _ _ _ =>
      (interfaceElement_reads hp).imp fun _ _ _ _ => trivial
  | stmts => exact nextStmt_advances hp
  | specs kind =>
    exact nextItem_advances (by decide) fun n _ _ => listedSpec_passes hp kind n
  | importSpecs =>
    exact nextItem_advances (by decide) fun _ _ _ => importSpec_reads.imp fun _ _ _ _ => trivial
  | imports => exact nextImport_advances hp
  | decls => exact nextDecl_advances fun _ _ => topLevelDecl_progress hp
  | anyDecls => exact nextDecl_advances fun _ _ => anyDecl_progress hp

end Grammar

end GoSource
