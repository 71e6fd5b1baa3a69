/-
Statements that come last.

A header is followed by a block, and a block ends in a brace; so neither
can be where two inputs part. What can is an expression, a name or a
keyword alone. Of the keywords `return` is the one that looks at what comes
next, and it does not treat the end of the input like a semicolon.
-/
import GoSource.Proofs.Parting.Expression

namespace GoSource

open GoSource.Parser

variable {α β : Type} {f : Fork} {s t : Parsing} {parse : SubParser}

-- =============================================================== rules

/-- Where `return` comes last, the first input does not end in a
semicolon. -/
def Fork.Returns (f : Fork) : Prop :=
  (∀ c, f.ends c → c.current.kind = .eof) ∨ ¬ f.last .kwReturn

/-- Whether the parser succeeds, and with what, is settled in advance. -/
def Parser.Foregone (p : Parser α) : Prop := (∃ x, p = pure x) ∨ ∀ s x s', p s ≠ .ok x s'

theorem Parser.Unswayed.bind_foregone {p : Parser α} {u : α → Parser β} (hp : p.Foregone)
    (h : ∀ x, Unswayed f s t (u x)) : Unswayed f s t (p >>= u) := by
  rcases hp with ⟨x, rfl⟩ | hp
  · rw [pure_bind]
    exact h x
  · intro ts hst y s' hy
    obtain ⟨x, s₁, hx, -⟩ := bind_eq_ok.mp hy
    exact absurd hx (hp s x s₁)

/-- The next token is asked for where there is one. -/
theorem Parser.Unswayed.kind_beside {s' : Parsing} {u : Token} {us : List Token}
    {g : Token.Kind → Parser β} {y : β} (h : s.Beside f (u :: us) t)
    (hg : Unswayed f s t (g s.current.kind)) (hy : (kind >>= g) s = .ok y s') :
    ∃ vs t', (kind >>= g) t = .ok y t' ∧ s'.Beside f vs t' := by
  obtain ⟨vs, t', ht', h'⟩ := hg _ h y s' hy
  rw [← h.current_eq] at ht'
  exact ⟨vs, t', ht', h'⟩

namespace Grammar

open Unswayed

theorem single_foregone (left : List Expr) : (single left).Foregone := by
  unfold single
  split
  · exact .inl ⟨_, rfl⟩
  · exact .inr fun _ _ _ => unexpected_ne_ok

theorem definedNames_foregone (left : List Expr) : (definedNames left).Foregone := by
  unfold definedNames
  induction left with
  | nil => exact .inl ⟨[], rfl⟩
  | cons x left ih =>
    rw [List.mapM_cons]
    split
    · rw [pure_bind]
      rcases ih with ⟨names, hnames⟩ | hfails
      · rw [hnames]
        exact .inl ⟨_, rfl⟩
      · refine .inr fun s names s' h => ?_
        obtain ⟨_, s₁, h, -⟩ := bind_eq_ok.mp h
        exact hfails s _ s₁ h
    · refine .inr fun s names s' h => ?_
      obtain ⟨_, s₁, h, -⟩ := bind_eq_ok.mp h
      exact unexpectedAt_ne_ok h

variable (hf : f.second.current.kind.isEnd = true) (hsound : parse.Sound)
  (hparse : ∀ {α : Type} (p : Production α), p.comesLast = true → ∀ s t, Unswayed f s t (parse p))
  (hstuck : ∀ {α : Type} (p : Production α), p.needsToken = true → Stuck f (parse p))
  (hnear : ∀ {α : Type} {p : Parser α}, Woven parse p → p.Nearsighted f)

-- =============================================================== blocks

include hnear in
theorem block_unswayed : Unswayed f s t (block parse) := by
  refine .unrestricted (.bind (.expect rfl) fun lBrace s t => ?_)
  refine inside (hnear inferInstance) (fun _ => .bind (.expect rfl)) fun _ _ _ => ?_
  exact .bind (.expect rfl) fun _ _ _ => .pure

-- ==================================================== simple statements

section

include hf hparse

theorem rangeClause_unswayed (mode : SimpleMode) : Unswayed f s t (rangeClause parse mode) := by
  refine .ite (bind_eat (.of_isEnd hf rfl) (fun _ _ _ => ?_) .pure) .pure
  exact .map (hparse .expression rfl _ _)

include hsound

theorem definition_unswayed (mode : SimpleMode) (left : List Expr)
    (hs : ¬ f.ends s.cursor) : Unswayed f s t (definition parse mode left) := by
  refine bind_foregone (definedNames_foregone left) fun names => bind_advance hs ?_
  refine .bind (rangeClause_unswayed hf hparse mode) fun clause _ _ => ?_
  cases clause with
  | some x => exact .bind .recording fun _ _ _ => .pure
  | none =>
    exact .bind (exprList_unswayed hf hsound hparse) fun values _ _ =>
      .bind .recording fun _ _ _ => .bind .recording fun _ _ _ => .pure

theorem assignment_unswayed (mode : SimpleMode) (left : List Expr) (op : AssignOp)
    (hs : ¬ f.ends s.cursor) : Unswayed f s t (assignment parse mode left op) := by
  have plain (sp : Span) (s t : Parsing) : Unswayed f s t (exprList parse >>= fun right =>
      recording (·.addExprs left) >>= fun _ => recording (·.addExprs right) >>= fun _ =>
        (Pure.pure (.assign left op sp right) : Parser StmtForm)) :=
    .bind (exprList_unswayed hf hsound hparse) fun right _ _ =>
      .bind .recording fun _ _ _ => .bind .recording fun _ _ _ => .pure
  refine bind_advance hs ?_
  by_cases hop : op = .assign
  · rw [if_pos hop]
    refine .bind (rangeClause_unswayed hf hparse mode) fun clause s t => ?_
    cases clause with
    | some x => exact .bind .recording fun _ _ _ => .pure
    | none => exact plain _ s t
  · rw [if_neg hop]
    exact plain _ _ _

theorem afterExprs_unswayed (mode : SimpleMode) (left : List Expr) :
    Unswayed f s t (afterExprs parse mode left) := by
  have alone : Unswayed f s t (StmtForm.expr <$> single left) := by
    rw [map_eq_pure_bind]
    exact bind_foregone (single_foregone left) fun _ => .pure
  refine bind_kind_alike hf rfl alone fun hs => ?_
  have hs : ¬ f.ends s.cursor := Fork.not_ends hs
  split
  · refine bind_foregone (single_foregone left) fun chan => bind_advance hs ?_
    exact .bind (hparse .expression rfl _ _) fun _ _ _ => .pure
  · exact bind_foregone (single_foregone left) fun x => bind_advance hs .pure
  · exact bind_foregone (single_foregone left) fun x => bind_advance hs .pure
  · exact definition_unswayed hf hsound hparse mode left hs
  · split
    · exact assignment_unswayed hf hsound hparse mode left _ hs
    · exact alone

omit hparse hsound in
/-- A label is followed by a colon, which is still to be taken. -/
theorem bind_labelBefore (mode : SimpleMode) (left : List Expr) {g : Option Ident → Parser β}
    (label : ∀ name, ¬ f.ends s.cursor → Unswayed f s t (g (some name)))
    (nothing : Unswayed f s t (g none)) : Unswayed f s t (labelBefore mode left >>= g) := by
  refine bind_isAt (g := fun b => (if (mode.labelAllowed && b) = true then
    Pure.pure (asLabel left) else Pure.pure none) >>= g) (.of_isEnd hf rfl) (fun hs => ?_) ?_
  · split
    · rw [pure_bind]
      cases asLabel left with
      | some name => exact label name (Fork.not_ends (by rw [hs]; rfl))
      | none => exact nothing
    · exact nothing
  · rw [Bool.and_false]
    exact nothing

omit hparse hsound hf in
theorem rangeClause_stuck (mode : SimpleMode) {g : Option Expr → Parser β}
    (h : Stuck f (g none)) : Stuck f (rangeClause parse mode >>= g) := by
  unfold rangeClause
  split
  · rw [bind_assoc]
    exact .bind_eat rfl h
  · exact h

include hstuck

include hnear in
theorem simpleStmt_unswayed (hstatement : ∀ s t, Unswayed f s t (parse .statement))
    (mode : SimpleMode) : Unswayed f s t (simpleStmt parse mode) := by
  refine of_stuck (.after (hnear inferInstance) fun start => rangeClause_stuck mode ?_) fun hs => ?_
  · exact .bind (.bind (hstuck .expression rfl))
  refine bind_here hs (.bind (rangeClause_unswayed hf hparse mode) fun clause s t => ?_)
  cases clause with
  | some x => exact bind_spanFrom fun _ => .pure
  | none =>
    refine .bind (exprList_unswayed hf hsound hparse) fun left s t => ?_
    refine bind_labelBefore hf mode left (fun label hs => bind_advance hs ?_) ?_
    · exact .bind (hstatement _ _) fun _ _ _ => bind_spanFrom fun _ => .pure
    · exact .bind (afterExprs_unswayed hf hsound hparse mode left) fun _ _ _ =>
        bind_spanFrom fun _ => .pure

-- ============================================================== headers

omit hsound hstuck in
theorem otherwise_unswayed : Unswayed f s t (otherwise parse) := by
  refine bind_kind_alike hf rfl (.of_fails fun _ _ _ => unexpected_ne_ok) fun hs => ?_
  split
  · exact hparse .ifStmt rfl _ _
  · exact .bind (hparse .block rfl _ _) fun _ _ _ => .building
  · exact .of_fails fun _ _ _ => unexpected_ne_ok

omit hsound in
include hnear in
theorem ifStmt_unswayed : Unswayed f s t (ifStmt parse) := by
  have finish (start : Location) (init : Option Stmt) (cond : Expr) (body : Block)
      (other : Option Stmt) (s t : Parsing) : Unswayed f s t (spanFrom start >>= fun sp =>
        newStmt (.ifStmt init cond body other) sp) :=
    bind_spanFrom fun _ => .building
  refine .bind (.expect rfl) fun kw s t => ?_
  refine inside (hnear (.asHeader inferInstance)) (fun _ => .bind (hstuck .block rfl)) ?_
  rintro ⟨init, cond⟩ s t
  refine .bind (hparse .block rfl _ _) fun body s t => ?_
  refine bind_eat (.of_isEnd hf rfl) (fun _ _ _ => ?_) (finish _ init cond body none _ _)
  exact .bind (.map (otherwise_unswayed hf hparse)) (finish _ init cond body)

omit hsound hf in
include hnear in
theorem forStmt_unswayed : Unswayed f s t (forStmt parse) := by
  refine .bind (.expect rfl) fun _ s t => ?_
  refine inside (hnear (.asHeader inferInstance)) (fun _ => .bind (hstuck .block rfl)) ?_
  exact fun header s t => .bind (hparse .block rfl _ _) fun _ _ _ => .pure

-- =========================================================== statements

omit hsound hf hstuck in
theorem calledBy_unswayed (keyword : String) : Unswayed f s t (calledBy parse keyword) := by
  refine .bind (hparse .expression rfl _ _) fun x s t => ?_
  split
  · exact .pure
  · exact .of_fails fun _ _ _ => unexpectedAt_ne_ok

omit hparse hsound hstuck in
theorem optionalLabel_unswayed : Unswayed f s t optionalLabel :=
  ifAt (.of_isEnd hf rfl) (fun _ => .map .ident) .pure

omit hparse hsound hstuck hf in
theorem finishStmt_unswayed (start : Location) (form : StmtForm) :
    Unswayed f s t (finishStmt start form) :=
  bind_spanFrom fun _ => .building

omit hsound hstuck hf in
theorem declStmt_unswayed (start : Location) (k : GroupKind) :
    Unswayed f s t (declStmt parse start k) :=
  .bind (hparse (.group k) rfl _ _) fun _ _ _ => .bind .recording fun _ _ _ =>
    finishStmt_unswayed start _

omit hstuck in
/-- Where a token is left, results are read alike. -/
theorem results_beside {u : Token} {us : List Token} {xs : List Expr} {s' : Parsing}
    (h : s.Beside f (u :: us) t) (hxs : results parse s = .ok xs s') :
    ∃ vs t', results parse t = .ok xs t' ∧ s'.Beside f vs t' := by
  refine kind_beside h ?_ hxs
  split
  · exact .pure
  · exact .pure
  · exact .bind (exprList_unswayed hf hsound hparse) fun _ _ _ => .bind .recording fun _ _ _ =>
      .pure

/-- Behind `return` the end of the input is not taken for the end of the
statement. -/
theorem returnStmt_unswayed (hreturns : f.Returns) (hs : s.current.kind = .kwReturn)
    {g : List Expr → Parser β} (hg : ∀ xs s t, Unswayed f s t (g xs)) :
    Unswayed f s t (advance >>= fun _ => results parse >>= g) := by
  intro ts hst y s' hy
  obtain ⟨u, us, rfl⟩ := List.exists_cons_of_ne_nil (hst.ne_nil (Fork.not_ends (by rw [hs]; rfl)))
  have hnext := hst.next
  show ∃ us t', (results parse >>= g) t.next = .ok y t' ∧ s'.Beside f us t'
  change (results parse >>= g) s.next = .ok y s' at hy
  obtain ⟨xs, s₁, hxs, hy⟩ := bind_eq_ok.mp hy
  cases us with
  | cons v vs =>
    obtain ⟨ws, t₁, ht₁, h₁⟩ := results_beside hf hsound hparse hnext hxs
    obtain ⟨ws, t', ht', h'⟩ := hg xs s₁ t₁ ws h₁ y s' hy
    exact ⟨ws, t', bind_eq_ok.mpr ⟨xs, t₁, ht₁, ht'⟩, h'⟩
  | nil =>
    exfalso
    rcases hreturns with heof | hlast
    · have hkind : s.next.current.kind = .eof := heof _ hnext.ends
      obtain ⟨k, s₂, hk, hxs⟩ := bind_eq_ok.mp hxs
      cases hk
      rw [hkind] at hxs
      obtain ⟨xs, s₂, hxs, -⟩ := bind_eq_ok.mp hxs
      exact Stuck.bind (hstuck .expression rfl) s.next hnext.ends xs s₂ hxs
    · obtain ⟨e, ⟨rfl, -⟩, -⟩ := hst.first
      exact hlast (hs ▸ hst.last s.current rfl)

theorem statement_unswayed (hreturns : f.Returns)
    (hsimple : ∀ s t, Unswayed f s t (parse (.simpleStmt .statement))) :
    Unswayed f s t (statement parse) := by
  have empty (s t : Parsing) : Unswayed f s t
      (previousEnd >>= fun l => newStmt .empty (.point l)) :=
    bind_look (fun _ h => h.previousEnd) fun _ => .building
  refine alike hf (empty _ _) (fun u hu => ?_) fun hs => ?_
  · obtain ⟨⟨k, _, _⟩, _⟩ := u
    rcases Token.Kind.isEnd_cases hu with hk | hk
    · cases hk
      rfl
    · cases hk
      rfl
  have hs' : ¬ f.ends s.cursor := Fork.not_ends hs
  refine bind_here hs' (bind_kind hs' ?_)
  split
  iterate 3 exact declStmt_unswayed hparse _ _
  · exact .bind (hparse .block rfl _ _) fun _ _ _ => finishStmt_unswayed _ _
  · exact hparse .ifStmt rfl _ _
  · exact .bind (hparse .forStmt rfl _ _) fun _ _ _ => finishStmt_unswayed _ _
  iterate 2 exact bind_advance hs' (.bind (calledBy_unswayed hparse _) fun _ _ _ =>
    finishStmt_unswayed _ _)
  · next hk => exact returnStmt_unswayed hf hsound hparse hstuck hreturns hk fun _ _ _ =>
      finishStmt_unswayed _ _
  iterate 2 exact bind_advance hs' (.bind (optionalLabel_unswayed hf) fun _ _ _ =>
    finishStmt_unswayed _ _)
  · exact bind_advance hs' (.bind .ident fun _ _ _ => finishStmt_unswayed _ _)
  · exact bind_advance hs' (finishStmt_unswayed _ _)
  iterate 3 exact empty _ _
  iterate 2 exact bind_current hs' (.of_fails fun _ _ _ => throw_ne_ok)
  · refine .bind (hsimple _ _) fun draft s t => ?_
    exact (building : Unswayed f s t (newStmt draft.form draft.span))

end

end Grammar

end GoSource
