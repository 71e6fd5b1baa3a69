/-
Statements and headers in two runs.

Here are the places where an error is about something read before: names
that turn out to be expressions, and statements that are not what a header
wants. What was read is known to have ended where the parse has come to,
and that is all there is to know.
-/
import GoSource.Proofs.Running.TypeExpr

namespace GoSource

open GoSource.Parser

variable {T : Pairing} {r : Nat} {s : Parsing} {sm : SimpleMode} {m : Mode} {left : List Expr}

theorem AssignOp.hasUse_of_ofKind {k : Token.Kind} {op : AssignOp} (h : ofKind k = some op) :
    k.hasUse = true := by
  cases k <;> first | rfl | exact nomatch h

namespace Grammar

open Pairing.Abreast

-- ==================================================== what ends where

theorem simpleStmt_stops {parse : SubParser} (hp : parse.Sound) :
    (parse (.simpleStmt sm)).Reads m s fun _ d s' => s.cursor.Stopped s'.cursor d.span := by
  refine .passing (hp.simpleStmt.imp fun ts d s' ⟨hd, _⟩ hpass => ?_)
  have hne : ts ≠ [] := hd.ne_nil rfl
  refine ⟨ts, hpass.takes, ts.getLast hne, List.getLast_mem hne, ?_⟩
  rw [hd.simple_span, extent, List.getLast?_eq_some_getLast hne]
  rfl

theorem expression_stops {parse : SubParser} (hp : parse.Sound) :
    (parse .expression).Reads m s fun _ x s' => s.cursor.Stopped s'.cursor x.span := by
  refine .passing (hp.anyExpression.imp fun ts x s' hx hpass => ?_)
  have hpart : Part.expr x ∈ (Phrase.expr m).parts x := List.mem_singleton_self _
  exact hx.stopped hpart hpass.takes

-- =============================================================== blocks

theorem atListEnd_abreast : T.Abreast r s atListEnd atListEnd := by
  refine bind_kind ?_
  split
  · exact pure
  · exact pure
  · exact pure

theorem stmtList_abreast (hr : 7 < r) : T.Abreast r s (stmtList T.first) (stmtList T.second) := by
  refine bind (repeating fun stmts s' => ?_) fun _ _ => bind_recording fun _ => pure
  refine bind atListEnd_abreast fun _ _ => ite (fun _ => pure) fun _ => ?_
  refine bind_eat rfl (fun _ => pure) fun _ => bind (production hr fun _ => trivial) fun _ _ => ?_
  refine bind atListEnd_abreast fun _ _ => ite (fun _ => pure) fun _ => ?_
  exact bind_expect rfl fun _ => pure

theorem block_abreast : T.Abreast r s (block T.first) (block T.second) := by
  refine unrestricted (bind_expect rfl fun _ => bind (stmtList_abreast (by decide)) fun _ _ => ?_)
  exact bind_expect rfl fun _ => pure

-- ==================================================== simple statements

theorem single_abreast : T.Abreast r s (single left) (single left) := by
  unfold single
  split
  · exact pure
  · exact unexpected

theorem definedNames_abreast (hleft : ∀ x ∈ left, T.origin.Stopped s.cursor x.span) :
    T.Abreast r s (definedNames left) (definedNames left) := by
  unfold definedNames
  induction left with
  | nil => exact pure
  | cons x left ih =>
    rw [List.mapM_cons]
    have hrest := ih fun y hy => hleft y (List.mem_cons_of_mem x hy)
    split
    · exact look rfl (bind hrest fun _ _ => pure)
    · exact bind_unexpectedAt (by decide) (hleft x List.mem_cons_self)

theorem rangeClause_abreast : T.Abreast r s (rangeClause T.first sm) (rangeClause T.second sm) := by
  refine ite (fun _ => bind_eat rfl (fun _ => ?_) fun _ => pure) fun _ => pure
  exact map (further fun _ => trivial)

theorem definition_abreast (hleft : ∀ x ∈ left, T.origin.Stopped s.cursor x.span)
    (hk : s.current.kind = .define) :
    T.Abreast r s (definition T.first sm left) (definition T.second sm left) := by
  refine bind_reads (P := fun _ _ s' => s' = s) (definedNames_abreast hleft)
    (fun m => definedNames_reads fun _ _ => rfl) ?_
  rintro _ names _ rfl
  refine bind_advance (by rw [hk]; rfl) (bind rangeClause_abreast fun clause s' => ?_)
  cases clause with
  | some x => exact bind_recording fun _ => pure
  | none =>
    refine bind (exprList_abreast (by decide)) fun _ _ => ?_
    exact bind_recording fun _ => bind_recording fun _ => pure

theorem assignment_abreast {op : AssignOp} (hk : s.current.kind.hasUse = true) :
    T.Abreast r s (assignment T.first sm left op) (assignment T.second sm left op) := by
  refine bind_advance hk (joinIte (fun _ => rangeClause_abreast) (fun _ => pure) ?_)
  intro clause s'
  cases clause with
  | some x => exact bind_recording fun _ => pure
  | none =>
    refine bind (exprList_abreast (by decide)) fun _ _ => ?_
    exact bind_recording fun _ => bind_recording fun _ => pure

theorem afterExprs_abreast (hleft : ∀ x ∈ left, T.origin.Stopped s.cursor x.span) :
    T.Abreast r s (afterExprs T.first sm left) (afterExprs T.second sm left) := by
  refine bind_kind ?_
  split
  · next hk =>
    refine bind_reads (P := fun _ _ s' => s' = s) single_abreast
      (fun m => single_reads fun _ _ => rfl) ?_
    rintro _ x _ rfl
    refine bind_advance (by rw [hk]; rfl) ?_
    exact bind (further fun _ => trivial) fun _ _ => pure
  iterate 2
    next hk =>
      refine bind_reads (P := fun _ _ s' => s' = s) single_abreast
        (fun m => single_reads fun _ _ => rfl) ?_
      rintro _ x _ rfl
      exact bind_advance (by rw [hk]; rfl) pure
  · next hk => exact definition_abreast hleft hk
  · split
    · next op hop => exact assignment_abreast (AssignOp.hasUse_of_ofKind hop)
    · exact map single_abreast

theorem labelBefore_abreast : T.Abreast r s (labelBefore sm left) (labelBefore sm left) := by
  refine bind_isAt (fun _ => ?_) fun _ => ?_
  · exact ite (fun _ => pure) fun _ => pure
  · exact ite (fun _ => pure) fun _ => pure

theorem simpleStmt_abreast (hr : 5 < r) :
    T.Abreast r s (simpleStmt T.first sm) (simpleStmt T.second sm) := by
  refine bind_here (bind rangeClause_abreast fun clause s₀ => ?_)
  cases clause with
  | some x => exact look rfl pure
  | none =>
    refine fits fun hs => bind_reads (exprList_abreast hr) (fun m => exprList_stops T.sound) ?_
    intro _ left s₁ hleft
    have hleft : ∀ x ∈ left, T.origin.Stopped s₁.cursor x.span :=
      fun x hx => hs.stopped (hleft x hx)
    refine bind_reads (P := fun _ label s' => s' = s₁ ∧ ∀ l ∈ label, s₁.current.kind = .colon)
      labelBefore_abreast (fun m => labelBefore_reads ?_ ⟨rfl, nofun⟩) ?_
    · exact fun label _ hc _ => ⟨rfl, fun _ _ => hc⟩
    rintro _ (_ | label) _ ⟨rfl, hlabel⟩
    · exact bind (afterExprs_abreast hleft) fun _ _ => look rfl pure
    · have hc := hlabel label rfl
      refine bind_advance (by rw [hc]; rfl) ?_
      exact bind (further fun _ => trivial) fun _ _ => look rfl pure

-- ============================================================== headers

theorem keep_abreast {draft : Draft} : T.Abreast r s (keep draft) (keep draft) := by
  unfold keep
  exact building

theorem condition_abreast {draft : Draft} (h : T.origin.Stopped s.cursor draft.span) :
    T.Abreast r s (condition draft) (condition draft) := by
  unfold condition
  split
  · exact pure
  · exact unexpectedAt (by decide) h

/-- A draft that is read here has ended here. -/
theorem bind_simpleStmt {β : Type} {f g : Draft → Parser β}
    (h : ∀ d s', T.origin.Stopped s'.cursor d.span → T.Abreast 8 s' (f d) (g d)) :
    T.Abreast 8 s (T.first (.simpleStmt sm) >>= f) (T.second (.simpleStmt sm) >>= g) := by
  refine fits fun hs => bind_reads (further fun _ => trivial)
    (fun m => simpleStmt_stops T.sound) fun _ d s' hd => ?_
  exact h d s' (hs.stopped hd)

theorem ifHeader_abreast : T.Abreast 8 s (ifHeader T.first) (ifHeader T.second) := by
  refine bind_simpleStmt fun first s' hfirst => bind_eat rfl (fun _ => ?_) fun _ => ?_
  · refine bind keep_abreast fun _ _ => bind_simpleStmt fun second s'' hsecond => ?_
    exact bind (condition_abreast hsecond) fun _ _ => pure
  · exact bind (condition_abreast hfirst) fun _ _ => pure

theorem otherwise_abreast : T.Abreast 8 s (otherwise T.first) (otherwise T.second) := by
  refine bind_kind ?_
  split
  · exact further fun _ => trivial
  · exact bind (further fun _ => trivial) fun _ _ => building
  · exact unexpected

theorem ifStmt_abreast : T.Abreast r s (ifStmt T.first) (ifStmt T.second) := by
  refine bind_expect rfl fun _ => bind (asHeader ifHeader_abreast) fun header s₁ => ?_
  refine bind (further fun _ => trivial) fun body s₂ => ?_
  refine joinEat rfl (fun _ => map otherwise_abreast) (fun _ => pure) fun other s₃ => ?_
  exact look rfl building

theorem postStmt_abreast : T.Abreast 8 s (postStmt T.first) (postStmt T.second) := by
  refine ifAt (fun _ => pure) fun _ => bind_simpleStmt fun draft s' hdraft => ?_
  split
  · exact unexpectedAt (by decide) hdraft
  · exact map keep_abreast

theorem forClause_abreast {init : Option Stmt} :
    T.Abreast 8 s (forClause T.first init) (forClause T.second init) := by
  refine bind_expect rfl fun _ => ?_
  refine joinAt (fun _ => pure) (fun _ => map (further fun _ => trivial)) fun cond s' => ?_
  exact bind_expect rfl fun _ => bind postStmt_abreast fun _ _ => pure

theorem forHeader_abreast : T.Abreast 8 s (forHeader T.first) (forHeader T.second) := by
  refine bind_kind ?_
  split
  · exact pure
  · exact forClause_abreast
  · refine bind_simpleStmt fun draft s' hdraft => ?_
    split
    · exact map keep_abreast
    · refine ifAt (fun _ => map (condition_abreast hdraft)) fun _ => ?_
      exact bind keep_abreast fun _ _ => forClause_abreast

theorem forStmt_abreast : T.Abreast r s (forStmt T.first) (forStmt T.second) := by
  refine bind_expect rfl fun _ => bind (asHeader forHeader_abreast) fun _ _ => ?_
  exact bind (further fun _ => trivial) fun _ _ => pure

-- =========================================================== statements

theorem calledBy_abreast {keyword : String} (hk : keyword = "go" ∨ keyword = "defer") :
    T.Abreast 8 s (calledBy T.first keyword) (calledBy T.second keyword) := by
  refine fits fun hs => bind_reads (further fun _ => trivial)
    (fun m => expression_stops T.sound) fun _ x s' hx => ?_
  split
  · exact pure
  · refine unexpectedAt ?_ (hs.stopped hx)
    rcases hk with rfl | rfl <;> decide

theorem results_abreast : T.Abreast 8 s (results T.first) (results T.second) := by
  refine bind_kind ?_
  split
  · exact pure
  · exact pure
  · exact bind (exprList_abreast (by decide)) fun _ _ => bind_recording fun _ => pure

theorem optionalLabel_abreast : T.Abreast r s optionalLabel optionalLabel :=
  ifAt (fun _ => map ident) fun _ => pure

theorem finishStmt_abreast {start : Location} {form : StmtForm} :
    T.Abreast r s (finishStmt start form) (finishStmt start form) :=
  look rfl building

theorem declStmt_abreast {start : Location} {group : GroupKind}
    (hk : s.current.kind = group.keyword) (hr : 0 < r) :
    T.Abreast r s (declStmt T.first start group) (declStmt T.second start group) :=
  bind (production hr fun _ => hk) fun _ _ => bind_recording fun _ => finishStmt_abreast

theorem statement_abreast (hr : 6 < r) :
    T.Abreast r s (statement T.first) (statement T.second) := by
  have hr₀ : 0 < r := Nat.zero_lt_of_lt hr
  refine bind_here (bind_kind ?_)
  split
  iterate 3 next hk => exact declStmt_abreast hk hr₀
  · exact bind (production hr₀ fun _ => trivial) fun _ _ => finishStmt_abreast
  · exact production hr₀ fun _ => trivial
  · exact bind (production hr₀ fun _ => trivial) fun _ _ => finishStmt_abreast
  · next hk =>
    refine bind_advance (by rw [hk]; rfl) ?_
    exact bind (calledBy_abreast (.inl rfl)) fun _ _ => finishStmt_abreast
  · next hk =>
    refine bind_advance (by rw [hk]; rfl) ?_
    exact bind (calledBy_abreast (.inr rfl)) fun _ _ => finishStmt_abreast
  · next hk =>
    exact bind_advance (by rw [hk]; rfl) (bind results_abreast fun _ _ => finishStmt_abreast)
  iterate 2
    next hk =>
      exact bind_advance (by rw [hk]; rfl)
        (bind optionalLabel_abreast fun _ _ => finishStmt_abreast)
  · next hk => exact bind_advance (by rw [hk]; rfl) (bind ident fun _ _ => finishStmt_abreast)
  · next hk => exact bind_advance (by rw [hk]; rfl) finishStmt_abreast
  iterate 3 exact look rfl building
  · next hk => exact look rfl (throw (.switchStatement hk))
  · next hk => exact look rfl (throw (.selectStatement hk))
  · exact bind (production hr fun _ => trivial) fun _ _ => keep_abreast

end Grammar

end GoSource
