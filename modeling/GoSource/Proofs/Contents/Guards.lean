/-
Where `x.(type)` stands.

Only the mode of one entry allows `x.(type)`, and it is handed on to
nothing that stands in brackets. The tree of any other entry therefore
holds none (`Laid.no_guard`). The tree of this entry ends with one, which
is attached to what was read without another (`Lone`).
-/
import GoSource.Proofs.Contents.Site

namespace GoSource

def Visit.isGuard : Visit → Bool
  | .expr x => Grammar.isGuard x
  | _ => false

/-- Where no guard is allowed, none is reached. -/
theorem Laid.no_guard {m : Mode} {e : Edge} {ts : List Token} {vs : List Visit}
    (h : Laid m e ts vs) (hm : m.guard = false) : ∀ v ∈ Visit.reached vs, v.isGuard = false := by
  intro v hv
  cases v with
  | expr x =>
    obtain ⟨m', e', pre, us, post, -, hsite⟩ := h.site hv
    refine Bool.eq_false_iff.mpr fun hguard => ?_
    have hm' : m'.guard = true := by
      cases hsite.stop.readFrom with
      | expr hx => exact hx.guarded hguard
      | elided => exact nomatch hguard
    exact absurd (hsite.guard hm') (by simp [hm])
  | _ => rfl

theorem Laid.guards {m : Mode} {e : Edge} {ts : List Token} {vs : List Visit}
    (h : Laid m e ts vs) (hm : m.guard = false) : (Visit.reached vs).filter Visit.isGuard = [] :=
  List.filter_eq_nil_iff.mpr fun v hv => by simp [h.no_guard hm v hv]

/-- In a guard that is attached to what was read without one there is no
other. -/
theorem Lone.guards {m : Mode} {x : Expr} (h : Lone m x) (hx : Grammar.isGuard x = true) :
    (Visit.reached [.expr x]).filter Visit.isGuard = [.expr x] := by
  obtain ⟨i, sp, form⟩ := x
  unfold Grammar.isGuard at hx
  split at hx
  · next y r hform =>
    obtain ⟨ys, hy⟩ := h y r hform
    cases hform
    have hrest : (Visit.reached [.expr y]).filter Visit.isGuard = [] := (hy.lies rfl).1.guards rfl
    have hreached : Visit.reached [.expr ⟨i, sp, .typeAssert y none r⟩] =
        .expr ⟨i, sp, .typeAssert y none r⟩ :: Visit.reached [.expr y] := by
      rw [Visit.reached, List.flatMap_singleton, Visit.below_eq]
      rfl
    rw [hreached, List.filter_cons_of_pos rfl, hrest]
  · exact absurd hx Bool.false_ne_true

-- ================================================================ roots

/-- The guards in a tree. -/
def Root.guards (root : Root) : List Visit := root.reached.filter Visit.isGuard

/-- A tree consists of a guard, or of the definition of one name by it. -/
inductive Root.IsGuard : Root → Expr → Prop where
  | alone : IsGuard (.stmt ⟨i, sp, .expr x⟩) x
  | defines : IsGuard (.stmt ⟨i, sp, .shortVar [n] op [x]⟩) x

/-- A statement that is a guard holds no other. -/
theorem guards_of_isGuardStmt {stmt : Stmt} (h : Grammar.isGuardStmt stmt.form = true)
    (hlast : ∀ x ∈ stmt.form.last, Lone ⟨false, true⟩ x) :
    ∃ x, (Root.stmt stmt).guards = [.expr x] ∧ (Root.stmt stmt).IsGuard x := by
  obtain ⟨i, sp, form⟩ := stmt
  have hreached : ∀ x, Visit.children (.stmt ⟨i, sp, form⟩) = [.expr x] →
      (Root.stmt ⟨i, sp, form⟩).reached = .stmt ⟨i, sp, form⟩ :: Visit.reached [.expr x] := by
    intro x hx
    rw [Root.reached_eq, Root.visits, Visit.reached, List.flatMap_singleton, Visit.below_eq, hx]
    rfl
  unfold Grammar.isGuardStmt at h
  split at h
  · next x hform =>
    cases hform
    refine ⟨x, ?_, .alone⟩
    rw [Root.guards, hreached x rfl, List.filter_cons_of_neg Bool.false_ne_true]
    exact (hlast x rfl).guards h
  · next n op x hform =>
    cases hform
    refine ⟨x, ?_, .defines⟩
    rw [Root.guards, hreached x rfl, List.filter_cons_of_neg Bool.false_ne_true]
    exact (hlast x rfl).guards h
  · exact absurd h Bool.false_ne_true

/-- A guard stands in no tree but that of its own entry, and there it is
the only one: it is the statement, or the value of the only name. -/
theorem parseStream_guards {stream : Token.Stream} {entry : Entry} {maxDepth : Nat}
    {arena : Arena} {root : Root} (h : (parseStream stream entry maxDepth arena).1 = .ok root) :
    (entry ≠ .typeSwitchGuard → root.guards = []) ∧
      (entry = .typeSwitchGuard → ∃ x, root.guards = [.expr x] ∧ root.IsGuard x) := by
  unfold parseStream at h
  split at h
  · next root' s hs =>
    obtain rfl : root' = root := by injection h
    refine ⟨fun hentry => ?_, fun hentry => ?_⟩
    · obtain ⟨ts, s₁, -, -, hread⟩ := entry_reads entry ready_start hs
      rw [Root.guards, Root.reached_eq]
      refine hread.laid.guards ?_
      cases entry with
      | typeSwitchGuard => exact absurd rfl hentry
      | _ => rfl
    · subst hentry
      obtain ⟨stmt, hrun, rfl⟩ := Parser.map_eq_ok.mp hs
      obtain ⟨ts, s₁, -, -, hread, hlast⟩ := guard_reads ready_start hrun
      cases hread with
      | typeSwitchGuard _ hguard => exact guards_of_isGuardStmt hguard hlast
  · exact nomatch h

/-- A name defined by a guard, and an assertion outside of guards. -/
theorem parseStream_guards_defined :
    (∃ root, (parseStream (.ofSource "v := f(x).(type)") .typeSwitchGuard 20 .empty).1 = .ok root ∧
      ∃ x, root.guards = [.expr x] ∧ root.IsGuard x) ∧
    ∃ root, (parseStream (.ofSource "x.(T).y") .expression 20 .empty).1 = .ok root ∧
      root.guards = [] := by
  have hok : (parseStream (.ofSource "v := f(x).(type)") .typeSwitchGuard 20
      .empty).1.toOption.isSome = true := by
    decide +kernel
  have hok' : (parseStream (.ofSource "x.(T).y") .expression 20
      .empty).1.toOption.isSome = true := by
    decide +kernel
  constructor
  · cases h : (parseStream (.ofSource "v := f(x).(type)") .typeSwitchGuard 20 .empty).1 with
    | error e =>
      rw [h] at hok
      exact nomatch hok
    | ok root => exact ⟨root, rfl, (parseStream_guards h).2 rfl⟩
  · cases h : (parseStream (.ofSource "x.(T).y") .expression 20 .empty).1 with
    | error e =>
      rw [h] at hok'
      exact nomatch hok'
    | ok root => exact ⟨root, rfl, (parseStream_guards h).1 nofun⟩

end GoSource
