/-
Reading a tree by its references.

A reader of an arena has nothing but numbers: it looks a node up, and then
those that the node refers to. In a closed arena it always finds what it
looks for, namely the very node that stands in the tree, so each step leads
to a node with fewer nodes below it. Hence whatever is computed on the way
comes to an end and is what would be computed from the tree
(`Closed.traverse_eq`).
-/
import GoSource.Proofs.Arena.Held

namespace GoSource

theorem Visit.mem_children {v c : Visit} : c ∈ v.children ↔ .node c ∈ v.parts := by
  rw [children, List.mem_filterMap]
  constructor
  · rintro ⟨p, hp, hc⟩
    cases p with
    | node w =>
      obtain rfl : w = c := Option.some.inj hc
      exact hp
    | _ => exact nomatch hc
  · exact fun h => ⟨_, h, rfl⟩

theorem Visit.refs_children (v : Visit) :
    v.refs = v.ref?.toList ++ v.children.flatMap Visit.refs := v.refs_eq

namespace Arena

variable {a : Arena} {v w c : Visit} {r : Ref}

/-- What is looked up has the number under which it was found. -/
theorem Closed.ref_eq (ha : a.Closed) (h : a.lookup r = some v) : v.ref? = some r :=
  ha.numbered r.kind r.number v h

theorem Closed.holds_of_lookup (ha : a.Closed) (h : a.lookup r = some v) : a.Holds v :=
  ⟨r, ha.ref_eq h, h⟩

/-- A child of a node that can be found can be found. -/
theorem Closed.child (ha : a.Closed) (hv : a.Holds v) (hc : c ∈ v.children) : a.Holds c :=
  (ha.keepsAll_of_holds hv).1 _ (Visit.mem_children.mp hc)

theorem Closed.below (ha : a.Closed) (hv : a.Holds v) (hw : w ∈ v.below) : a.Holds w := by
  induction v using Visit.from_children with
  | step v ih =>
    rw [Visit.below_eq, List.mem_cons, List.mem_flatMap] at hw
    obtain rfl | ⟨c, hc, hw⟩ := hw
    · exact hv
    · exact ih c hc (ha.child hv hc) hw

end Arena

-- =========================================================== traversals

namespace Visit

variable {β : Type}

/-- Computes something from a node and from what was computed for its
children. -/
def fold (f : Visit → List β → β) (v : Visit) : β :=
  f v (v.children.attach.map fun c => c.1.fold f)
termination_by v.below.length
decreasing_by exact length_below_lt c.2

theorem fold_eq (f : Visit → List β → β) (v : Visit) :
    v.fold f = f v (v.children.map (fold f)) := by
  rw [fold, List.attach_map_val]

/-- A walk, as a function of the depth at which it begins. -/
def stops (v : Visit) (walks : List (Nat → List Step)) (depth : Nat) : List Step :=
  ⟨depth, v⟩ :: walks.flatMap (· (depth + 1))

theorem fold_stops (v : Visit) : v.fold stops = fun depth => v.walk depth := by
  induction v using from_children with
  | step v ih =>
    funext depth
    rw [fold_eq, stops, walk_eq, List.flatMap_map]
    exact congrArg _ (List.flatMap_congr fun c hc => congrFun (ih c hc) (depth + 1))

end Visit

section

variable {α β : Type} {k k' : α → Option β}

theorem mapM_eq_some {g : α → β} {xs : List α} (h : ∀ x ∈ xs, k x = some (g x)) :
    xs.mapM k = some (xs.map g) := by
  induction xs with
  | nil => rfl
  | cons x xs ih =>
    obtain ⟨hx, hxs⟩ := List.forall_mem_cons.mp h
    rw [List.mapM_cons, hx, ih hxs]
    rfl

theorem mapM_mono (h : ∀ x y, k x = some y → k' x = some y) {xs : List α} {ys : List β}
    (hys : xs.mapM k = some ys) : xs.mapM k' = some ys := by
  induction xs generalizing ys with
  | nil => exact hys
  | cons x xs ih =>
    rw [List.mapM_cons] at hys ⊢
    obtain ⟨y, hy, hys⟩ := Option.bind_eq_some_iff.mp hys
    obtain ⟨zs, hzs, hys⟩ := Option.bind_eq_some_iff.mp hys
    exact Option.bind_eq_some_iff.mpr
      ⟨y, h x y hy, Option.bind_eq_some_iff.mpr ⟨zs, ih hzs, hys⟩⟩

end

namespace Arena

variable {β : Type} {a b : Arena} {f : Visit → List β → β} {v : Visit} {r : Ref} {fuel : Nat}

/-- The same from a reference, by looking up the children one after the
other. There is no result if one is not found, or if the tree is deeper
than the fuel. -/
def traverse (a : Arena) (f : Visit → List β → β) : (fuel : Nat) → Ref → Option β
  | 0, _ => none
  | fuel + 1, r => do
    let v ← a.lookup r
    let results ← v.children.mapM fun c : Visit => c.ref?.bind (a.traverse f fuel)
    pure (f v results)

/-- From its reference one computes the same as from the tree. -/
theorem Closed.traverse_eq (ha : a.Closed) (hr : a.lookup r = some v)
    (hfuel : v.below.length ≤ fuel) : a.traverse f fuel r = some (v.fold f) := by
  induction fuel generalizing r v with
  | zero =>
    rw [Visit.below_eq] at hfuel
    exact absurd hfuel (Nat.not_succ_le_zero _)
  | succ fuel ih =>
    have hchild : ∀ c ∈ v.children, c.ref?.bind (a.traverse f fuel) = some (c.fold f) := by
      intro c hc
      obtain ⟨q, hq, hlookup⟩ := ha.child (ha.holds_of_lookup hr) hc
      have hlt := Visit.length_below_lt hc
      rw [hq]
      exact ih hlookup (by omega)
    rw [Visit.fold_eq]
    refine Option.bind_eq_some_iff.mpr ⟨v, hr, ?_⟩
    exact Option.bind_eq_some_iff.mpr ⟨_, mapM_eq_some hchild, rfl⟩

/-- What was computed from an arena is computed from one that it grows to. -/
theorem GrowsTo.traverse (h : a.GrowsTo b) {x : β} (hx : a.traverse f fuel r = some x) :
    b.traverse f fuel r = some x := by
  induction fuel generalizing r x with
  | zero => exact nomatch hx
  | succ fuel ih =>
    obtain ⟨v, hv, hx⟩ := Option.bind_eq_some_iff.mp hx
    obtain ⟨xs, hxs, hx⟩ := Option.bind_eq_some_iff.mp hx
    refine Option.bind_eq_some_iff.mpr ⟨v, h.lookup hv, ?_⟩
    refine Option.bind_eq_some_iff.mpr ⟨xs, mapM_mono (fun c y hy => ?_) hxs, hx⟩
    obtain ⟨q, hq, hy⟩ := Option.bind_eq_some_iff.mp hy
    exact Option.bind_eq_some_iff.mpr ⟨q, hq, ih hy⟩

end Arena

end GoSource
