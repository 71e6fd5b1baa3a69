/-
What has been built since.

While a tree is built, its pieces lie in the arena and nowhere else: the
nodes that are finished, the names and the lists that belong to the node
that is next. `Held a₀ a ps ls` says that the parts `ps` and the lists `ls`
have been recorded on the way from the arena `a₀` to the arena `a`, and
that no node occurs twice in them. What is held on two stretches one after
the other is held on both together (`Held.append`): the nodes of the
second stretch are new, so they are none of the first. A node that is made
of what is held takes its place (`Held.node`).

# Sharing

Two nodes of an arena may well refer to the same node: an operand that
turned out to be a type leaves an expression behind whose type is used
again. Only what is held is free of sharing. So it is not the arena of
which this is shown, but the result of each production.
-/
import GoSource.Proofs.Arena.Entry
import Mathlib.Data.List.Flatten

namespace GoSource

-- =========================================================== references

/-- The references of a node and of all nodes below it. -/
def Visit.refs (v : Visit) : List Ref := v.below.filterMap ref?

namespace Part

/-- The references of all nodes of some parts. -/
def refs (ps : List Part) : List Ref := (ps.filterMap node?).flatMap Visit.refs

/-- Parts without marks. -/
def solid (ps : List Part) : List Part :=
  ps.filter fun
    | mark _ => false
    | _ => true

variable {ps qs : List Part}

@[simp] theorem solid_nil : solid [] = [] := rfl

@[simp] theorem solid_node (v : Visit) : solid (.node v :: ps) = .node v :: solid ps := rfl

@[simp] theorem solid_name (n : Ident) : solid (.name n :: ps) = .name n :: solid ps := rfl

@[simp] theorem solid_path (text : String) (sp : Span) :
    solid (.path text sp :: ps) = .path text sp :: solid ps := rfl

@[simp] theorem solid_mark (sp : Span) : solid (.mark sp :: ps) = solid ps := rfl

@[simp] theorem solid_append : solid (ps ++ qs) = solid ps ++ solid qs := List.filter_append ..

@[simp] theorem solid_marks (sps : List Span) : solid (sps.map .mark) = [] := by
  induction sps with
  | nil => rfl
  | cons sp sps ih => simpa using ih

theorem refs_append : refs (ps ++ qs) = refs ps ++ refs qs := by
  simp [refs]

theorem refs_node (v : Visit) : refs (.node v :: ps) = v.refs ++ refs ps := rfl

@[simp] theorem refs_names (ns : List Ident) : refs (ns.map .name) = [] := by
  induction ns with
  | nil => rfl
  | cons n ns ih => exact ih

theorem refs_solid (ps : List Part) : refs (solid ps) = refs ps := by
  induction ps with
  | nil => rfl
  | cons p ps ih => cases p <;> simp [refs, node?] at ih ⊢ <;> exact ih

/-- A part that is no mark. -/
theorem mem_solid {p : Part} : p ∈ solid ps ↔ p ∈ ps ∧ ∀ sp, p ≠ .mark sp := by
  cases p <;> simp [solid]

end Part

/-- A node comes before what stands in it. -/
theorem Visit.refs_eq (v : Visit) : v.refs = v.ref?.toList ++ Part.refs v.parts := by
  rw [refs, below_eq, List.filterMap_cons, List.filterMap_flatMap, Part.refs]
  cases v.ref? <;> rfl

namespace Arena

variable {a b : Arena}

/-- There is a node with this reference. -/
def Has (a : Arena) (r : Ref) : Prop := r.number < a.count r.kind

theorem has_of_lookup {r : Ref} {v : Visit} (h : a.lookup r = some v) : a.Has r :=
  (List.getElem?_eq_some_iff.mp h).1

theorem GrowsTo.has (h : a.GrowsTo b) {r : Ref} (hr : a.Has r) : b.Has r :=
  Nat.lt_of_lt_of_le hr (h.count r.kind)

end Arena

-- ================================================================= held

/-- Recorded on the way from `a₀` to `a`, without sharing. -/
structure Held (a₀ a : Arena) (ps : List Part) (ls : List Listing) : Prop where
  grows : a₀.GrowsTo a
  keeps : a.KeepsAll ps ls
  nodup : (Part.refs ps).Nodup
  fresh : ∀ r ∈ Part.refs ps, ¬ a₀.Has r
  has : ∀ r ∈ Part.refs ps, a.Has r

namespace Held

variable {a₀ a b : Arena} {ps qs : List Part} {ls ms : List Listing}

theorem nil (h : a₀.GrowsTo a) : Held a₀ a [] [] :=
  ⟨h, ⟨nofun, nofun⟩, .nil, nofun, nofun⟩

theorem append (h : Held a₀ a ps ls) (h' : Held a b qs ms) : Held a₀ b (ps ++ qs) (ls ++ ms) := by
  refine ⟨h.grows.trans h'.grows, ⟨?_, ?_⟩, ?_, ?_, ?_⟩
  · intro p hp
    exact (List.mem_append.mp hp).elim (fun hp => h'.grows.keeps (h.keeps.1 p hp)) (h'.keeps.1 p)
  · intro l hl
    exact (List.mem_append.mp hl).elim (fun hl => h'.grows.lists (h.keeps.2 l hl)) (h'.keeps.2 l)
  · rw [Part.refs_append, List.nodup_append]
    refine ⟨h.nodup, h'.nodup, fun r hr r' hr' heq => ?_⟩
    subst heq
    exact h'.fresh r hr' (h.has r hr)
  · intro r hr
    rw [Part.refs_append] at hr
    obtain hr | hr := List.mem_append.mp hr
    · exact h.fresh r hr
    · exact fun hold => h'.fresh r hr (h.grows.has hold)
  · intro r hr
    rw [Part.refs_append] at hr
    exact (List.mem_append.mp hr).elim (fun hr => h'.grows.has (h.has r hr)) (h'.has r)

/-- What is held is still held when the arena grows. -/
theorem mono (h : Held a₀ a ps ls) (hg : a.GrowsTo b) : Held a₀ b ps ls := by
  have hall := h.append (.nil hg)
  rwa [List.append_nil, List.append_nil] at hall

/-- It does not matter when one began to look. -/
theorem since (h : Held a b ps ls) (hg : a₀.GrowsTo a) : Held a₀ b ps ls :=
  (Held.nil hg).append h

/-- Some of what is held is held. -/
theorem sublist (h : Held a₀ a ps ls) (hqs : qs.Sublist ps) : Held a₀ a qs [] := by
  have hrefs : (Part.refs qs).Sublist (Part.refs ps) := (hqs.filterMap _).flatMap _
  exact ⟨h.grows, ⟨fun p hp => h.keeps.1 p (hqs.subset hp), nofun⟩, h.nodup.sublist hrefs,
    fun r hr => h.fresh r (hrefs.subset hr), fun r hr => h.has r (hrefs.subset hr)⟩

/-- Marks are not recorded, nor need a list be that is empty. -/
theorem congr (h : Held a₀ a ps ls) (hps : Part.solid qs = Part.solid ps)
    (hls : ∀ l ∈ ms, l ∈ ls ∨ l.items = []) : Held a₀ a qs ms := by
  have hrefs : Part.refs qs = Part.refs ps := by
    rw [← Part.refs_solid qs, hps, Part.refs_solid]
  refine ⟨h.grows, ⟨fun q hq => ?_, fun l hl => ?_⟩, hrefs ▸ h.nodup, hrefs ▸ h.fresh,
    hrefs ▸ h.has⟩
  · cases q with
    | mark => trivial
    | _ =>
      have hmem := Part.mem_solid.mpr ⟨hq, nofun⟩
      rw [hps] at hmem
      exact h.keeps.1 _ (Part.mem_solid.mp hmem).1
  · obtain hl | hl := hls l hl
    · exact h.keeps.2 l hl
    · rw [Arena.Lists, hl]
      exact List.nil_infix

/-- Names and paths are held if they are known. -/
theorem of_keeps (h : a₀.GrowsTo a) (hps : ∀ p ∈ ps, a.Keeps p) (hrefs : Part.refs ps = []) :
    Held a₀ a ps [] := by
  refine ⟨h, ⟨hps, nofun⟩, ?_, ?_, ?_⟩ <;> rw [hrefs]
  · exact .nil
  · exact nofun
  · exact nofun

theorem name {n : Ident} (h : a₀.GrowsTo a) (hn : a.Knows n.name) : Held a₀ a [.name n] [] :=
  of_keeps h (List.forall_mem_singleton.mpr hn) rfl

theorem names {ns : List Ident} (h : a₀.GrowsTo a) (hns : ∀ n ∈ ns, a.Knows n.name) :
    Held a₀ a (ns.map .name) [] :=
  of_keeps h (List.forall_mem_map.mpr hns) (Part.refs_names ns)

/-- A list of what is held. -/
theorem list {l : Listing} (h : Held a₀ a ps ls) (hadd : a.AddsList l b) :
    Held a₀ b ps (l :: ls) := by
  have hb := h.mono hadd.grows
  exact ⟨hb.grows, ⟨hb.keeps.1, List.forall_mem_cons.mpr ⟨hadd.lists, hb.keeps.2⟩⟩, hb.nodup,
    hb.fresh, hb.has⟩

/-- A new node in place of what stands in it. -/
theorem node {k : NodeKind} {v : Visit} (h : Held a₀ a v.parts v.lists) (hadd : a.AddsNode k v b) :
    Held a₀ b [.node v] [] := by
  have hlookup : b.lookup ⟨k, a.count k⟩ = some v := by
    rw [Arena.lookup, hadd.entries, if_pos rfl]
    exact List.getElem?_concat_length
  have hrefs : Part.refs [.node v] = ⟨k, a.count k⟩ :: Part.refs v.parts := by
    rw [Part.refs_node, Visit.refs_eq, hadd.ref]
    exact List.append_nil _
  have hnew : ¬ a.Has ⟨k, a.count k⟩ := Nat.lt_irrefl _
  refine ⟨h.grows.trans hadd.grows, ⟨?_, by simp⟩, ?_, ?_, ?_⟩
  · intro p hp
    obtain rfl := List.mem_singleton.mp hp
    exact ⟨_, hadd.ref, hlookup⟩
  · rw [hrefs, List.nodup_cons]
    exact ⟨fun hr => hnew (h.has _ hr), h.nodup⟩
  · rw [hrefs]
    refine List.forall_mem_cons.mpr ⟨fun hold => hnew (h.grows.has hold), h.fresh⟩
  · rw [hrefs]
    refine List.forall_mem_cons.mpr ⟨Arena.has_of_lookup hlookup, fun r hr => ?_⟩
    exact hadd.grows.has (h.has r hr)

/-- Instead of a node, what stands in it. -/
theorem opened {v : Visit} (h : Held a₀ a [.node v] ls) (ha : a.Closed) :
    Held a₀ a v.parts v.lists := by
  have hrefs : Part.refs [.node v] = v.ref?.toList ++ Part.refs v.parts := by
    rw [Part.refs_node, Visit.refs_eq]
    exact List.append_nil _
  have hmem : ∀ r ∈ Part.refs v.parts, r ∈ Part.refs [.node v] := by
    rw [hrefs]
    exact fun r => List.mem_append_right _
  refine ⟨h.grows, ha.keepsAll_of_holds (h.keeps.1 _ (List.mem_singleton_self _)), ?_,
    fun r hr => h.fresh r (hmem r hr), fun r hr => h.has r (hmem r hr)⟩
  have hnodup := h.nodup
  rw [hrefs] at hnodup
  exact (List.nodup_append.mp hnodup).2.1

end Held

end GoSource
