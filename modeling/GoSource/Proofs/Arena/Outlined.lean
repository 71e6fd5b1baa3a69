/-
The walk and the outline meet the same nodes.

A walk is written along the parts of each form, an outline along the lines
that show it. Both go through the same declarations, statements,
expressions and types, in the same order (`Root.visits_outline`). These
are nodes below the tree (`Root.shown_walk`), and below the results of
parses no reference stands twice. So each has its own place in the arena,
where it can be looked up (`parseEach_outlined`).
-/
import GoSource.Proofs.Arena.Parse

namespace GoSource

namespace Root

/-- What a walk stops at and an outline shows is below the nodes. -/
theorem shown_walk (root : Root) :
    Walk.shown root.walk = (root.nodes.flatMap Visit.below).filter Visit.isShown := by
  have hvisits : Walk.shown root.walk = (root.visits.flatMap Visit.below).filter Visit.isShown := by
    rw [Walk.shown, walk, List.map_flatMap]
    rfl
  rw [hvisits]
  cases root with
  | file f =>
    -- The file itself is no node, and an outline has no mark for it.
    rw [visits, List.flatMap_singleton, Visit.below_eq]
    rfl
  | expr x => rfl
  | stmt s => rfl
  | decls ds => simp [visits, nodes, parts, List.filterMap_map, Part.node?, Function.comp_def]
  | stmts ss => simp [visits, nodes, parts, List.filterMap_map, Part.node?, Function.comp_def]

end Root

namespace Parsed

variable {p : Parsed} {root : Root} {v : Visit}

theorem Sound.shown (h : p.Sound) (hroot : root ∈ p.roots) (hv : v ∈ Walk.shown root.walk) :
    p.arena.Holds v := by
  rw [Root.shown_walk] at hv
  obtain ⟨w, hw, hbelow⟩ := List.mem_flatMap.mp (List.mem_filter.mp hv).1
  have hholds := h.nodes.1 w (List.mem_flatMap.mpr ⟨root, hroot, hw⟩)
  exact h.closed.below hholds hbelow

/-- No two of the nodes that are shown have the same number. -/
theorem Sound.nodup_shown (h : p.Sound) (hroot : root ∈ p.roots) :
    ((Walk.shown root.walk).filterMap Visit.ref?).Nodup := by
  have hnodes : (root.nodes.flatMap Visit.refs).Sublist (p.nodes.flatMap Visit.refs) := by
    rw [Parsed.nodes, List.flatMap_assoc, List.flatMap_def]
    exact List.sublist_flatten_of_mem (List.mem_map_of_mem hroot)
  have hrefs : root.nodes.flatMap Visit.refs =
      (root.nodes.flatMap Visit.below).filterMap Visit.ref? :=
    List.filterMap_flatMap.symm
  rw [hrefs] at hnodes
  rw [Root.shown_walk]
  exact h.nodes.2.sublist ((List.filter_sublist.filterMap _).trans hnodes)

end Parsed

/-- Nodes that can be found are found under their numbers. -/
theorem Arena.refs_of_holds {a : Arena} {vs : List Visit} (h : ∀ v ∈ vs, a.Holds v) :
    vs.map Visit.ref? = (vs.filterMap Visit.ref?).map some ∧
      (vs.filterMap Visit.ref?).map a.lookup = vs.map some := by
  induction vs with
  | nil => exact ⟨rfl, rfl⟩
  | cons v vs ih =>
    rw [List.forall_mem_cons] at h
    obtain ⟨r, hr, hlookup⟩ := h.1
    obtain ⟨hrefs, hfound⟩ := ih h.2
    rw [List.filterMap_cons_some hr, List.map_cons, List.map_cons, List.map_cons, List.map_cons,
      hr, hlookup, ← hrefs, hfound]
    exact ⟨rfl, rfl⟩

/-- The declarations, statements, expressions and types that are printed
are those that a walk from the same result stops at, one by one: the same
numbers in the same order, and none of them twice. Each number leads to
the node that is printed. -/
theorem parseEach_outlined (requests : List Request) :
    let p := parseEach requests
    ∀ root ∈ p.roots, Outline.visits root.outline = Walk.shown root.walk ∧
      ∃ refs : List Ref, refs.Nodup ∧
        (Outline.visits root.outline).map Visit.ref? = refs.map some ∧
        (Walk.shown root.walk).map Visit.ref? = refs.map some ∧
        refs.map p.arena.lookup = (Walk.shown root.walk).map some := by
  intro p root hroot
  have hsound : p.Sound := parseEach_sound requests
  have hsame := root.visits_outline
  obtain ⟨hrefs, hfound⟩ := Arena.refs_of_holds fun v hv => hsound.shown hroot (v := v) hv
  refine ⟨hsame, _, hsound.nodup_shown hroot, ?_, hrefs, hfound⟩
  rw [hsame]
  exact hrefs

/-- A statement and a declaration parsed into one arena. In the second,
an array has an expression for its length and the signature comes with a
block. -/
theorem parseEach_outlined_array :
    let p := parseEach [⟨.ofSource "if x := f(); x { return }", .statements, 30⟩,
      ⟨.ofSource "func f(a [n]int) T { a[0]++ }", .declarations, 30⟩]
    p.roots.length = 2 ∧ ∀ root ∈ p.roots,
      Outline.visits root.outline = Walk.shown root.walk ∧
      ∃ refs : List Ref, refs.Nodup ∧
        (Outline.visits root.outline).map Visit.ref? = refs.map some ∧
        (Walk.shown root.walk).map Visit.ref? = refs.map some ∧
        refs.map p.arena.lookup = (Walk.shown root.walk).map some := by
  intro p
  refine ⟨?_, fun root hroot => parseEach_outlined _ root hroot⟩
  decide +kernel

end GoSource
