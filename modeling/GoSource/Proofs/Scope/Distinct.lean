/-
Declarations that are parsed have numbers of their own.

A package keeps what it knows of a declaration under its number. That this
is no confusion is due to the arena: files that are results of different
parses share no node, so the declarations at top level of all of them have
different numbers (`parseEach_distinct`), and what is noted of one is found
under its number (`lookup_of_mem`).
-/
import GoSource.Proofs.Arena.Parse
import GoSource.Proofs.Contents.Laid
import Mathlib.Data.List.Nodup

namespace GoSource

/-- What stands under a key that is there once is found. -/
theorem lookup_of_mem {α : Type} {l : List (Nat × α)} {k : Nat} {x : α}
    (hl : (l.map Prod.fst).Nodup) (h : (k, x) ∈ l) : l.lookup k = some x := by
  induction l with
  | nil => exact nomatch h
  | cons p l ih =>
    obtain ⟨hp, hl⟩ := List.nodup_cons.mp hl
    rw [List.lookup_cons]
    obtain rfl | h := List.mem_cons.mp h
    · rw [beq_self_eq_true]
    · have hne : k ≠ p.1 := by
        rintro rfl
        exact hp (List.mem_map.mpr ⟨(p.1, x), h, rfl⟩)
      rw [beq_false_of_ne hne]
      exact ih hl h

/-- All declarations of a file at top level. -/
def File.allDecls (f : File) : List Decl := f.imports ++ f.decls

theorem Root.nodes_file (f : File) : (Root.file f).nodes = f.allDecls.map .decl := by
  have hnodes : (Root.file f).nodes = Part.nodes ((f.imports ++ f.decls).map .decl) := by
    rw [List.map_append]
    rfl
  rw [hnodes, Part.nodes_decls, File.allDecls]

/-- Of some declarations between which no node is shared, each has its own
number. -/
theorem nodup_of_refs {ds : List Decl} (h : ((ds.map .decl).flatMap Visit.refs).Nodup) :
    (ds.map (·.id)).Nodup := by
  have hrefs : (ds.flatMap fun d => [Ref.mk .decl d.id]).Sublist
      ((ds.map .decl).flatMap Visit.refs) := by
    rw [List.flatMap_map]
    refine List.Sublist.flatMap_right ds fun d _ => ?_
    rw [Visit.refs_eq]
    exact List.sublist_append_left _ _
  rw [← List.map_eq_flatMap] at hrefs
  apply List.Nodup.of_map (Ref.mk .decl)
  rw [List.map_map]
  exact h.sublist hrefs

/-- The declarations of files that are results of different parses have
different numbers. -/
theorem parseEach_distinct {requests : List Request} {files : List File}
    (h : (files.map Root.file).Subperm (parseEach requests).roots) :
    ((files.flatMap File.allDecls).map (·.id)).Nodup := by
  obtain ⟨roots, hperm, hsub⟩ := h
  have hnodes :
      (files.flatMap File.allDecls).map .decl = (files.map Root.file).flatMap Root.nodes := by
    rw [List.map_flatMap, List.flatMap_map]
    exact List.flatMap_congr fun f _ => (Root.nodes_file f).symm
  apply nodup_of_refs
  rw [hnodes]
  refine ((hperm.flatMap_right Root.nodes).flatMap_right Visit.refs).nodup ?_
  exact (parseEach_sound requests).nodes.2.sublist ((hsub.flatMap Root.nodes).flatMap Visit.refs)

-- ================================================================ files

def Root.file? : Root → Option File
  | file f => some f
  | _ => none

/-- The files among what has been parsed. -/
def Parsed.files (p : Parsed) : List File := p.roots.filterMap Root.file?

theorem Parsed.subperm_files (p : Parsed) : (p.files.map Root.file).Subperm p.roots := by
  refine ⟨_, .rfl, ?_⟩
  rw [files]
  induction p.roots with
  | nil => exact .slnil
  | cons root roots ih =>
    cases root with
    | file f => exact ih.cons_cons _
    | _ => exact ih.cons _

/-- The files that sources are parsed to, in one arena. -/
def parseFiles (maxDepth : Nat) (sources : List String) : List File :=
  (parseEach (sources.map fun source => ⟨.ofSource source, .file, maxDepth⟩)).files

end GoSource
