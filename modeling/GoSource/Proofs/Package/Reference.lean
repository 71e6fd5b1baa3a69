/-
What checking a package comes to.

The plain account of a report (`Package.reference`) knows of no shared
arena. Each file is parsed by itself; the files that parse keep the
positions they have in the package (`Member`); and for each name in their
package clauses, in ascending order, those with that name are resolved, as
if there were no others. What is reported of them is told of the members
it is about.

Checking does the same with one arena and with lists of paths
(`check_eq_reference`). Since a file is parsed the same way into any arena
but for the numbers of its nodes (`parseFile_afresh`), what is shared shows
in nothing that is reported. And since a report is put together from parts
that are about some files each, files that are taken out take their own
part with them and leave the others as they are.
-/
import GoSource.Package
import GoSource.Proofs.Arena.Parse
import GoSource.Proofs.Scope.Mention
import Mathlib.Data.Finset.Sort
import Mathlib.Data.String.Basic

namespace GoSource

-- ========================================================== one by one

/-- Parses a file into an arena of its own. -/
def Source.parse (s : Source) (maxDepth : Nat) : Except ParseError File :=
  (parseFile s.text maxDepth .empty).1

/-- The error of a file that does not parse. -/
def Source.error? (s : Source) (maxDepth : Nat) : Option Diagnostic :=
  match s.parse maxDepth with
  | .ok _ => none
  | .error e => some (.unparsed s.path e)

/-- A file that parses, with its position in the package. -/
structure Member where
  position : Nat
  source : Source
  file : File

/-- A file as a member, at a position, if it parses. -/
def Source.member? (s : Source) (maxDepth position : Nat) : Option Member :=
  (s.parse maxDepth).toOption.map (⟨position, s, ·⟩)

/-- The name in the package clause of a file that parses. -/
def Source.clause? (s : Source) (maxDepth : Nat) : Option String :=
  (s.parse maxDepth).toOption.map (·.name.name)

namespace Member

/-- A member is the file at its position, as it is parsed. -/
structure IsOf (p : Package) (maxDepth : Nat) (m : Member) : Prop where
  source : p.files[m.position]? = some m.source
  file : m.source.parse maxDepth = .ok m.file

def clause (m : Member) : String := m.file.name.name

/-- The path and the tree, as text. -/
def tree (m : Member) : String × String := (m.source.path, Package.treeText m.file)

/-- A redeclaration among some members, told of the two it is about. The
first is named if it is another file than the second. -/
def tell (members : List Member) (r : Redeclaration) : Option Diagnostic := do
  let first ← members[r.firstFile]?
  let second ← members[r.secondFile]?
  let firstPath := if first.position = second.position then none else some first.source.path
  some (.redeclared second.source.path r firstPath)

/-- What resolving members, and no others, reports. -/
def report (members : List Member) : List Diagnostic :=
  (resolve (members.map (·.file))).errors.toList.filterMap (tell members)

end Member

namespace Package

variable (p : Package) (maxDepth : Nat)

/-- The errors of the files that do not parse. -/
def parseErrors : List Diagnostic := p.files.filterMap (·.error? maxDepth)

/-- The files that parse. -/
def members : List Member := p.files.zipIdx.filterMap fun q => q.1.member? maxDepth q.2

/-- The names in package clauses. -/
def clauseNames : Finset String := ((p.members maxDepth).map (·.clause)).toFinset

/-- The members with a package clause. -/
def group (clause : String) : List Member := (p.members maxDepth).filter (·.clause = clause)

/-- The report, file by file and clause by clause. -/
def reference (options : Options) : Report where
  files := p.files.length
  packages := (p.clauseNames options.maxDepth).card
  diagnostics := p.parseErrors options.maxDepth ++
    ((p.clauseNames options.maxDepth).sort (· ≤ ·)).flatMap fun clause =>
      Member.report (p.group options.maxDepth clause)
  trees := if options.dump then (p.members options.maxDepth).map (·.tree) else []

/-- The package without the files of a clause. -/
def without (clause : String) : Package :=
  ⟨p.files.filter fun s => s.clause? maxDepth ≠ some clause⟩

end Package

/-- Some diagnostics, which stand together, are in one report and not in
the other. All others are in both, in the same order. -/
def Report.Loses (report : Report) (lost : List Diagnostic) (rest : Report) : Prop :=
  ∃ before after, report.diagnostics = before ++ lost ++ after ∧
    rest.diagnostics = before ++ after

-- ============================================================= afresh

/-- Of two arenas that a file is parsed into, the second has more nodes. -/
theorem parseFile_renumbers {δ : NodeKind → Nat} {a a' : Arena} (ha : a.Closed)
    (hcount : ∀ k, a'.count k = a.count k + δ k) (source : String) (maxDepth : Nat) :
    (parseFile source maxDepth a).2.Closed ∧
      (parseFile source maxDepth a').1 =
        (parseFile source maxDepth a).1.map (Renumber.file δ) := by
  have hbuilds : Builds δ (Renumber.file δ) (Grammar.parse maxDepth .file)
      (Grammar.parse maxDepth .file) a fun f c => Held a c f.parts f.lists :=
    Grammar.parse_builds maxDepth .file (.nil (.refl a))
  have hrun := hbuilds (.start (.ofSource source) a) (.start (.ofSource source) a') rfl
    ⟨rfl, hcount⟩ ha
  unfold parseFile
  generalize Grammar.parse maxDepth .file (.start (.ofSource source) a) = o,
    Grammar.parse maxDepth .file (.start (.ofSource source) a') = o' at hrun
  cases hrun with
  | ok _ _ closed => exact ⟨closed, rfl⟩
  | error _ closed => exact ⟨closed, rfl⟩

/-- A file is parsed into any arena as into an empty one, but for the
numbers of its nodes, and another file can be parsed after it. -/
theorem parseFile_afresh {a : Arena} (ha : a.Closed) (s : Source) (maxDepth : Nat) :
    (parseFile s.text maxDepth a).2.Closed ∧
      (parseFile s.text maxDepth a).1 = (s.parse maxDepth).map (Renumber.file a.count) := by
  have hcount : ∀ k, a.count k = Arena.empty.count k + a.count k := by
    intro k
    cases k <;> exact (Nat.zero_add _).symm
  constructor
  · have hself : ∀ k, a.count k = a.count k + 0 := fun _ => rfl
    exact (parseFile_renumbers ha hself s.text maxDepth).1
  · exact (parseFile_renumbers Arena.closed_empty hcount s.text maxDepth).2

/-- A file that was parsed after others, and the same as a member. -/
def Member.Matches (f : String × File) (m : Member) : Prop :=
  f.1 = m.source.path ∧ ∃ δ, f.2 = Renumber.file δ m.file

/-- What is parsed into one arena is what is parsed file by file. -/
theorem ParsedSource.ofSources_afresh (maxDepth : Nat) (sources : List Source) {a : Arena}
    (ha : a.Closed) (k : Nat) :
    List.Forall₂ Member.Matches ((ofSources maxDepth sources a).filterMap (·.file?))
      ((sources.zipIdx k).filterMap fun q => q.1.member? maxDepth q.2) ∧
    (ofSources maxDepth sources a).filterMap (·.diagnostic?) =
      sources.filterMap (·.error? maxDepth) := by
  induction sources generalizing a k with
  | nil => exact ⟨.nil, rfl⟩
  | cons s sources ih =>
    obtain ⟨hclosed, hparse⟩ := parseFile_afresh ha s maxDepth
    obtain ⟨hfiles, herrors⟩ := ih hclosed (k + 1)
    have hsources : ofSources maxDepth (s :: sources) a =
        ⟨s, (parseFile s.text maxDepth a).1⟩ ::
          ofSources maxDepth sources (parseFile s.text maxDepth a).2 := rfl
    rw [hsources, hparse, List.zipIdx_cons]
    cases hs : s.parse maxDepth with
    | error e =>
      have hmember : s.member? maxDepth k = none := by rw [Source.member?, hs]; rfl
      have herror : s.error? maxDepth = some (.unparsed s.path e) := by rw [Source.error?, hs]
      simp only [List.filterMap_cons, hmember, herror, ← herrors]
      exact ⟨hfiles, rfl⟩
    | ok f =>
      have hmember : s.member? maxDepth k = some ⟨k, s, f⟩ := by rw [Source.member?, hs]; rfl
      have herror : s.error? maxDepth = none := by rw [Source.error?, hs]
      simp only [List.filterMap_cons, hmember, herror]
      exact ⟨.cons ⟨rfl, _, rfl⟩ hfiles, herrors⟩

-- ============================================================== clauses

theorem eraseDupsBy_sublist {α : Type} (r : α → α → Bool) (l : List α) :
    (l.eraseDupsBy r).Sublist l := by
  induction hn : l.length using Nat.strongRecOn generalizing l with
  | ind n ih =>
    cases l with
    | nil => exact List.nil_sublist _
    | cons a l =>
      have hle := List.length_filter_le (fun b => r b a = false) l
      rw [List.length_cons] at hn
      rw [List.eraseDupsBy_cons]
      exact ((ih _ (by omega) _ rfl).trans List.filter_sublist).cons_cons a

/-- What is kept is apart from all that was kept before. -/
theorem pairwise_eraseDupsBy {α : Type} (r : α → α → Bool) (l : List α) :
    (l.eraseDupsBy r).Pairwise fun a b => r b a = false := by
  induction hn : l.length using Nat.strongRecOn generalizing l with
  | ind n ih =>
    cases l with
    | nil => exact .nil
    | cons a l =>
      have hle := List.length_filter_le (fun b => r b a = false) l
      rw [List.length_cons] at hn
      rw [List.eraseDupsBy_cons, List.pairwise_cons]
      refine ⟨fun b hb => ?_, ih _ (by omega) _ rfl⟩
      exact of_decide_eq_true (List.mem_filter.mp ((eraseDupsBy_sublist r _).subset hb)).2

theorem nodup_eraseDups {α : Type} [BEq α] [LawfulBEq α] (l : List α) : l.eraseDups.Nodup :=
  (pairwise_eraseDupsBy _ l).imp fun h => (ne_of_beq_false h).symm

/-- There is one way to put the elements of a set in order. -/
theorem eq_sort {l : List String} {s : Finset String} (hsorted : l.Pairwise (· ≤ ·))
    (hnodup : l.Nodup) (hmem : ∀ a, a ∈ l ↔ a ∈ s) : l = s.sort (· ≤ ·) := by
  have hperm : l.Perm (s.sort (· ≤ ·)) := by
    rw [List.perm_ext_iff_of_nodup hnodup (Finset.sort_nodup _ _)]
    intro a
    rw [hmem, Finset.mem_sort]
  exact hperm.eq_of_pairwise (fun a b _ _ => le_antisymm) hsorted (Finset.pairwise_sort _ _)

namespace Package

variable {files : List (String × File)} {clause : String}

theorem mem_clauses : clause ∈ clauses files ↔ ∃ f ∈ files, clauseOf f = clause := by
  rw [clauses, List.mem_eraseDups, List.mem_mergeSort, List.mem_map]

theorem nodup_clauses : (clauses files).Nodup := nodup_eraseDups _

theorem sorted_clauses : (clauses files).Pairwise (· ≤ ·) := by
  have htrans : ∀ a b c : String, (!decide (b < a)) = true → (!decide (c < b)) = true →
      (!decide (c < a)) = true := by
    intro a b c hab hbc
    simp only [Bool.not_eq_true', decide_eq_false_iff_not, not_lt] at hab hbc ⊢
    exact le_trans hab hbc
  have htotal : ∀ a b : String, (!decide (b < a) || !decide (a < b)) = true := by
    intro a b
    simp only [Bool.or_eq_true, Bool.not_eq_true', decide_eq_false_iff_not, not_lt]
    exact le_total a b
  have hsorted := List.pairwise_mergeSort htrans htotal (files.map clauseOf)
  refine (hsorted.imp fun h => ?_).sublist (eraseDupsBy_sublist _ _)
  simp only [Bool.not_eq_true', decide_eq_false_iff_not, not_lt] at h
  exact h

/-- The clauses are the set of their names, in order. -/
theorem clauses_eq (files : List (String × File)) :
    clauses files = (files.map clauseOf).toFinset.sort (· ≤ ·) := by
  apply eq_sort sorted_clauses nodup_clauses
  intro clause
  rw [mem_clauses, List.mem_toFinset, List.mem_map]

end Package

-- ============================================================== members

namespace Member

variable {files : List (String × File)} {members : List Member}

theorem Matches.clause {f : String × File} {m : Member} (h : Matches f m) :
    Package.clauseOf f = m.clause := by
  obtain ⟨-, δ, hfile⟩ := h
  rw [Package.clauseOf, hfile]
  rfl

theorem Matches.tree {f : String × File} {m : Member} (h : Matches f m) :
    (f.1, Package.treeText f.2) = m.tree := by
  obtain ⟨hpath, δ, hfile⟩ := h
  have htext : Package.treeText (Renumber.file δ m.file) = Package.treeText m.file :=
    Renumber.text_root δ (.file m.file)
  rw [hpath, hfile, htext]
  rfl

/-- What matches in one respect is the same in it. -/
theorem map_eq_of_matches {α : Type} {g : String × File → α} {g' : Member → α}
    (hg : ∀ f m, Matches f m → g f = g' m) (h : List.Forall₂ Matches files members) :
    files.map g = members.map g' := by
  induction h with
  | nil => rfl
  | cons hf _ ih => rw [List.map_cons, List.map_cons, hg _ _ hf, ih]

theorem errors_of_matches (h : List.Forall₂ Matches files members) :
    (resolve (files.map (·.2))).errors.toList = (resolve (members.map (·.file))).errors.toList := by
  apply resolve_errors_congr
  rw [List.forall₂_map_left_iff, List.forall₂_map_right_iff]
  refine h.imp fun f m hmatch i => ?_
  obtain ⟨-, δ, hfile⟩ := hmatch
  rw [hfile, Renumber.mentions_file]

/-- Members, told apart by their positions. -/
def Apart (members : List Member) : Prop := (members.map (·.position)).Nodup

/-- What is reported is about two of the members. -/
theorem exists_of_mem_errors {r : Redeclaration}
    (h : r ∈ (resolve (members.map (·.file))).errors.toList) :
    ∃ first second, members[r.firstFile]? = some first ∧ members[r.secondFile]? = some second ∧
      first.file.Binds r.name r.first ∧ second.file.Binds r.name r.second := by
  obtain ⟨⟨f, hf, hfirst⟩, g, hg, hsecond⟩ := resolve_errors_bind h
  rw [List.getElem?_map] at hf hg
  obtain ⟨first, hlookup, rfl⟩ := Option.map_eq_some_iff.mp hf
  obtain ⟨second, hlookup', rfl⟩ := Option.map_eq_some_iff.mp hg
  exact ⟨first, second, hlookup, hlookup', hfirst, hsecond⟩

theorem tell_eq {r : Redeclaration} (hapart : Apart members)
    (h : r ∈ (resolve (members.map (·.file))).errors.toList) :
    tell members r = some (Package.redeclarationIn (members.map (·.source.path)) r) := by
  obtain ⟨first, second, hfirst, hsecond, -, -⟩ := exists_of_mem_errors h
  have hposition : first.position = second.position ↔ r.firstFile = r.secondFile := by
    constructor
    · intro heq
      obtain ⟨hlt, -⟩ := List.getElem?_eq_some_iff.mp hfirst
      apply (List.getElem?_inj (by rwa [List.length_map]) hapart).mp
      rw [List.getElem?_map, List.getElem?_map, hfirst, hsecond, Option.map_some, Option.map_some,
        heq]
    · intro heq
      rw [heq, hsecond] at hfirst
      rw [Option.some.inj hfirst]
  have hpath : (members.map (·.source.path)).getD r.secondFile "" = second.source.path := by
    rw [List.getD_eq_getElem?_getD, List.getElem?_map, hsecond]
    rfl
  have hfirstPath : (members.map (·.source.path))[r.firstFile]? = some first.source.path := by
    rw [List.getElem?_map, hfirst]
    rfl
  rw [tell, hfirst, hsecond, Package.redeclarationIn, hpath, hfirstPath]
  simp only [Option.bind_eq_bind, Option.bind_some, hposition]

/-- Members are told by their paths. -/
theorem report_eq (hapart : Apart members) : report members =
    Package.redeclarations (members.map fun m => (m.source.path, m.file)) := by
  have htell := List.filterMap_congr fun r hr => tell_eq (r := r) hapart hr
  rw [report, htell, List.filterMap_eq_map', Package.redeclarations, List.map_map, List.map_map]
  rfl

/-- What is reported of files is what is reported of the members that
match them. -/
theorem redeclarations_of_matches (hapart : Apart members)
    (h : List.Forall₂ Matches files members) : Package.redeclarations files = report members := by
  have hpaths : files.map (·.1) = members.map (·.source.path) :=
    map_eq_of_matches (fun f m hmatch => hmatch.1) h
  rw [report_eq hapart, Package.redeclarations, Package.redeclarations, errors_of_matches h, hpaths,
    List.map_map, List.map_map]
  rfl

end Member

namespace Package

variable (p : Package) (maxDepth : Nat)

theorem isOf_of_mem {m : Member} (hm : m ∈ p.members maxDepth) : m.IsOf p maxDepth := by
  obtain ⟨⟨s, i⟩, hs, hm⟩ := List.mem_filterMap.mp hm
  obtain ⟨f, hf, rfl⟩ := Option.map_eq_some_iff.mp hm
  constructor
  · exact List.mem_zipIdx_iff_getElem?.mp hs
  · cases hparse : s.parse maxDepth with
    | error e =>
      rw [hparse] at hf
      exact nomatch hf
    | ok g =>
      rw [hparse] at hf
      exact congrArg Except.ok (Option.some.inj hf)

theorem members_apart : Member.Apart (p.members maxDepth) := by
  have hpositions : p.files.zipIdx.Pairwise fun q q' => q.2 ≠ q'.2 := by
    rw [← List.pairwise_map (f := Prod.snd), List.zipIdx_map_snd]
    exact List.nodup_range'
  rw [Member.Apart, List.Nodup, List.pairwise_map, members]
  apply hpositions.filterMap
  intro q q' hne m hm m' hm'
  obtain ⟨f, -, rfl⟩ := Option.map_eq_some_iff.mp hm
  obtain ⟨f', -, rfl⟩ := Option.map_eq_some_iff.mp hm'
  exact hne

theorem group_apart (clause : String) : Member.Apart (p.group maxDepth clause) :=
  (p.members_apart maxDepth).sublist (List.filter_sublist.map _)

/-- What is parsed of a package, into one arena or file by file. -/
theorem members_match : List.Forall₂ Member.Matches
    ((ParsedSource.ofSources maxDepth p.files .empty).filterMap (·.file?)) (p.members maxDepth) :=
  (ParsedSource.ofSources_afresh maxDepth p.files Arena.closed_empty 0).1

/-- Checking reports what the plain account does. -/
theorem check_eq (options : Options) : p.check options = p.reference options := by
  have hmatch := p.members_match options.maxDepth
  have herrors := (ParsedSource.ofSources_afresh options.maxDepth p.files Arena.closed_empty 0).2
  have hnames : clauses ((ParsedSource.ofSources options.maxDepth p.files .empty).filterMap
      (·.file?)) = (p.clauseNames options.maxDepth).sort (· ≤ ·) := by
    rw [clauses_eq, Member.map_eq_of_matches (fun _ _ => Member.Matches.clause) hmatch]
    rfl
  have htrees := Member.map_eq_of_matches (fun _ _ => Member.Matches.tree) hmatch
  have hgroup : ∀ clause, redeclarations (withClause
      ((ParsedSource.ofSources options.maxDepth p.files .empty).filterMap (·.file?)) clause) =
        Member.report (p.group options.maxDepth clause) := by
    intro clause
    have hfiltered : List.Forall₂ Member.Matches (withClause ((ParsedSource.ofSources
        options.maxDepth p.files .empty).filterMap (·.file?)) clause)
        (p.group options.maxDepth clause) :=
      List.rel_filter (fun f m h => by simp only [h.clause]) hmatch
    exact Member.redeclarations_of_matches (p.group_apart options.maxDepth clause) hfiltered
  unfold check reference
  dsimp only
  rw [hnames, Finset.length_sort, htrees, herrors]
  simp only [hgroup]
  rfl

-- ============================================================== removal

/-- The files that parse, with their paths only. -/
def parsedFiles : List (String × File) :=
  p.files.filterMap fun s => (s.parse maxDepth).toOption.map (s.path, ·)

theorem map_members : (p.members maxDepth).map (fun m => (m.source.path, m.file)) =
    p.parsedFiles maxDepth := by
  have hsources := List.zipIdx_map_fst 0 p.files
  rw [parsedFiles, ← hsources, List.filterMap_map, members, List.map_filterMap]
  apply List.filterMap_congr
  intro q _
  rw [Source.member?, Option.map_map]
  rfl

theorem clauseNames_eq : p.clauseNames maxDepth =
    ((p.parsedFiles maxDepth).map clauseOf).toFinset := by
  rw [clauseNames, ← map_members, List.map_map]
  rfl

theorem report_group (clause : String) : Member.report (p.group maxDepth clause) =
    redeclarations (withClause (p.parsedFiles maxDepth) clause) := by
  rw [Member.report_eq (p.group_apart maxDepth clause), group, withClause, ← map_members,
    List.filter_map]
  rfl

theorem map_tree : (p.members maxDepth).map (·.tree) =
    (p.parsedFiles maxDepth).map fun f => (f.1, treeText f.2) := by
  rw [← map_members, List.map_map]
  rfl

/-- What is reported of files that parse, clause by clause. -/
def resolved (files : List (String × File)) : List Diagnostic :=
  (clauses files).flatMap fun clause => redeclarations (withClause files clause)

/-- A report depends on the errors and on the files that parse. -/
theorem check_parts (options : Options) :
    let files := p.parsedFiles options.maxDepth
    (p.check options).packages = (clauses files).length ∧
    (p.check options).diagnostics = p.parseErrors options.maxDepth ++ resolved files ∧
    (p.check options).trees =
      if options.dump then files.map fun f => (f.1, treeText f.2) else [] := by
  rw [check_eq, reference]
  simp only [clauseNames_eq, report_group, map_tree, resolved, clauses_eq, Finset.length_sort,
    and_self]

/-- Taking out a file that does not parse takes out its error. -/
theorem check_unparsed (options : Options) {before after : List Source} {s : Source}
    {e : ParseError} (hs : s.parse options.maxDepth = .error e) :
    let report := check ⟨before ++ s :: after⟩ options
    let rest := check ⟨before ++ after⟩ options
    rest.packages = report.packages ∧ rest.trees = report.trees ∧
      report.Loses [.unparsed s.path e] rest := by
  have hparsed : parsedFiles ⟨before ++ s :: after⟩ options.maxDepth =
      parsedFiles ⟨before ++ after⟩ options.maxDepth := by
    have hnone : (s.parse options.maxDepth).toOption.map (s.path, ·) = none := by
      rw [hs]
      rfl
    simp only [parsedFiles, List.filterMap_append, List.filterMap_cons, hnone]
  have herror : s.error? options.maxDepth = some (.unparsed s.path e) := by rw [Source.error?, hs]
  obtain ⟨hpackages, hdiagnostics, htrees⟩ := check_parts ⟨before ++ s :: after⟩ options
  obtain ⟨hpackages', hdiagnostics', htrees'⟩ := check_parts ⟨before ++ after⟩ options
  rw [hparsed] at hpackages hdiagnostics htrees
  refine ⟨hpackages'.trans hpackages.symm, htrees'.trans htrees.symm,
    before.filterMap (·.error? options.maxDepth), after.filterMap (·.error? options.maxDepth) ++
      resolved (parsedFiles ⟨before ++ after⟩ options.maxDepth), ?_, ?_⟩
  · rw [hdiagnostics, parseErrors, List.filterMap_append]
    simp [herror]
  · rw [hdiagnostics', parseErrors, List.filterMap_append, List.append_assoc]

section

variable {files : List (String × File)} {clause : String}

/-- Files of one clause have no part in the others. -/
theorem withClause_without {name : String} (hne : name ≠ clause) :
    withClause (files.filter (clauseOf · ≠ clause)) name = withClause files name := by
  rw [withClause, withClause, List.filter_filter]
  apply List.filter_congr
  intro f _
  by_cases hf : clauseOf f = name
  · simp [hf, hne]
  · simp [hf]

theorem clauses_without : clauses (files.filter (clauseOf · ≠ clause)) =
    (clauses files).filter (· ≠ clause) := by
  have hsorted : ((clauses files).filter (· ≠ clause)).Pairwise (· ≤ ·) :=
    sorted_clauses.sublist List.filter_sublist
  have hnodup : ((clauses files).filter (· ≠ clause)).Nodup := nodup_clauses.filter _
  rw [clauses_eq]
  refine (eq_sort hsorted hnodup fun name => ?_).symm
  rw [List.mem_filter, mem_clauses, List.mem_toFinset, List.mem_map]
  constructor
  · rintro ⟨⟨f, hf, rfl⟩, hne⟩
    exact ⟨f, List.mem_filter.mpr ⟨hf, hne⟩, rfl⟩
  · rintro ⟨f, hf, rfl⟩
    obtain ⟨hf, hne⟩ := List.mem_filter.mp hf
    exact ⟨⟨f, hf, rfl⟩, hne⟩

/-- What resolving reports without the files of a clause is what it reports
of the other clauses. -/
theorem resolved_filter : resolved (files.filter (clauseOf · ≠ clause)) =
    ((clauses files).filter (· ≠ clause)).flatMap fun name =>
      redeclarations (withClause files name) := by
  rw [resolved, clauses_without]
  apply List.flatMap_congr
  intro name hname
  rw [withClause_without (of_decide_eq_true (List.mem_filter.mp hname).2)]

theorem resolved_without (files : List (String × File)) (clause : String) : ∃ before after,
    resolved files = before ++ redeclarations (withClause files clause) ++ after ∧
      resolved (files.filter (clauseOf · ≠ clause)) = before ++ after := by
  by_cases hmem : clause ∈ clauses files
  · obtain ⟨xs, ys, hsplit, hxs⟩ := List.eq_append_cons_of_mem hmem
    have hys : clause ∉ ys := by
      have hnodup : (clauses files).Nodup := nodup_clauses
      rw [hsplit] at hnodup
      exact (List.nodup_cons.mp hnodup.of_append_right).1
    have hkeep : ∀ names : List String, clause ∉ names →
        names.filter (· ≠ clause) = names := by
      intro names hnames
      rw [List.filter_eq_self]
      intro name hname
      exact decide_eq_true fun heq => hnames (heq ▸ hname)
    refine ⟨xs.flatMap fun name => redeclarations (withClause files name),
      ys.flatMap fun name => redeclarations (withClause files name), ?_, ?_⟩
    · rw [resolved, hsplit, List.flatMap_append, List.flatMap_cons, List.append_assoc]
    · rw [resolved_filter, hsplit, List.filter_append, List.filter_cons_of_neg (by simp),
        hkeep xs hxs, hkeep ys hys, List.flatMap_append]
  · have hnone : withClause files clause = [] := by
      rw [withClause, List.filter_eq_nil_iff]
      intro f hf hclause
      exact hmem (mem_clauses.mpr ⟨f, hf, of_decide_eq_true hclause⟩)
    have hall : files.filter (clauseOf · ≠ clause) = files := by
      rw [List.filter_eq_self]
      intro f hf
      exact decide_eq_true fun hclause => hmem (mem_clauses.mpr ⟨f, hf, hclause⟩)
    refine ⟨resolved files, [], ?_, ?_⟩
    · rw [hnone, List.append_nil]
      exact (List.append_nil _).symm
    · rw [hall, List.append_nil]

end

theorem parsedFiles_without (clause : String) :
    (p.without maxDepth clause).parsedFiles maxDepth =
      (p.parsedFiles maxDepth).filter (clauseOf · ≠ clause) := by
  rw [parsedFiles, parsedFiles, without, List.filterMap_filter, List.filter_filterMap]
  apply List.filterMap_congr
  intro s _
  cases hs : s.parse maxDepth with
  | error e =>
    have hclause : s.clause? maxDepth = none := by rw [Source.clause?, hs]; rfl
    rw [hclause]
    rfl
  | ok f =>
    have hclause : s.clause? maxDepth = some f.name.name := by rw [Source.clause?, hs]; rfl
    by_cases hne : f.name.name = clause
    · simp [hclause, hne, Except.toOption, clauseOf, Option.filter]
    · simp [hclause, hne, Except.toOption, clauseOf, Option.filter]

theorem parseErrors_without (clause : String) :
    (p.without maxDepth clause).parseErrors maxDepth = p.parseErrors maxDepth := by
  rw [parseErrors, parseErrors, without, List.filterMap_filter]
  apply List.filterMap_congr
  intro s _
  cases hs : s.parse maxDepth with
  | error e =>
    have hclause : s.clause? maxDepth = none := by rw [Source.clause?, hs]; rfl
    rw [hclause]
    rfl
  | ok f =>
    have herror : s.error? maxDepth = none := by rw [Source.error?, hs]
    rw [herror, ite_self]

/-- Taking out the files of a clause takes out what is reported of them. -/
theorem check_without (options : Options) (clause : String) :
    let report := p.check options
    let rest := (p.without options.maxDepth clause).check options
    rest.trees = (if options.dump then
        ((p.members options.maxDepth).filter (·.clause ≠ clause)).map (·.tree) else []) ∧
      report.Loses (Member.report (p.group options.maxDepth clause)) rest := by
  obtain ⟨-, hdiagnostics, -⟩ := p.check_parts options
  obtain ⟨-, hdiagnostics', htrees'⟩ := (p.without options.maxDepth clause).check_parts options
  rw [parsedFiles_without] at hdiagnostics' htrees'
  obtain ⟨before, after, hresolved, hresolved'⟩ :=
    resolved_without (p.parsedFiles options.maxDepth) clause
  refine ⟨?_, p.parseErrors options.maxDepth ++ before, after, ?_, ?_⟩
  · rw [htrees', ← map_members, List.filter_map, List.map_map]
    rfl
  · rw [hdiagnostics, hresolved, report_group]
    simp only [List.append_assoc]
  · rw [hdiagnostics', parseErrors_without, hresolved', List.append_assoc]

/-- Checking reports what the plain account does: what is told there is
told of two members that bind the name where it says. Taking out a file
that does not parse, or all files of a clause, takes out what is reported
of them and leaves every other diagnostic and tree. -/
theorem check_eq_reference (options : Options) :
    p.check options = p.reference options ∧
    (∀ clause, ∀ r ∈ (resolve ((p.group options.maxDepth clause).map (·.file))).errors.toList,
      ∃ first second, (p.group options.maxDepth clause)[r.firstFile]? = some first ∧
        first.IsOf p options.maxDepth ∧ first.file.Binds r.name r.first ∧
        (p.group options.maxDepth clause)[r.secondFile]? = some second ∧
        second.IsOf p options.maxDepth ∧ second.file.Binds r.name r.second) ∧
    (∀ before s after e, p.files = before ++ s :: after →
      s.parse options.maxDepth = .error e →
      let rest := check ⟨before ++ after⟩ options
      rest.packages = (p.check options).packages ∧ rest.trees = (p.check options).trees ∧
        (p.check options).Loses [.unparsed s.path e] rest) ∧
    ∀ clause, let rest := (p.without options.maxDepth clause).check options
      rest.trees = (if options.dump then
          ((p.members options.maxDepth).filter (·.clause ≠ clause)).map (·.tree) else []) ∧
        (p.check options).Loses (Member.report (p.group options.maxDepth clause)) rest := by
  refine ⟨p.check_eq options, ?_, ?_, p.check_without options⟩
  · intro clause r hr
    obtain ⟨first, second, hfirst, hsecond, hbinds, hbinds'⟩ := Member.exists_of_mem_errors hr
    have hof : ∀ (m : Member) (i : Nat), (p.group options.maxDepth clause)[i]? = some m →
        m.IsOf p options.maxDepth := fun m i hm =>
      p.isOf_of_mem options.maxDepth (List.mem_filter.mp (List.mem_of_getElem? hm)).1
    exact ⟨first, second, hfirst, hof _ _ hfirst, hbinds, hsecond, hof _ _ hsecond, hbinds'⟩
  · intro before s after e hfiles hs
    obtain ⟨files⟩ := p
    obtain rfl : files = before ++ s :: after := hfiles
    exact check_unparsed options hs

end Package

end GoSource
