/-
Files of one directory, loaded into one package.

Loading puts files together whose paths say that they are in one
directory. What paths say is decided by their parts: two files are in one
package if all parts of their paths but the last are the same, and then
only (`Package.load_parts`). Since the file system is not asked, this is
the directory that the files are in only as far as paths to one place are
spelled alike. A path that begins with a dot, such as that of a file found
in the directory `.`, and one that does not are never taken to lead to one
place, and neither are two that go up in different ways.

# Alike

Two paths are `Alike` if both consist of names only, or both of names
behind a dot. In a `Snapshot` such paths lead to the address that the names
make up. So of all that was named, by files or by directories, in whatever
order and number, files with paths alike are in one package if they are in
one directory, and they are loaded once. A name that two of them declare
is reported, since packages are checked one by one.
-/
import GoSource.Package.Load
import GoSource.Package.Snapshot
import GoSource.Proofs.Package.Reference

namespace GoSource

-- ================================================================ paths

namespace Path

/-- What an entry of a directory may be called. -/
structure IsName (name : String) : Prop where
  ne_empty : name ≠ ""
  no_slash : '/' ∉ name.toList
  ne_here : name ≠ "."
  ne_up : name ≠ ".."

theorem stretches_ne_nil (path : List Char) : stretches path ≠ [] := by
  cases path with
  | nil => exact List.cons_ne_nil _ _
  | cons c path =>
    unfold stretches
    split
    · exact List.cons_ne_nil _ _
    · split <;> exact List.cons_ne_nil _ _

theorem stretches_append (p q : List Char) :
    stretches (p ++ '/' :: q) = stretches p ++ stretches q := by
  induction p with
  | nil => rfl
  | cons c p ih =>
    rw [List.cons_append, stretches, stretches, ih]
    by_cases hc : c = '/'
    · rw [if_pos hc, if_pos hc, List.cons_append]
    · rw [if_neg hc, if_neg hc]
      cases hp : stretches p with
      | nil => exact absurd hp (stretches_ne_nil p)
      | cons s more => rfl

theorem stretches_of_no_slash {q : List Char} (hq : '/' ∉ q) : stretches q = [q] := by
  induction q with
  | nil => rfl
  | cons c q ih =>
    rw [List.mem_cons, not_or] at hq
    rw [stretches, if_neg (Ne.symm hq.1), ih hq.2]

/-- What the first stretch adds depends on the rest of the path only as far
as there is one. -/
theorem parts_of_stretches {p q : String} (hp : p ≠ "") (hq : q ≠ "") {d : List Char}
    {ss us : List (List Char)} (hps : stretches p.toList = stretches d ++ ss)
    (hqs : stretches q.toList = stretches d ++ us) :
    ∃ shared, parts p = shared ++ ss.filterMap laterPart ∧
      parts q = shared ++ us.filterMap laterPart := by
  have hfirst : ∀ {p : String}, p ≠ "" → ∀ stretch, firstPart p.toList stretch =
      if stretch = [] then some .root else if stretch = ['.'] then some .here
        else laterPart stretch := by
    intro p hp stretch
    have hne : p.toList ≠ [] := by simpa using hp
    rw [firstPart, if_neg hne]
  cases hd : stretches d with
  | nil => exact absurd hd (stretches_ne_nil d)
  | cons first later =>
    rw [hd] at hps hqs
    refine ⟨(firstPart p.toList first).toList ++ later.filterMap laterPart, ?_, ?_⟩
    · rw [parts, hps, List.append_assoc, ← List.filterMap_append]
      rfl
    · rw [parts, hqs, hfirst hp, ← hfirst hq, List.append_assoc, ← List.filterMap_append]
      rfl

theorem laterPart_of_isName {name : String} (h : IsName name) :
    laterPart name.toList = some (.name name) := by
  have hne : ∀ text : String, name ≠ text → name.toList ≠ text.toList := fun text hne heq =>
    hne (String.toList_inj.mp heq)
  have hempty : name.toList ≠ [] := hne "" h.ne_empty
  have hhere : name.toList ≠ ['.'] := hne "." h.ne_here
  have hup : name.toList ≠ ['.', '.'] := hne ".." h.ne_up
  simp [laterPart, hempty, hhere, hup, String.ofList_toList]

theorem parts_of_isName {name : String} (h : IsName name) : parts name = [.name name] := by
  have hempty : name.toList ≠ [] := by simpa using h.ne_empty
  have hhere : name.toList ≠ ['.'] := fun heq => h.ne_here (String.toList_inj.mp heq)
  rw [parts, stretches_of_no_slash h.no_slash]
  simp [firstPart, hempty, hhere, laterPart_of_isName h]

/-- An entry of a directory has one part more than the directory. -/
theorem parts_join (dir : String) {name : String} (h : IsName name) :
    parts (join dir name) = parts dir ++ [.name name] := by
  by_cases hdir : dir = ""
  · have hjoin : join "" name = name := by simp [join]
    rw [hdir, hjoin, parts_of_isName h]
    rfl
  have hname : stretches name.toList = [name.toList] := stretches_of_no_slash h.no_slash
  have hlater : [name.toList].filterMap laterPart = [.name name] := by
    rw [List.filterMap_cons, laterPart_of_isName h]
    rfl
  have hjoin : join dir name ≠ "" := by
    unfold join
    split <;> simp [hdir]
  by_cases hlast : dir.toList.getLast? = some '/'
  · obtain ⟨d, hd⟩ := List.getLast?_eq_some_iff.mp hlast
    have hstretches : stretches (join dir name).toList = stretches d ++ [name.toList] := by
      rw [join, if_pos (by simp [hlast]), String.toList_append, hd, List.append_assoc, ← hname]
      exact stretches_append d name.toList
    have hslash : stretches dir.toList = stretches d ++ [[]] := by
      rw [hd]
      exact stretches_append d []
    obtain ⟨shared, hparts, hparts'⟩ := parts_of_stretches hjoin hdir hstretches hslash
    have hempty : [[]].filterMap laterPart = [] := rfl
    rw [hparts, hparts', hlater, hempty, List.append_nil]
  · have hstretches : stretches (join dir name).toList = stretches dir.toList ++ [name.toList] := by
      rw [join, if_neg (by simp [hdir, hlast]), String.toList_append, String.toList_append,
        List.append_assoc, ← hname]
      exact stretches_append dir.toList name.toList
    have hnone : stretches dir.toList = stretches dir.toList ++ [] := (List.append_nil _).symm
    obtain ⟨shared, hparts, hparts'⟩ := parts_of_stretches hjoin hdir hstretches hnone
    rw [hparts, hparts', hlater, List.filterMap_nil, List.append_nil]

-- ========================================================== collections

/-- The parts of the directory that a path leads into. -/
def dir (path : String) : List PathPart := (parts path).dropLast

theorem mem_of_mem_ordered {paths : List String} {p : String} (h : p ∈ ordered paths) :
    p ∈ paths :=
  List.mem_mergeSort.mp ((eraseDupsBy_sublist _ _).subset h)

/-- Paths in order have different parts. -/
theorem ordered_pairwise (paths : List String) :
    (ordered paths).Pairwise fun p q => parts p ≠ parts q :=
  (pairwise_eraseDupsBy _ _).imp fun h heq => by simp [same, heq] at h

end Path

/-- Whatever is in a directory is called by a name. -/
def FileSystem.NamesEntries (fs : FileSystem Id) : Prop :=
  ∀ path entries, fs.entries path = .ok entries → ∀ e ∈ entries, Path.IsName e.name

namespace Package

-- ============================================================== loading

theorem bind_eq_ok {α β : Type} {x : ExceptT LoadError Id α} {f : α → ExceptT LoadError Id β}
    {b : β} (h : x >>= f = Except.ok b) : ∃ a, x = Except.ok a ∧ f a = Except.ok b := by
  cases x using Except.rec with
  | error e => exact nomatch h
  | ok a => exact ⟨a, rfl, h⟩

/-- What succeeds for a list succeeds for each of it. -/
theorem mapM_eq_ok {α β : Type} {f : α → ExceptT LoadError Id β} {as : List α} {bs : List β}
    (h : as.mapM f = (Except.ok bs : ExceptT LoadError Id (List β))) :
    List.Forall₂ (fun a b => f a = Except.ok b) as bs := by
  induction as generalizing bs with
  | nil =>
    cases h
    exact .nil
  | cons a as ih =>
    rw [List.mapM_cons] at h
    obtain ⟨b, hb, h⟩ := bind_eq_ok h
    obtain ⟨bs', hbs, h⟩ := bind_eq_ok h
    cases h
    exact .cons hb (ih hbs)

variable {fs : FileSystem Id}

/-- The files that a path stands for are in the directory they are put
under. -/
theorem dropLast_of_named (hfs : fs.NamesEntries) {path : String} {n : Named}
    (h : named fs path = Except.ok n) : ∀ f ∈ n.files, Path.dir f = n.dir := by
  unfold named at h
  obtain ⟨kind, -, h⟩ := bind_eq_ok h
  split at h
  · exact nomatch h
  · obtain ⟨entries, hentries, h⟩ := bind_eq_ok h
    cases entries with
    | error e => exact nomatch h
    | ok entries =>
      cases h
      intro f hf
      obtain ⟨e, he, rfl⟩ := List.mem_map.mp hf
      have hname := hfs path entries (Except.ok.inj hentries) e (List.mem_filter.mp he).1
      rw [Path.dir, Path.parts_join path hname, List.dropLast_concat]
  · cases h
    intro f hf
    rw [List.mem_singleton.mp hf, Path.dir]

theorem readSource_eq_ok {path : String} {source : Source}
    (h : readSource fs path = Except.ok source) :
    source.path = path ∧ ∃ bytes, fs.read source.path = .ok bytes := by
  unfold readSource at h
  obtain ⟨answer, hanswer, h⟩ := bind_eq_ok h
  cases answer with
  | error e => exact nomatch h
  | ok bytes =>
    dsimp only at h
    split at h
    · exact nomatch h
    · cases h
      exact ⟨rfl, bytes, Except.ok.inj hanswer⟩

/-- The paths of the files of a package. -/
def paths (p : Package) : List String := p.files.map (·.path)

theorem exists_of_forall₂ {α β : Type} {R : α → β → Prop} {as : List α} {bs : List β}
    (h : List.Forall₂ R as bs) : ∀ b ∈ bs, ∃ a ∈ as, R a b := by
  induction h with
  | nil => exact fun _ hb => absurd hb List.not_mem_nil
  | cons hb _ ih =>
    refine List.forall_mem_cons.mpr ⟨⟨_, List.mem_cons_self, hb⟩, fun b' hb' => ?_⟩
    obtain ⟨a, ha, hab⟩ := ih b' hb'
    exact ⟨a, List.mem_cons_of_mem _ ha, hab⟩

/-- Items of which each has something else as its image. -/
theorem map_eq_of_forall₂ {α β : Type} {g : β → α} {P : β → Prop} {as : List α} {bs : List β}
    (h : List.Forall₂ (fun a b => g b = a ∧ P b) as bs) : bs.map g = as ∧ ∀ b ∈ bs, P b := by
  induction h with
  | nil => exact ⟨rfl, fun _ hb => absurd hb List.not_mem_nil⟩
  | cons hb _ ih =>
    obtain ⟨rfl, hP⟩ := hb
    exact ⟨congrArg _ ih.1, List.forall_mem_cons.mpr ⟨hP, ih.2⟩⟩

/-- The packages that are loaded are the groups of what was named. -/
theorem load_eq_ok {args : List String} {packages : List Package}
    (h : load fs args = Except.ok packages) :
    ∃ names, (∀ n ∈ names, ∃ arg ∈ args, named fs arg = Except.ok n) ∧
      packages.map paths = grouped names ∧
      ∀ p ∈ packages, ∀ f ∈ p.files, ∃ bytes, fs.read f.path = .ok bytes := by
  unfold load at h
  obtain ⟨names, hnames, h⟩ := bind_eq_ok h
  obtain ⟨loaded, hloaded, h⟩ := bind_eq_ok h
  obtain rfl : loaded = packages := by
    split at h
    · exact nomatch h
    · exact Except.ok.inj h
  have hsources : ∀ (files : List String) (p : Package),
      (mk <$> files.mapM (readSource fs) : ExceptT LoadError Id Package) = Except.ok p →
      p.paths = files ∧ ∀ f ∈ p.files, ∃ bytes, fs.read f.path = .ok bytes := by
    intro files p hp
    obtain ⟨sources, hsources, hp⟩ := bind_eq_ok hp
    cases hp
    exact map_eq_of_forall₂ ((mapM_eq_ok hsources).imp fun _ _ => readSource_eq_ok)
  exact ⟨names, exists_of_forall₂ (mapM_eq_ok hnames),
    map_eq_of_forall₂ ((mapM_eq_ok hloaded).imp hsources)⟩

-- ============================================================== grouping

/-- Paths of different groups lead into different directories, those of
one group into the same, and no two paths have the same parts. -/
theorem grouped_parts {names : List Named} (h : ∀ n ∈ names, ∀ f ∈ n.files, Path.dir f = n.dir) :
    (grouped names).Pairwise (fun fs gs => ∀ f ∈ fs, ∀ g ∈ gs, Path.dir f ≠ Path.dir g) ∧
    ∀ fs ∈ grouped names, (∀ f ∈ fs, ∀ g ∈ fs, Path.dir f = Path.dir g) ∧
      fs.Pairwise fun f g => Path.parts f ≠ Path.parts g := by
  have hdir : ∀ d, ∀ f ∈ filesUnder names d, Path.dir f = d := by
    intro d f hf
    obtain ⟨n, hn, hf⟩ := List.mem_flatMap.mp (Path.mem_of_mem_ordered hf)
    obtain ⟨hn, hd⟩ := List.mem_filter.mp hn
    rw [h n hn f hf, of_decide_eq_true hd]
  constructor
  · refine .filter _ (List.pairwise_map.mpr ((nodup_eraseDups _).imp ?_))
    intro d e hne f hf g hg
    rwa [hdir d f hf, hdir e g hg]
  · intro fs hfs
    obtain ⟨d, -, rfl⟩ := List.mem_map.mp (List.mem_filter.mp hfs).1
    refine ⟨fun f hf g hg => ?_, Path.ordered_pairwise _⟩
    rw [hdir d f hf, hdir d g hg]

/-- Two files that are loaded are in one package if their paths say that
they are in one directory, and only then. No path is loaded twice. -/
theorem load_parts (hfs : fs.NamesEntries) {args : List String} {packages : List Package}
    (h : load fs args = Except.ok packages) :
    packages.Pairwise (fun p q => ∀ f ∈ p.files, ∀ g ∈ q.files, Path.dir f.path ≠ Path.dir g.path) ∧
    ∀ p ∈ packages, (∀ f ∈ p.files, ∀ g ∈ p.files, Path.dir f.path = Path.dir g.path) ∧
      p.files.Pairwise fun f g => Path.parts f.path ≠ Path.parts g.path := by
  obtain ⟨names, hnames, hpaths, -⟩ := load_eq_ok h
  have hdirs : ∀ n ∈ names, ∀ f ∈ n.files, Path.dir f = n.dir := by
    intro n hn
    obtain ⟨arg, -, hnamed⟩ := hnames n hn
    exact dropLast_of_named hfs hnamed
  obtain ⟨hapart, hone⟩ := grouped_parts hdirs
  rw [← hpaths, List.pairwise_map] at hapart
  rw [← hpaths] at hone
  refine ⟨hapart.imp ?_, fun p hp => ?_⟩
  · intro p q h f hf g hg
    exact h f.path (List.mem_map_of_mem hf) g.path (List.mem_map_of_mem hg)
  · obtain ⟨hsame, hparts⟩ := hone p.paths (List.mem_map_of_mem hp)
    rw [paths, List.pairwise_map] at hparts
    exact ⟨fun f hf g hg => hsame _ (List.mem_map_of_mem hf) _ (List.mem_map_of_mem hg), hparts⟩

end Package

-- ============================================================ snapshots

namespace Path

/-- Names only, behind a dot if `dotted`. -/
def Spells (dotted : Bool) (path : String) (names : List String) : Prop :=
  parts path = (if dotted then [.here] else []) ++ names.map .name

theorem head?_of_first {path first : List Char} {later : List (List Char)}
    (h : stretches path = first :: later) (hne : first ≠ []) : path.head? = first.head? := by
  cases path with
  | nil =>
    cases h
    exact absurd rfl hne
  | cons c path =>
    rw [stretches] at h
    split at h
    · cases h
      exact absurd rfl hne
    · split at h <;> cases h <;> rfl

theorem no_slash_of_first {path first : List Char} {later : List (List Char)}
    (h : stretches path = first :: later) : '/' ∉ first := by
  induction path generalizing first later with
  | nil =>
    cases h
    exact List.not_mem_nil
  | cons c path ih =>
    rw [stretches] at h
    split at h
    · cases h
      exact List.not_mem_nil
    · next hc =>
      split at h
      · cases h
        exact fun hmem => hc (List.mem_singleton.mp hmem).symm
      · next hrest =>
        cases h
        rw [List.mem_cons, not_or]
        exact ⟨fun heq => hc heq.symm, ih hrest⟩

/-- Such a path begins at the working directory, and its stretches add the
names and nothing else. -/
theorem stretches_of_spells {dotted : Bool} {path : String} {names : List String}
    (h : Spells dotted path names) : path.toList.head? ≠ some '/' ∧
      (stretches path.toList).filterMap laterPart = names.map .name := by
  cases hfirst : stretches path.toList with
  | nil => exact absurd hfirst (stretches_ne_nil _)
  | cons first later =>
    rw [Spells, parts, hfirst] at h
    change (firstPart path.toList first).toList ++ later.filterMap laterPart = _ at h
    by_cases hempty : first = []
    · subst hempty
      by_cases hpath : path.toList = []
      · rw [hpath] at hfirst h ⊢
        cases hfirst
        refine ⟨nofun, ?_⟩
        cases dotted
        · exact h
        · exact nomatch h
      · -- a path from the root is no path of names
        rw [firstPart, if_pos rfl, if_neg hpath] at h
        cases dotted <;> cases names <;> simp at h
    constructor
    · rw [head?_of_first hfirst hempty]
      exact fun hhead => no_slash_of_first hfirst (List.mem_of_head? hhead)
    · rw [firstPart, if_neg hempty] at h
      by_cases hhere : first = ['.']
      · subst hhere
        rw [if_pos rfl] at h
        cases dotted
        · cases names <;> simp at h
        · exact (List.cons.inj h).2
      · rw [if_neg hhere] at h
        obtain ⟨part, hpart, hne⟩ : ∃ part, laterPart first = some part ∧ part ≠ .here := by
          unfold laterPart
          rw [if_neg (by simp [hempty, hhere])]
          split
          · exact ⟨.up, rfl, nofun⟩
          · exact ⟨.name (.ofList first), rfl, nofun⟩
        rw [hpart] at h
        rw [List.filterMap_cons, hpart]
        cases dotted
        · exact h
        · exact absurd (List.cons.inj h).1 hne

/-- Paths that consist of names, both of them behind a dot or neither. -/
def Alike (p q : String) : Prop :=
  ∃ dotted names names', Spells dotted p names ∧ Spells dotted q names'

end Path

namespace Snapshot

/-- Names can be names, and the working directory is no file. -/
structure Proper (s : Snapshot) : Prop where
  isName : ∀ a ∈ s.addresses, ∀ name ∈ a, Path.IsName name
  directory : s.contentsAt [] = none

/-- The address that a path leads to. -/
def addressOf (s : Snapshot) (path : String) : Option Address :=
  match s.locate path with
  | .ok (.below a) => some a
  | _ => none

/-- The directory in which a path ends. -/
def directoryOf (s : Snapshot) (path : String) : Option Address :=
  (s.addressOf path).map List.dropLast

variable {s : Snapshot}

theorem Proper.namesEntries (hs : s.Proper) : s.fileSystem.NamesEntries := by
  intro path entries h e he
  change (s.locate path).map s.entriesOf = .ok entries at h
  cases hplace : s.locate path with
  | error _ =>
    rw [hplace] at h
    exact nomatch h
  | ok place =>
    rw [hplace] at h
    cases h
    cases place with
    | elsewhere => exact absurd he List.not_mem_nil
    | below a =>
      obtain ⟨name, hname, rfl⟩ := List.mem_map.mp he
      rw [namesBelow, List.mem_eraseDups] at hname
      obtain ⟨b, hb, hname⟩ := List.mem_filterMap.mp hname
      split at hname
      · exact hs.isName b hb name (List.mem_of_getElem? hname)
      · exact nomatch hname

/-- A step by a stretch that is no way up leads to what it is called, and
if it adds no part it leads nowhere else. -/
theorem follow_below {a : Address} {stretch : List Char} {place : Place}
    (h : s.follow (.below a) stretch = .ok place) (hup : Path.laterPart stretch ≠ some .up) :
    ∃ names, place = .below (a ++ names) ∧
      (Path.laterPart stretch).toList = names.map PathPart.name := by
  unfold Path.laterPart at hup ⊢
  unfold follow at h
  split at h
  · exact nomatch h
  split at h
  · next hnone =>
    cases h
    rw [if_pos hnone]
    exact ⟨[], by rw [List.append_nil], rfl⟩
  next hsome =>
  rw [if_neg hsome] at hup ⊢
  split at h
  · next hdots =>
    rw [if_pos hdots] at hup
    exact absurd rfl hup
  next hdots =>
  rw [if_neg hdots]
  split at h
  · exact nomatch h
  · dsimp only at h
    split at h
    · cases h
      exact ⟨[.ofList stretch], rfl, rfl⟩
    · exact nomatch h

theorem foldlM_follow {a : Address} {stretches : List (List Char)} {names : List String}
    {place : Place} (h : stretches.foldlM s.follow (.below a) = .ok place)
    (hnames : stretches.filterMap Path.laterPart = names.map .name) :
    place = .below (a ++ names) := by
  induction stretches generalizing a names with
  | nil =>
    obtain rfl : names = [] := List.map_eq_nil_iff.mp hnames.symm
    rw [List.append_nil]
    exact (Except.ok.inj h).symm
  | cons stretch stretches ih =>
    rw [List.foldlM_cons] at h
    cases hstep : s.follow (.below a) stretch with
    | error e =>
      rw [hstep] at h
      exact nomatch h
    | ok next =>
      rw [hstep] at h
      have hsplit : (Path.laterPart stretch).toList ++ stretches.filterMap Path.laterPart =
          names.map .name := by
        rw [← hnames, List.filterMap_cons]
        cases Path.laterPart stretch <;> rfl
      have hup : Path.laterPart stretch ≠ some .up := by
        intro hup
        have hmem : PathPart.up ∈ names.map .name := by
          rw [← hsplit, hup]
          exact List.mem_cons_self
        obtain ⟨_, -, hname⟩ := List.mem_map.mp hmem
        exact nomatch hname
      obtain ⟨first, rfl, hfirst⟩ := follow_below hstep hup
      obtain ⟨first', rest, rfl, hfirst', hrest⟩ := List.append_eq_map_iff.mp hsplit
      obtain rfl : first' = first := by
        rw [hfirst] at hfirst'
        exact List.map_injective_iff.mpr (fun _ _ => PathPart.name.inj) hfirst'
      rw [ih h hrest.symm, List.append_assoc]

/-- A path of names leads to the address they make up. -/
theorem locate_of_spells {path : String} {dotted : Bool} {names : List String} {place : Place}
    (hpath : Path.Spells dotted path names) (h : s.locate path = .ok place) :
    place = .below names := by
  obtain ⟨hstart, hnames⟩ := Path.stretches_of_spells hpath
  rw [locate, if_neg hstart] at h
  split at h
  · exact nomatch h
  split at h
  · exact nomatch h
  exact foldlM_follow h hnames

/-- What can be read is at an address below the working directory. -/
theorem Proper.addressOf_of_read (hs : s.Proper) {path : String} {bytes : List UInt8}
    (h : s.fileSystem.read path = .ok bytes) : ∃ a, s.addressOf path = some a ∧ a ≠ [] := by
  change (s.locate path).bind s.readAt = .ok bytes at h
  unfold addressOf
  cases hplace : s.locate path with
  | error e =>
    rw [hplace] at h
    exact nomatch h
  | ok place =>
    rw [hplace] at h
    cases place with
    | elsewhere => exact nomatch h
    | below a =>
      refine ⟨a, rfl, ?_⟩
      rintro rfl
      change s.readAt (.below []) = .ok bytes at h
      rw [readAt, hs.directory] at h
      exact nomatch h

theorem addressOf_of_spells {path : String} {dotted : Bool} {names : List String} {a : Address}
    (hpath : Path.Spells dotted path names) (h : s.addressOf path = some a) : a = names := by
  unfold addressOf at h
  split at h
  · next hplace =>
    cases h
    have hbelow := locate_of_spells hpath hplace
    exact Place.below.inj hbelow
  · exact nomatch h

variable {p q : String}

/-- What is known of two paths alike that lead to files. -/
theorem alike_addresses (hs : s.Proper) (h : Path.Alike p q) {bytes bytes' : List UInt8}
    (hp : s.fileSystem.read p = .ok bytes) (hq : s.fileSystem.read q = .ok bytes') :
    ∃ dotted names names', Path.Spells dotted p names ∧ Path.Spells dotted q names' ∧
      s.addressOf p = some names ∧ s.addressOf q = some names' ∧ names ≠ [] ∧ names' ≠ [] := by
  obtain ⟨dotted, names, names', hspells, hspells'⟩ := h
  obtain ⟨a, ha, hne⟩ := hs.addressOf_of_read hp
  obtain ⟨a', ha', hne'⟩ := hs.addressOf_of_read hq
  obtain rfl := addressOf_of_spells hspells ha
  obtain rfl := addressOf_of_spells hspells' ha'
  exact ⟨dotted, a, a', hspells, hspells', ha, ha', hne, hne'⟩

theorem dir_of_spells {dotted : Bool} {names : List String} (h : Path.Spells dotted p names)
    (hne : names ≠ []) :
    Path.dir p = (if dotted then [.here] else []) ++ names.dropLast.map .name := by
  have hmap : names.map PathPart.name ≠ [] := by simpa using hne
  rw [Path.dir, h, List.dropLast_append_of_ne_nil hmap, List.map_dropLast]

/-- Files at one address have paths with the same parts, if they are
alike. -/
theorem parts_of_alike (hs : s.Proper) (h : Path.Alike p q) {bytes bytes' : List UInt8}
    (hp : s.fileSystem.read p = .ok bytes) (hq : s.fileSystem.read q = .ok bytes')
    (heq : s.addressOf p = s.addressOf q) : Path.parts p = Path.parts q := by
  obtain ⟨dotted, names, names', hspells, hspells', ha, ha', -⟩ := alike_addresses hs h hp hq
  rw [ha, ha'] at heq
  rw [hspells, hspells', Option.some.inj heq]

/-- Files in one directory have paths that say so, if they are alike. -/
theorem dir_of_alike (hs : s.Proper) (h : Path.Alike p q) {bytes bytes' : List UInt8}
    (hp : s.fileSystem.read p = .ok bytes) (hq : s.fileSystem.read q = .ok bytes')
    (heq : s.directoryOf p = s.directoryOf q) : Path.dir p = Path.dir q := by
  obtain ⟨dotted, names, names', hspells, hspells', ha, ha', hne, hne'⟩ :=
    alike_addresses hs h hp hq
  rw [directoryOf, directoryOf, ha, ha'] at heq
  rw [dir_of_spells hspells hne, dir_of_spells hspells' hne', Option.some.inj heq]

end Snapshot

-- ============================================================== reports

/-- A report says of a name that it is declared again. -/
def Report.Redeclares (report : Report) (name : String) : Prop :=
  ∃ path r first, .redeclared path r first ∈ report.diagnostics ∧ r.name = name

namespace Package

/-- A name that two files of a package declare under one clause is
reported. -/
theorem check_redeclares {p : Package} {f g : Source} {options : Options} {file file' : File}
    {name : String} (h : [f, g].Sublist p.files) (hf : f.parse options.maxDepth = .ok file)
    (hg : g.parse options.maxDepth = .ok file') (hclause : file.name.name = file'.name.name)
    (hfile : file.Declares name) (hfile' : file'.Declares name) :
    (p.check options).Redeclares name := by
  have hparsed : [(f.path, file), (g.path, file')].Sublist (p.parsedFiles options.maxDepth) := by
    have hboth : [(f.path, file), (g.path, file')] =
        [f, g].filterMap fun s => (s.parse options.maxDepth).toOption.map (s.path, ·) := by
      simp [hf, hg, Except.toOption]
    rw [hboth]
    exact h.filterMap _
  have hgroup : [(f.path, file), (g.path, file')].Sublist
      (withClause (p.parsedFiles options.maxDepth) file.name.name) := by
    have hboth : [(f.path, file), (g.path, file')] =
        [(f.path, file), (g.path, file')].filter (clauseOf · = file.name.name) := by
      simp [clauseOf, hclause]
    rw [hboth]
    exact hparsed.filter _
  obtain ⟨r, hr, hname⟩ := resolve_redeclares (hgroup.map Prod.snd) hfile hfile'
  have hclauses : file.name.name ∈ clauses (p.parsedFiles options.maxDepth) :=
    mem_clauses.mpr ⟨(f.path, file), hparsed.subset List.mem_cons_self, rfl⟩
  have hresolved : redeclarationIn _ r ∈ resolved (p.parsedFiles options.maxDepth) :=
    List.mem_flatMap.mpr ⟨_, hclauses, List.mem_map_of_mem hr⟩
  have hreport := List.mem_append_right (p.parseErrors options.maxDepth) hresolved
  rw [← (p.check_parts options).2.1] at hreport
  exact ⟨_, r, _, hreport, hname⟩

theorem mem_checkAll {packages : List Package} {p : Package} (hp : p ∈ packages) {options : Options}
    {d : Diagnostic} (hd : d ∈ (p.check options).diagnostics) :
    d ∈ (checkAll packages options).diagnostics := by
  induction packages with
  | nil => exact absurd hp List.not_mem_nil
  | cons q packages ih =>
    rcases List.mem_cons.mp hp with rfl | hp
    · exact List.mem_append_left _ hd
    · exact List.mem_append_right _ (ih hp)

/-- Of two items one comes first. -/
theorem pair_sublist {α : Type} {l : List α} {x y : α} (hx : x ∈ l) (hy : y ∈ l) (hne : x ≠ y) :
    [x, y].Sublist l ∨ [y, x].Sublist l := by
  obtain ⟨before, after, rfl⟩ := List.append_of_mem hx
  rcases List.mem_append.mp hy with hy | hy
  · exact .inr ((List.singleton_sublist.mpr hy).append (List.singleton_sublist.mpr
      List.mem_cons_self))
  · have hafter : y ∈ after := (List.mem_cons.mp hy).resolve_left (Ne.symm hne)
    exact .inl (((List.singleton_sublist.mpr hafter).cons_cons x).trans
      (List.sublist_append_right before _))

/-- Files are in one package if packages are apart by what paths say. -/
theorem exists_package_of_dir {packages : List Package} {f g : Source}
    (h : packages.Pairwise fun p q => ∀ f ∈ p.files, ∀ g ∈ q.files,
      Path.dir f.path ≠ Path.dir g.path)
    (hf : f ∈ packages.flatMap (·.files)) (hg : g ∈ packages.flatMap (·.files))
    (hdir : Path.dir f.path = Path.dir g.path) : ∃ p ∈ packages, f ∈ p.files ∧ g ∈ p.files := by
  obtain ⟨p, hp, hfp⟩ := List.mem_flatMap.mp hf
  obtain ⟨q, hq, hgq⟩ := List.mem_flatMap.mp hg
  have hsymm : Std.Symm fun p q : Package => ∀ f ∈ p.files, ∀ g ∈ q.files,
      Path.dir f.path ≠ Path.dir g.path :=
    ⟨fun _ _ h f hf g hg heq => h g hg f hf heq.symm⟩
  obtain rfl : p = q := by
    by_contra hpq
    exact h.forall hp hq hpq f hfp g hgq hdir
  exact ⟨p, hp, hfp, hgq⟩

/-- Files that are loaded are at addresses. Those in one directory are in
one package, and none is loaded twice, as far as their paths are alike. A
name that two such files declare under one package clause is reported,
whatever the arguments were. -/
theorem load_by_directory {s : Snapshot} (hs : s.Proper) {args : List String}
    {packages : List Package} (h : load s.fileSystem args = Except.ok packages) :
    (∀ f ∈ packages.flatMap (·.files), ∃ a, s.addressOf f.path = some a) ∧
    packages.Pairwise (fun p q => ∀ f ∈ p.files, ∀ g ∈ q.files, Path.Alike f.path g.path →
      s.directoryOf f.path ≠ s.directoryOf g.path) ∧
    (packages.flatMap (·.files)).Pairwise (fun f g => Path.Alike f.path g.path →
      s.addressOf f.path ≠ s.addressOf g.path) ∧
    ∀ options : Options, ∀ f ∈ packages.flatMap (·.files), ∀ g ∈ packages.flatMap (·.files), f ≠ g →
      Path.Alike f.path g.path → s.directoryOf f.path = s.directoryOf g.path →
      ∀ file file', f.parse options.maxDepth = .ok file → g.parse options.maxDepth = .ok file' →
        file.name.name = file'.name.name →
        ∀ name, file.Declares name → file'.Declares name →
          (checkAll packages options).Redeclares name := by
  obtain ⟨-, -, -, hread⟩ := load_eq_ok h
  obtain ⟨hapart, hone⟩ := load_parts hs.namesEntries h
  have hloaded : ∀ f ∈ packages.flatMap (·.files),
      ∃ bytes, s.fileSystem.read f.path = .ok bytes := by
    intro f hf
    obtain ⟨p, hp, hf⟩ := List.mem_flatMap.mp hf
    exact hread p hp f hf
  have hdirs : packages.Pairwise (fun p q => ∀ f ∈ p.files, ∀ g ∈ q.files,
      Path.Alike f.path g.path → s.directoryOf f.path ≠ s.directoryOf g.path) := by
    refine hapart.imp_of_mem fun hp hq hpq f hf g hg halike heq => hpq f hf g hg ?_
    obtain ⟨bytes, hbytes⟩ := hread _ hp f hf
    obtain ⟨bytes', hbytes'⟩ := hread _ hq g hg
    exact Snapshot.dir_of_alike hs halike hbytes hbytes' heq
  have hparts : (packages.flatMap (·.files)).Pairwise fun f g =>
      Path.parts f.path ≠ Path.parts g.path := by
    refine List.pairwise_flatMap.mpr ⟨fun p hp => (hone p hp).2, hapart.imp ?_⟩
    exact fun hpq f hf g hg heq => hpq f hf g hg (congrArg List.dropLast heq)
  refine ⟨fun f hf => ?_, hdirs, ?_, ?_⟩
  · obtain ⟨bytes, hbytes⟩ := hloaded f hf
    obtain ⟨a, ha, -⟩ := hs.addressOf_of_read hbytes
    exact ⟨a, ha⟩
  · refine hparts.imp_of_mem fun hf hg hne halike heq => hne ?_
    obtain ⟨bytes, hbytes⟩ := hloaded _ hf
    obtain ⟨bytes', hbytes'⟩ := hloaded _ hg
    exact Snapshot.parts_of_alike hs halike hbytes hbytes' heq
  · intro options f hf g hg hne halike heq file file' hfile hfile' hclause name hname hname'
    obtain ⟨bytes, hbytes⟩ := hloaded f hf
    obtain ⟨bytes', hbytes'⟩ := hloaded g hg
    obtain ⟨p, hp, hfp, hgp⟩ := exists_package_of_dir hapart hf hg
      (Snapshot.dir_of_alike hs halike hbytes hbytes' heq)
    obtain ⟨path, r, first, hreport, hr⟩ : (p.check options).Redeclares name := by
      rcases pair_sublist hfp hgp hne with hpair | hpair
      · exact check_redeclares hpair hfile hfile' hclause hname hname'
      · exact check_redeclares hpair hfile' hfile hclause.symm hname' hname
    exact ⟨path, r, first, mem_checkAll hp hreport, hr⟩

/-- Two files in the working directory that declare one name. -/
def twoFiles : Snapshot :=
  ⟨[(["a.go"], "package p; var X = 1".toUTF8.toList),
    (["b.go"], "package p; var X = 2".toUTF8.toList)], []⟩

theorem load_eq {fs : FileSystem Id} {args : List String} {names : List Named}
    {packages : List Package} (hnames : args.mapM (named fs) = Except.ok names)
    (hpackages : ((grouped names).mapM fun files => mk <$> files.mapM (readSource fs)) =
      (Except.ok packages : ExceptT LoadError Id _)) (hne : packages.isEmpty = false) :
    load fs args = Except.ok packages := by
  unfold load
  rw [hnames]
  show ((grouped names).mapM fun files => mk <$> files.mapM (readSource fs)) >>= _ = _
  rw [hpackages]
  show (if packages.isEmpty = true then _ else _) = _
  rw [hne]
  rfl

/-- Two files of one directory, with paths that are not alike, are in two
packages, and what both declare is not reported. -/
theorem load_apart :
    twoFiles.directoryOf "a.go" = some [] ∧ twoFiles.directoryOf "./b.go" = some [] ∧
      load twoFiles.fileSystem ["a.go", "./b.go"] =
        Except.ok [⟨[⟨"a.go", "package p; var X = 1"⟩]⟩, ⟨[⟨"./b.go", "package p; var X = 2"⟩]⟩] ∧
      (checkAll [⟨[⟨"a.go", "package p; var X = 1"⟩]⟩, ⟨[⟨"./b.go", "package p; var X = 2"⟩]⟩]
        ⟨30, false⟩).isClean = true := by
  have hnames : ["a.go", "./b.go"].mapM (named twoFiles.fileSystem) =
      Except.ok [⟨[], ["a.go"]⟩, ⟨[.here], ["./b.go"]⟩] := by
    show (_ : Except LoadError (List Named)) = _
    decide +kernel
  have hgrouped : grouped [⟨[], ["a.go"]⟩, ⟨[.here], ["./b.go"]⟩] = [["a.go"], ["./b.go"]] := by
    rw [grouped, directories, List.mergeSort_of_pairwise (by decide +kernel)]
    decide +kernel
  refine ⟨by decide +kernel, by decide +kernel, load_eq hnames ?_ rfl, ?_⟩
  · rw [hgrouped]
    show (_ : Except LoadError (List Package)) = _
    decide +kernel
  · decide +kernel

/-- The same files, one of them named and both in the directory named. -/
theorem load_by_directory_both :
    twoFiles.Proper ∧ ∃ packages, load twoFiles.fileSystem ["./a.go", "."] =
        Except.ok packages ∧
    (∀ f ∈ packages.flatMap (·.files), ∃ a, twoFiles.addressOf f.path = some a) ∧
    packages.Pairwise (fun p q => ∀ f ∈ p.files, ∀ g ∈ q.files, Path.Alike f.path g.path →
      twoFiles.directoryOf f.path ≠ twoFiles.directoryOf g.path) ∧
    (packages.flatMap (·.files)).Pairwise (fun f g => Path.Alike f.path g.path →
      twoFiles.addressOf f.path ≠ twoFiles.addressOf g.path) ∧
    ∀ options : Options, ∀ f ∈ packages.flatMap (·.files), ∀ g ∈ packages.flatMap (·.files), f ≠ g →
      Path.Alike f.path g.path → twoFiles.directoryOf f.path = twoFiles.directoryOf g.path →
      ∀ file file', f.parse options.maxDepth = .ok file → g.parse options.maxDepth = .ok file' →
        file.name.name = file'.name.name →
        ∀ name, file.Declares name → file'.Declares name →
          (checkAll packages options).Redeclares name := by
  have hname : ∀ name ∈ ["a.go", "b.go"], Path.IsName name := by
    intro name hname
    obtain rfl | rfl : name = "a.go" ∨ name = "b.go" := by simpa using hname
    · exact ⟨by decide, by decide, by decide, by decide⟩
    · exact ⟨by decide, by decide, by decide, by decide⟩
  have hproper : twoFiles.Proper := by
    refine ⟨fun a ha name hmem => hname name ?_, rfl⟩
    obtain rfl | rfl : a = ["a.go"] ∨ a = ["b.go"] := by
      simpa [Snapshot.addresses, twoFiles] using ha
    · rw [List.mem_singleton.mp hmem]
      decide
    · rw [List.mem_singleton.mp hmem]
      decide
  have hnames : ["./a.go", "."].mapM (named twoFiles.fileSystem) =
      Except.ok [⟨[.here], ["./a.go"]⟩, ⟨[.here], ["./a.go", "./b.go"]⟩] := by
    show (_ : Except LoadError (List Named)) = _
    decide +kernel
  have hfiles : filesUnder [⟨[.here], ["./a.go"]⟩, ⟨[.here], ["./a.go", "./b.go"]⟩] [.here] =
      ["./a.go", "./b.go"] := by
    rw [filesUnder, Path.ordered, List.mergeSort_of_pairwise (by decide +kernel)]
    decide +kernel
  have hgrouped : grouped [⟨[.here], ["./a.go"]⟩, ⟨[.here], ["./a.go", "./b.go"]⟩] =
      [["./a.go", "./b.go"]] := by
    have hdirs : directories [⟨[.here], ["./a.go"]⟩, ⟨[.here], ["./a.go", "./b.go"]⟩] =
        [[.here]] := by
      rw [directories, List.mergeSort_of_pairwise (by decide +kernel)]
      decide +kernel
    rw [grouped, hdirs, List.map_singleton, hfiles]
    decide +kernel
  have hload : load twoFiles.fileSystem ["./a.go", "."] = Except.ok
      [⟨[⟨"./a.go", "package p; var X = 1"⟩, ⟨"./b.go", "package p; var X = 2"⟩]⟩] := by
    refine load_eq hnames ?_ rfl
    rw [hgrouped]
    show (_ : Except LoadError (List Package)) = _
    decide +kernel
  exact ⟨hproper, _, hload, load_by_directory hproper hload⟩

end Package

end GoSource
