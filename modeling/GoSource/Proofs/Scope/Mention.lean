/-
What redeclarations depend on.

A redeclaration names a name, two places and two files. Of an attempt to
bind a name, what it would be bound to plays no part in it: what is left
is a mention of the name (`Mention`), and resolving reports the same for
attempts that mention the same (`Attempt.redeclarations_congr`). What a
file mentions can be said of the file alone, so what is reported of some
files does not change if their nodes get other numbers
(`resolve_errors_congr`).

Whatever is reported mentions a name in two of the files, by their
positions (`resolve_errors_bind`).
-/
import Mathlib.Data.List.Flatten
import GoSource.Proofs.Arena.Renumber
import GoSource.Proofs.Scope.Binding

namespace GoSource

-- ============================================================= mentions

/-- A name where it would be bound. -/
structure Mention where
  owner : Owner
  name : String
  place : Location
  file : Nat

namespace Mention

def key (m : Mention) : Owner × String := (m.owner, m.name)

/-- The error if a name is mentioned again. -/
def against (m first : Mention) : Redeclaration :=
  ⟨m.name, first.place, m.place, first.file, m.file⟩

end Mention

namespace Attempt

variable {as bs : List Attempt} {a b : Attempt}

def mention (a : Attempt) : Mention := ⟨a.owner, a.bound.name, a.bound.place, a.bound.file⟩

theorem first?_mention (as : List Attempt) (key : Owner × String) :
    (first? as key).map mention = (as.map mention).find? (·.key = key) := by
  rw [List.find?_map]
  rfl

theorem against_first? (as : List Attempt) (a : Attempt) : (first? as a.key).map a.against =
    ((as.map mention).find? (·.key = a.mention.key)).map a.mention.against := by
  have hkey : a.mention.key = a.key := rfl
  rw [hkey, ← first?_mention, Option.map_map]
  rfl

/-- Attempts that mention the same come to the same errors. -/
theorem redeclarations_congr (h : as.map mention = bs.map mention) :
    redeclarations as = redeclarations bs := by
  induction as using List.reverseRecOn generalizing bs with
  | nil =>
    obtain rfl : bs = [] := List.map_eq_nil_iff.mp h.symm
    rfl
  | append_singleton as a ih =>
    rcases List.eq_nil_or_concat bs with rfl | ⟨bs, b, rfl⟩
    · rw [List.map_nil, List.map_eq_nil_iff] at h
      exact absurd h (List.append_ne_nil_of_right_ne_nil _ (List.cons_ne_nil _ _))
    · rw [List.concat_eq_append, List.map_append, List.map_append] at h
      obtain ⟨hbefore, hlast⟩ := List.append_inj' h rfl
      obtain hmention : a.mention = b.mention := (List.cons.inj hlast).1
      rw [List.concat_eq_append, redeclarations_append, redeclarations_append, ih hbefore,
        against_first?, against_first?, hbefore, hmention]

/-- An error is about two of the attempts. -/
theorem exists_of_mem_redeclarations {r : Redeclaration} (h : r ∈ redeclarations as) :
    ∃ a ∈ as, ∃ first ∈ as, a.key = first.key ∧ r = a.against first := by
  obtain ⟨⟨a, i⟩, ha, hr⟩ := List.mem_filterMap.mp h
  obtain ⟨first, hfirst, rfl⟩ := Option.map_eq_some_iff.mp hr
  have hkey := List.find?_some hfirst
  refine ⟨a, List.fst_mem_of_mem_zipIdx ha, first, ?_, ?_, rfl⟩
  · exact List.mem_of_mem_take (List.mem_of_find?_eq_some hfirst)
  · exact (of_decide_eq_true hkey).symm

/-- Of two attempts for one name the second is reported. -/
theorem exists_redeclaration (h : [a, b].Sublist as) (hkey : a.key = b.key) :
    ∃ r ∈ redeclarations as, r.name = b.bound.name := by
  induction as using List.reverseRecOn with
  | nil => exact nomatch h
  | append_singleton as c ih =>
    rw [redeclarations_append]
    obtain ⟨before, last, hsplit, hbefore, hlast⟩ := List.sublist_append_iff.mp h
    rcases List.sublist_singleton.mp hlast with rfl | rfl
    · rw [List.append_nil] at hsplit
      obtain ⟨r, hr, hname⟩ := ih (hsplit ▸ hbefore)
      exact ⟨r, List.mem_append_left _ hr, hname⟩
    · have hsplit : [a] ++ [b] = before ++ [c] := hsplit
      obtain ⟨rfl, hb⟩ := List.append_inj' hsplit rfl
      obtain rfl : b = c := (List.cons.inj hb).1
      have ha : a ∈ as := List.singleton_sublist.mp hbefore
      cases hfirst : first? as b.key with
      | none =>
        rw [first?_eq_none, ← hkey] at hfirst
        exact absurd (List.mem_map_of_mem ha) hfirst
      | some first => exact ⟨b.against first, List.mem_append_right _ List.mem_cons_self, rfl⟩

end Attempt

-- ================================================================ files

/-- What an import mentions in a file. -/
def ImportSpec.mentions (file : Nat) (spec : ImportSpec) : List Mention :=
  spec.boundName.toList.map fun name => ⟨.file file, name, spec.place, file⟩

/-- What a declaration mentions in a file. -/
def DeclForm.mentions (file : Nat) (form : DeclForm) : List Mention :=
  (form.names.filter (·.name ≠ blank)).map fun n => ⟨.package, n.name, n.span.start, file⟩

namespace File

/-- What a file mentions: its imports, then its declarations. -/
def mentions (file : Nat) (f : File) : List Mention :=
  f.importSpecs.flatMap (·.mentions file) ++ f.decls.flatMap (·.form.mentions file)

/-- A file binds a name at a place. -/
def Binds (f : File) (name : String) (place : Location) : Prop :=
  (∃ spec ∈ f.importSpecs, spec.boundName = some name ∧ spec.place = place) ∨
  ∃ d ∈ f.decls, ∃ n ∈ d.form.names, n.name ≠ blank ∧ n.name = name ∧ n.span.start = place

end File

theorem Tally.mention_collect {α : Type} {attempts : Tally → α → List Attempt}
    {add : Tally → α → Tally} {mentions : α → List Mention}
    (h : ∀ t a, (attempts t a).map (·.mention) = mentions a) (t : Tally) (items : List α) :
    (t.collect attempts add items).map (·.mention) = items.flatMap mentions := by
  induction items generalizing t with
  | nil => rfl
  | cons a items ih => rw [Tally.collect, List.map_append, h, ih, List.flatMap_cons]

theorem ImportSpec.mention_attempts (file : Nat) (t : Tally) (spec : ImportSpec) :
    (spec.attempts file t).map (·.mention) = spec.mentions file := by
  rw [attempts, List.map_map]
  rfl

theorem Tally.mention_declAttempts (file : Nat) (t : Tally) (decl : Decl) :
    (t.declAttempts file decl).map (·.mention) = decl.form.mentions file := by
  have hfrom : ∀ (names : List Ident) (k : Nat),
      ((names.zipIdx k).flatMap fun q => Attempt.ofName .package file q.1.name q.1.span.start
        (t.bindingOf decl q.2)).map (·.mention) =
      (names.filter (·.name ≠ blank)).map fun n => ⟨.package, n.name, n.span.start, file⟩ := by
    intro names
    induction names with
    | nil => exact fun k => rfl
    | cons n names ih =>
      intro k
      rw [List.zipIdx_cons, List.flatMap_cons, List.map_append, ih]
      by_cases hn : n.name = blank
      · simp [Attempt.ofName, hn]
      · simp [Attempt.ofName, hn, Attempt.mention]
  exact hfrom decl.form.names 0

theorem File.mention_attempts (t : Tally) (f : File) :
    (f.attempts t).map (·.mention) = f.mentions t.files := by
  rw [attempts, List.map_append, Tally.mention_collect (ImportSpec.mention_attempts _),
    Tally.mention_collect (Tally.mention_declAttempts _)]
  rfl

/-- All that files mention. -/
theorem mention_attempts (files : List File) : (attempts files).map (·.mention) =
    files.zipIdx.flatMap fun p => p.1.mentions p.2 := by
  have hfrom : ∀ (files : List File) (t : Tally),
      (t.collect File.attempts File.tally files).map (·.mention) =
        (files.zipIdx t.files).flatMap fun p => p.1.mentions p.2 := by
    intro files
    induction files with
    | nil => exact fun t => rfl
    | cons f files ih =>
      intro t
      rw [Tally.collect, List.map_append, File.mention_attempts, ih, File.files_tally,
        List.zipIdx_cons, List.flatMap_cons]
  exact hfrom files ⟨0, 1, 0, 0⟩

theorem File.binds_of_mem_mentions {f : File} {file : Nat} {m : Mention}
    (h : m ∈ f.mentions file) : m.file = file ∧ f.Binds m.name m.place := by
  rcases List.mem_append.mp h with h | h
  · obtain ⟨spec, hspec, hm⟩ := List.mem_flatMap.mp h
    obtain ⟨name, hname, rfl⟩ := List.mem_map.mp hm
    exact ⟨rfl, .inl ⟨spec, hspec, Option.mem_toList.mp hname, rfl⟩⟩
  · obtain ⟨d, hd, hm⟩ := List.mem_flatMap.mp h
    obtain ⟨n, hn, rfl⟩ := List.mem_map.mp hm
    obtain ⟨hn, hblank⟩ := List.mem_filter.mp hn
    exact ⟨rfl, .inr ⟨d, hd, n, hn, of_decide_eq_true hblank, rfl, rfl⟩⟩

/-- An attempt is made for a name in one of the files. -/
theorem exists_of_mem_attempts {files : List File} {a : Attempt} (h : a ∈ attempts files) :
    ∃ f, files[a.bound.file]? = some f ∧ f.Binds a.bound.name a.bound.place := by
  have hmention : a.mention ∈ (attempts files).map (·.mention) := List.mem_map_of_mem h
  rw [mention_attempts] at hmention
  obtain ⟨⟨f, i⟩, hf, hm⟩ := List.mem_flatMap.mp hmention
  obtain ⟨hfile, hbinds⟩ := File.binds_of_mem_mentions hm
  have hlookup := List.mem_zipIdx_iff_getElem?.mp hf
  rw [← hfile] at hlookup
  exact ⟨f, hlookup, hbinds⟩

/-- Each error is about two of the files, which bind the name where it
says. -/
theorem resolve_errors_bind {files : List File} {r : Redeclaration}
    (h : r ∈ (resolve files).errors.toList) :
    (∃ f, files[r.firstFile]? = some f ∧ f.Binds r.name r.first) ∧
      ∃ f, files[r.secondFile]? = some f ∧ f.Binds r.name r.second := by
  rw [(resolve_follows files).1.errors] at h
  obtain ⟨a, ha, first, hfirst, hkey, rfl⟩ := Attempt.exists_of_mem_redeclarations h
  have hname : a.bound.name = first.bound.name := congrArg Prod.snd hkey
  have hbinds := exists_of_mem_attempts hfirst
  rw [← hname] at hbinds
  exact ⟨hbinds, exists_of_mem_attempts ha⟩

/-- A file declares a name for its package. -/
def File.Declares (f : File) (name : String) : Prop :=
  ∃ d ∈ f.decls, ∃ n ∈ d.form.names, n.name = name ∧ name ≠ blank

theorem File.Declares.mention {f : File} {name : String} (h : f.Declares name) (file : Nat) :
    ∃ m ∈ f.mentions file, m.key = (.package, name) := by
  obtain ⟨d, hd, n, hn, rfl, hblank⟩ := h
  have hmention : ⟨.package, n.name, n.span.start, file⟩ ∈ d.form.mentions file :=
    List.mem_map_of_mem (List.mem_filter.mpr ⟨hn, decide_eq_true hblank⟩)
  exact ⟨_, List.mem_append_right _ (List.mem_flatMap.mpr ⟨d, hd, hmention⟩), rfl⟩

/-- Two items in order come from two items in order. -/
theorem pair_sublist_map {α β : Type} {g : α → β} {l : List α} {x y : β}
    (h : [x, y].Sublist (l.map g)) : ∃ a b, [a, b].Sublist l ∧ g a = x ∧ g b = y := by
  obtain ⟨pair, hpair, hmap⟩ := List.sublist_map_iff.mp h
  match pair, hmap with
  | [a, b], hmap =>
    obtain ⟨hx, hmap⟩ := List.cons.inj hmap
    exact ⟨a, b, hpair, hx.symm, (List.cons.inj hmap).1.symm⟩

/-- A name that two files declare is reported. -/
theorem resolve_redeclares {files : List File} {f g : File} {name : String}
    (h : [f, g].Sublist files) (hf : f.Declares name) (hg : g.Declares name) :
    ∃ r ∈ (resolve files).errors.toList, r.name = name := by
  rw [← List.zipIdx_map_fst 0 files] at h
  obtain ⟨⟨f, i⟩, ⟨g, j⟩, hpairs, rfl, rfl⟩ := pair_sublist_map h
  obtain ⟨m, hm, hkey⟩ := hf.mention i
  obtain ⟨m', hm', hkey'⟩ := hg.mention j
  have hmentions : [m, m'].Sublist (files.zipIdx.flatMap fun p => p.1.mentions p.2) := by
    refine .trans ?_ (hpairs.flatMap _)
    rw [List.flatMap_cons, List.flatMap_singleton]
    exact (List.singleton_sublist.mpr hm).append (List.singleton_sublist.mpr hm')
  rw [← mention_attempts] at hmentions
  obtain ⟨a, b, hattempts, rfl, rfl⟩ := pair_sublist_map hmentions
  obtain ⟨r, hr, hname⟩ := Attempt.exists_redeclaration hattempts (hkey.trans hkey'.symm)
  rw [← (resolve_follows files).1.errors] at hr
  exact ⟨r, hr, hname.trans (congrArg Prod.snd hkey')⟩

/-- What resolving reports depends on what the files mention. -/
theorem resolve_errors_congr {files files' : List File}
    (h : List.Forall₂ (fun f g => ∀ i, f.mentions i = g.mentions i) files files') :
    (resolve files).errors.toList = (resolve files').errors.toList := by
  have hfrom : ∀ k, ((files.zipIdx k).flatMap fun p => p.1.mentions p.2) =
      (files'.zipIdx k).flatMap fun p => p.1.mentions p.2 := by
    induction h with
    | nil => exact fun k => rfl
    | cons hf _ ih =>
      intro k
      rw [List.zipIdx_cons, List.zipIdx_cons, List.flatMap_cons, List.flatMap_cons, ih, hf]
  rw [(resolve_follows files).1.errors, (resolve_follows files').1.errors]
  apply Attempt.redeclarations_congr
  rw [mention_attempts, mention_attempts, hfrom 0]

-- ====================================================== other numbers

namespace Renumber

variable (δ : NodeKind → Nat)

theorem form_decl (d : Decl) : (decl δ d).form = declForm δ d.form := by
  cases d
  rfl

theorem importSpecs_declForm (form : DeclForm) :
    (declForm δ form).importSpecs = form.importSpecs := by
  cases form <;> rfl

/-- What a file mentions has nothing to do with the numbers of its nodes. -/
theorem mentions_file (f : File) (i : Nat) : (file δ f).mentions i = f.mentions i := by
  have hspecs : (file δ f).importSpecs = f.importSpecs := by
    simp only [File.importSpecs, file, List.flatMap_map, form_decl, importSpecs_declForm]
  have hnames : ∀ d : Decl, (decl δ d).form.mentions i = d.form.mentions i := by
    intro d
    rw [DeclForm.mentions, form_decl, names_declForm, DeclForm.mentions]
  rw [File.mentions, hspecs, File.mentions]
  simp only [file, List.flatMap_map, hnames]

end Renumber

end GoSource
