/-
Views and what they are views of.

A package has three tables that have to fit together: the constants and
variables, which are numbered; the views of each declaration, which are
such numbers; and the scopes, where a name is bound to a number again. All
three follow one list, that of the identifiers that constants and variables
are declared by (`Viewed.of`), those included that bind nothing. Declaring
one more is one more entry in each table (`Viewing.push`), so the tables
of a package follow the declarations of its files (`resolve_viewing`).

What is noted under the number of a declaration is its own if the numbers
are different, and they are if the files were parsed (`resolve_views`).
-/
import GoSource.Proofs.Scope.Distinct
import GoSource.Proofs.Scope.Stepwise

namespace GoSource

-- ============================================================== entries

/-- What a view leads to. -/
inductive Viewed where
  | const (v : ConstView)
  | var (v : VarView)

namespace Viewed

def decl : Viewed → Decl
  | const v => v.decl
  | var v => v.decl

/-- The position of the identifier in the declaration. -/
def index : Viewed → Nat
  | const v => v.index
  | var v => v.index

/-- The name that it is declared by. -/
def name? (x : Viewed) : Option String := x.decl.form.names[x.index]?.map (·.name)

/-- What there is to view of a declaration: each constant or variable, with
the type that is declared, and nothing known of a constant yet. -/
def of (d : Decl) : List Viewed :=
  match d.form with
  | .const spec => spec.names.zipIdx.map fun (_, i) => .const (.unchecked d i spec.type)
  | .var spec => spec.names.zipIdx.map fun (_, i) => .var ⟨d, i, spec.type⟩
  | _ => []

variable {d : Decl} {x : Viewed}

theorem decl_of_mem (h : x ∈ of d) : x.decl = d := by
  unfold of at h
  split at h
  · obtain ⟨_, -, rfl⟩ := List.mem_map.mp h
    rfl
  · obtain ⟨_, -, rfl⟩ := List.mem_map.mp h
    rfl
  · exact nomatch h

/-- The index of an entry is its place. -/
theorem index_of_getElem? {i : Nat} (h : (of d)[i]? = some x) : x.index = i := by
  unfold of at h
  split at h
  · rw [List.getElem?_map, List.getElem?_zipIdx, Option.map_map] at h
    obtain ⟨n, -, rfl⟩ := Option.map_eq_some_iff.mp h
    exact Nat.zero_add i
  · rw [List.getElem?_map, List.getElem?_zipIdx, Option.map_map] at h
    obtain ⟨n, -, rfl⟩ := Option.map_eq_some_iff.mp h
    exact Nat.zero_add i
  · exact nomatch h

variable {ds : List Decl}

/-- Of declarations with different numbers each has its own. -/
theorem filter_of (hds : (ds.map (·.id)).Nodup) (hd : d ∈ ds) :
    (ds.flatMap of).filter (·.decl.id = d.id) = of d := by
  obtain ⟨before, after, rfl⟩ := List.append_of_mem hd
  rw [List.map_append, List.map_cons, List.nodup_middle, ← List.map_append, List.nodup_cons] at hds
  have hothers : ∀ ds' ⊆ before ++ after,
      (ds'.flatMap of).filter (·.decl.id = d.id) = [] := by
    refine fun ds' hsub => List.filter_eq_nil_iff.mpr fun x hx hid => ?_
    obtain ⟨d', hd', hx⟩ := List.mem_flatMap.mp hx
    rw [decide_eq_true_iff, decl_of_mem hx] at hid
    exact hds.1 (List.mem_map.mpr ⟨d', hsub hd', hid⟩)
  have hown : (of d).filter (·.decl.id = d.id) = of d :=
    List.filter_eq_self.mpr fun x hx => by rw [decl_of_mem hx, decide_eq_true rfl]
  rw [List.flatMap_append, List.flatMap_cons, List.filter_append, List.filter_append, hown,
    hothers before (List.subset_append_left _ _), hothers after (List.subset_append_right _ _),
    List.nil_append, List.append_nil]

/-- What there is to view of different declarations is different. -/
theorem nodup_of (hds : ds.Nodup) : (ds.flatMap of).Nodup := by
  refine List.nodup_flatMap.mpr ⟨fun d _ => ?_, hds.imp fun hne x hx hx' => hne ?_⟩
  · refine List.nodup_iff_getElem?_ne_getElem?.mpr fun i j hij hj heq => hij.ne ?_
    rw [List.getElem?_eq_getElem hj] at heq
    have hi := index_of_getElem? heq
    exact hi.symm.trans (index_of_getElem? (List.getElem?_eq_getElem hj))
  · exact (decl_of_mem hx).symm.trans (decl_of_mem hx')

end Viewed

/-- The view that a name is bound to. -/
def Binding.view? : Binding → Option View
  | const n => some (.const n)
  | var n => some (.var n)
  | _ => none

namespace PackageScope

/-- What a view leads to, by its number. -/
def viewed? (p : PackageScope) : View → Option Viewed
  | .const n => p.consts[n]?.map .const
  | .var n => p.vars[n]?.map .var

variable (p : PackageScope)

theorem viewed?_const_size : p.viewed? (.const p.consts.size) = none := by
  simp [viewed?]

theorem viewed?_var_size : p.viewed? (.var p.vars.size) = none := by
  simp [viewed?]

theorem viewed?_push_const (v : ConstView) (views : Array (Nat × View)) (view : View) :
    { p with consts := p.consts.push v, views }.viewed? view =
      if view = .const p.consts.size then some (.const v) else p.viewed? view := by
  cases view with
  | const k =>
    simp only [viewed?, Array.getElem?_push, View.const.injEq]
    split <;> rfl
  | var k => rfl

theorem viewed?_push_var (v : VarView) (views : Array (Nat × View)) (view : View) :
    { p with vars := p.vars.push v, views }.viewed? view =
      if view = .var p.vars.size then some (.var v) else p.viewed? view := by
  cases view with
  | const k => rfl
  | var k =>
    simp only [viewed?, Array.getElem?_push, View.var.injEq]
    split <;> rfl

variable {p}

/-- The tables follow a list of constants and variables. -/
structure Viewing (xs : List Viewed) (p : PackageScope) : Prop where
  /-- Each has been entered under its declaration, in order. -/
  entries : List.Forall₂ (fun e x => e.1 = x.decl.id ∧ p.viewed? e.2 = some x) p.views.toList xs
  /-- There is no number that has not been entered. -/
  complete : ∀ view x, p.viewed? view = some x → x ∈ xs ∧ (x.decl.id, view) ∈ p.views.toList
  /-- A name is bound to what it was declared as. -/
  bound : ∀ id name b view, p.boundIn id name = some b → b.binding.view? = some view →
    ∃ x ∈ xs, p.viewed? view = some x ∧ x.name? = some name

namespace Viewing

variable {xs : List Viewed} {p q : PackageScope}

/-- One entry more, under a new number, which is not bound yet. -/
theorem push {view : View} {x : Viewed} (h : p.Viewing xs)
    (hviews : q.views = p.views.push (x.decl.id, view)) (hfresh : p.viewed? view = none)
    (hnew : ∀ v, q.viewed? v = if v = view then some x else p.viewed? v)
    (hscopes : q.scopes = p.scopes) : q.Viewing (xs ++ [x]) := by
  have hkeep : ∀ v y, p.viewed? v = some y → q.viewed? v = some y := by
    intro v y hy
    rw [hnew, if_neg, hy]
    rintro rfl
    exact nomatch hfresh.symm.trans hy
  constructor
  case entries =>
    rw [hviews, Array.toList_push]
    exact List.rel_append (h.entries.imp fun e y ⟨hid, hy⟩ => ⟨hid, hkeep _ _ hy⟩)
      (.cons ⟨rfl, (hnew view).trans (if_pos rfl)⟩ .nil)
  case complete =>
    intro v y hy
    rw [hviews, Array.toList_push]
    rw [hnew] at hy
    split at hy
    · next hv =>
      obtain rfl := hv
      obtain rfl := Option.some.inj hy
      exact ⟨List.mem_append_right _ (List.mem_singleton_self _),
        List.mem_append_right _ (List.mem_singleton_self _)⟩
    · obtain ⟨hmem, hid⟩ := h.complete v y hy
      exact ⟨List.mem_append_left _ hmem, List.mem_append_left _ hid⟩
  case bound =>
    intro id name b v hb hv
    have hb : p.boundIn id name = some b := by rwa [boundIn, scope?, hscopes] at hb
    obtain ⟨y, hmem, hy, hname⟩ := h.bound id name b v hb hv
    exact ⟨y, List.mem_append_left _ hmem, hkeep _ _ hy, hname⟩

/-- Scopes may change if what is bound is bound right. -/
theorem scopes (h : p.Viewing xs) (scopes : Array Scope)
    (hbound : ∀ id name b view, { p with scopes }.boundIn id name = some b →
      b.binding.view? = some view → ∃ x ∈ xs, p.viewed? view = some x ∧ x.name? = some name) :
    { p with scopes }.Viewing xs :=
  ⟨h.entries, h.complete, hbound⟩

/-- Binding a name, to a view if that is declared by the name. -/
theorem bind {r : Resolution} (h : r.package.Viewing xs) (file id : Nat) (name : String)
    (place : Location) (binding : Binding)
    (hbinding : ∀ view, binding.view? = some view →
      ∃ x ∈ xs, r.package.viewed? view = some x ∧ x.name? = some name) :
    (r.bind file id name place binding).package.Viewing xs := by
  rw [Resolution.package_bind]
  refine h.scopes _ fun id' n b view hb hview => ?_
  rw [← Resolution.package_bind] at hb
  obtain hb | ⟨-, rfl, -, rfl⟩ := Resolution.boundIn_bind hb
  · exact h.bound id' n b view hb hview
  · exact hbinding view hview

theorem newScope {r : Resolution} (h : r.package.Viewing xs) (parent : Option Nat) :
    (r.newScope parent).2.package.Viewing xs := by
  refine h.scopes _ fun id name b view hb => h.bound id name b view ?_
  exact (Resolution.boundIn_newScope parent id name).symm.trans hb

theorem addImport {r : Resolution} (h : r.package.Viewing xs) (file fileScope : Nat)
    (spec : ImportSpec) : (r.addImport file fileScope spec).package.Viewing xs := by
  cases hspec : spec.boundName with
  | none =>
    rw [Resolution.addImport_of_none hspec]
    exact h
  | some name =>
    rw [Resolution.addImport_of_some hspec]
    exact (h.newScope none).bind file fileScope name _ _ fun view hview => nomatch hview

section

variable {r : Resolution} {d : Decl} {n : Ident} {i : Nat}

/-- One entry more, bound by its name. -/
theorem bindIdent {view : View} {x : Viewed} {binding : Binding} (h : p.Viewing (xs ++ [x]))
    (hx : p.viewed? view = some x) (hname : x.name? = some n.name)
    (hbinding : binding.view? = some view) (errors : Array Redeclaration) (file : Nat) :
    (Resolution.bindIdent ⟨p, errors⟩ file n binding).package.Viewing (xs ++ [x]) := by
  refine Viewing.bind (r := ⟨p, errors⟩) h file packageId n.name n.span.start binding ?_
  intro view' hview'
  obtain rfl := Option.some.inj (hbinding.symm.trans hview')
  exact ⟨x, List.mem_append_right _ (List.mem_singleton_self x), hx, hname⟩

theorem addConst (h : r.package.Viewing xs) (file : Nat) (type : Option TypeExpr)
    (hn : d.form.names[i]? = some n) :
    (Resolution.addConst file d type r (n, i)).package.Viewing
      (xs ++ [.const (.unchecked d i type)]) := by
  have hnew := viewed?_push_const r.package (.unchecked d i type)
    (r.package.views.push (d.id, .const r.package.consts.size))
  have hentry := h.push (x := .const (.unchecked d i type)) rfl (viewed?_const_size r.package)
    hnew rfl
  exact hentry.bindIdent ((hnew _).trans (if_pos rfl)) (congrArg (Option.map Ident.name) hn) rfl
    r.errors file

theorem addVar (h : r.package.Viewing xs) (file : Nat) (type : Option TypeExpr)
    (hn : d.form.names[i]? = some n) :
    (Resolution.addVar file d type r (n, i)).package.Viewing (xs ++ [.var ⟨d, i, type⟩]) := by
  have hnew := viewed?_push_var r.package ⟨d, i, type⟩
    (r.package.views.push (d.id, .var r.package.vars.size))
  have hentry := h.push (x := .var ⟨d, i, type⟩) rfl (viewed?_var_size r.package) hnew rfl
  exact hentry.bindIdent ((hnew _).trans (if_pos rfl)) (congrArg (Option.map Ident.name) hn) rfl
    r.errors file

/-- The names of a declaration, where each is one entry. -/
theorem names (add : Resolution → Ident × Nat → Resolution) (entry : Nat → Viewed)
    (hadd : ∀ {xs r n i}, r.package.Viewing xs → d.form.names[i]? = some n →
      (add r (n, i)).package.Viewing (xs ++ [entry i]))
    (h : r.package.Viewing xs) : (d.form.names.zipIdx.foldl add r).package.Viewing
      (xs ++ d.form.names.zipIdx.map fun p => entry p.2) := by
  refine foldl_induction (motive := fun done (r' : Resolution) =>
    (∀ p ∈ done, d.form.names[p.2]? = some p.1) →
      r'.package.Viewing (xs ++ done.map fun p => entry p.2))
    (fun _ => by rwa [List.map_nil, List.append_nil]) (fun done r' p ih hdone => ?_)
    d.form.names.zipIdx fun p hp => List.mem_zipIdx_iff_getElem?.mp hp
  obtain ⟨hdone, hp⟩ := List.forall_mem_append.mp hdone
  rw [List.map_append, ← List.append_assoc]
  exact hadd (ih hdone) (hp p (List.mem_singleton_self _))

theorem indexMethod (h : r.package.Viewing xs) (d : Decl) (m : MethodDecl) :
    (r.indexMethod d m).package.Viewing xs := by
  unfold Resolution.indexMethod
  split
  · split
    · exact h
    · exact ⟨h.entries, h.complete, h.bound⟩
  · exact h

/-- A declaration has its constants and variables entered. -/
theorem declare (h : r.package.Viewing xs) (file : Nat) (d : Decl) :
    (Resolution.declare file r d).package.Viewing (xs ++ Viewed.of d) := by
  have hname : ∀ (n : Ident) (binding : Binding), binding.view? = none →
      (r.bindIdent file n binding).package.Viewing (xs ++ []) := by
    intro n binding hbinding
    rw [List.append_nil]
    exact h.bind file packageId n.name n.span.start binding fun view hview =>
      nomatch hbinding.symm.trans hview
  unfold Resolution.declare Viewed.of
  cases hd : d.form with
  | imports _ =>
    rw [List.append_nil]
    exact h
  | const spec =>
    have hnames := h.names (d := d) (Resolution.addConst file d spec.type)
      (fun i => .const (.unchecked d i spec.type)) (fun h hn => h.addConst file spec.type hn)
    rwa [hd] at hnames
  | var spec =>
    have hnames := h.names (d := d) (Resolution.addVar file d spec.type)
      (fun i => .var ⟨d, i, spec.type⟩) (fun h hn => h.addVar file spec.type hn)
    rwa [hd] at hnames
  | type spec => exact hname spec.name _ rfl
  | func f => exact hname f.name _ rfl
  | method m => exact (hname m.name _ rfl).indexMethod d m

end

end Viewing

end PackageScope

-- ================================================================ files

/-- The tables of a package follow the declarations of its files. -/
theorem resolve_viewing (files : List File) :
    (resolve files).package.Viewing ((files.flatMap (·.decls)).flatMap Viewed.of) := by
  refine resolve_induction (P := fun fs r =>
    r.package.Viewing ((fs.flatMap (·.decls)).flatMap Viewed.of)) ?none ?file ?imports ?decl files
  case none =>
    refine ⟨.nil, fun view x hx => ?_, fun id name b view hb => ?_⟩
    · cases view <;> exact nomatch hx
    · cases id <;> exact nomatch hb
  case file =>
    intro fs r f h _
    have hdecls : (fs ++ [f.opened]).flatMap (·.decls) = fs.flatMap (·.decls) := by simp
    have hscope := h.newScope (some PackageScope.packageId)
    rw [hdecls]
    exact ⟨hscope.entries, hscope.complete, hscope.bound⟩
  case imports =>
    intro fs r f scope d h _ _
    have hdecls : (fs ++ [f.addImports d]).flatMap (·.decls) = (fs ++ [f]).flatMap (·.decls) := by
      simp
    rw [hdecls, Resolution.importAll_eq]
    have hnoted : (r.noteFile fs.length d).package.Viewing _ :=
      ⟨h.entries, h.complete, h.bound⟩
    exact foldl_induction (motive := fun _ (r' : Resolution) => r'.package.Viewing _)
      hnoted (fun _ r' spec h => h.addImport fs.length scope spec) d.form.importSpecs
  case decl =>
    intro fs r f d h
    have hdecls :
        (fs ++ [f.addDecl d]).flatMap (·.decls) = (fs ++ [f]).flatMap (·.decls) ++ [d] := by
      simp
    rw [hdecls, List.flatMap_append, List.flatMap_singleton]
    exact PackageScope.Viewing.declare (r := r.noteFile fs.length d)
      ⟨h.entries, h.complete, h.bound⟩ fs.length d

/-- Each declaration has been noted with its file, the last one first. -/
theorem resolve_declFiles (files : List File) : (resolve files).package.declFiles =
    (files.zipIdx.flatMap fun p => p.1.allDecls.map fun d => (d.id, p.2)).reverse := by
  refine resolve_induction (P := fun fs r => r.package.declFiles =
    (fs.zipIdx.flatMap fun p => p.1.allDecls.map fun d => (d.id, p.2)).reverse)
    ?none ?file ?imports ?decl files
  case none => rfl
  case file =>
    intro fs r f h _
    change r.package.declFiles = _
    simp [h, List.zipIdx_append, File.allDecls, File.opened]
  case imports =>
    intro fs r f scope d h hdecls _
    rw [Resolution.package_importAll]
    change (d.id, fs.length) :: r.package.declFiles = _
    simp [h, List.zipIdx_append, File.allDecls, File.addImports, hdecls]
  case decl =>
    intro fs r f d h
    refine (congrArg Prod.snd Resolution.sources_declare).trans ?_
    change (d.id, fs.length) :: r.package.declFiles = _
    simp [h, List.zipIdx_append, File.allDecls, File.addDecl]

-- =============================================================== tables

namespace PackageScope

variable {xs : List Viewed} {ds : List Decl} {d : Decl} {p : PackageScope}

/-- The views under the number of a declaration lead to what was declared
under it. -/
theorem Viewing.viewsOf (h : p.Viewing xs) (d : Decl) :
    (p.viewsOf d).map p.viewed? = (xs.filter (·.decl.id = d.id)).map some := by
  obtain ⟨hentries, -, -⟩ := h
  rw [PackageScope.viewsOf]
  generalize p.views.toList = views at hentries
  induction hentries with
  | nil => rfl
  | @cons e x views xs he _ ih =>
    obtain ⟨hid, hx⟩ := he
    by_cases hd : x.decl.id = d.id
    · simp [hid, hd, hx, ih]
    · simp [hid, hd, ih]

theorem Viewing.mem_viewsOf (h : p.Viewing xs) {view : View} {x : Viewed}
    (hx : p.viewed? view = some x) : view ∈ p.viewsOf x.decl :=
  List.mem_filterMap.mpr ⟨_, (h.complete view x hx).2, if_pos rfl⟩

/-- The views of a package are those of the declarations of its files. -/
structure ViewsMatch (files : List File) (p : PackageScope) : Prop where
  /-- A declaration has a view for each constant or variable, in order. -/
  views : ∀ d ∈ files.flatMap (·.decls), (p.viewsOf d).map p.viewed? = (Viewed.of d).map some
  /-- No view is that of two declarations, or twice that of one. -/
  once : ((files.flatMap (·.decls)).flatMap p.viewsOf).Nodup
  /-- Every view is that of a declaration. -/
  every : ∀ view, (p.viewed? view).isSome → view ∈ (files.flatMap (·.decls)).flatMap p.viewsOf
  /-- A name is bound to the view at its position in its declaration. -/
  bound : ∀ name b view, p.boundIn packageId name = some b → b.binding.view? = some view →
    ∃ x, p.viewed? view = some x ∧ (p.viewsOf x.decl)[x.index]? = some view ∧
      x.name? = some name
  /-- A declaration, or an import, is found in its file. -/
  fileScopeOf : ∀ i f, files[i]? = some f → ∀ d ∈ f.allDecls,
    ∃ id, p.fileScope i = some id ∧ p.fileScopeOf d = some id

theorem Viewing.viewsOf_eq (h : p.Viewing (ds.flatMap Viewed.of)) (hds : (ds.map (·.id)).Nodup)
    (hd : d ∈ ds) : (p.viewsOf d).map p.viewed? = (Viewed.of d).map some := by
  rw [h.viewsOf, Viewed.filter_of hds hd]

/-- A view has the place that it leads to. -/
theorem Viewing.viewsOf_getElem? (h : p.Viewing (ds.flatMap Viewed.of))
    (hds : (ds.map (·.id)).Nodup) {view : View} {x : Viewed} (hx : p.viewed? view = some x) :
    (p.viewsOf x.decl)[x.index]? = some view := by
  obtain ⟨d, hd, hxd⟩ := List.mem_flatMap.mp (h.complete view x hx).1
  obtain rfl := Viewed.decl_of_mem hxd
  obtain ⟨i, hi⟩ := List.mem_iff_getElem?.mp (h.mem_viewsOf hx)
  have hplace : some (some x) = ((Viewed.of x.decl).map some)[i]? := by
    rw [← h.viewsOf_eq hds hd, List.getElem?_map, hi, Option.map_some, hx]
  rw [List.getElem?_map] at hplace
  obtain ⟨y, hy, hxy⟩ := Option.map_eq_some_iff.mp hplace.symm
  obtain rfl := Option.some.inj hxy
  rw [Viewed.index_of_getElem? hy]
  exact hi

end PackageScope

/-- The numbers of declarations are looked up in their files. -/
theorem lookup_declFiles {files : List File} {i : Nat} {f : File} {d : Decl}
    (hids : ((files.flatMap File.allDecls).map (·.id)).Nodup) (hf : files[i]? = some f)
    (hd : d ∈ f.allDecls) : (resolve files).package.declFiles.lookup d.id = some i := by
  rw [resolve_declFiles]
  apply lookup_of_mem
  · rw [List.map_reverse, List.nodup_reverse, List.map_flatMap]
    simp only [List.map_map]
    rw [← List.zipIdx_map_fst 0 files, List.flatMap_map, List.map_flatMap] at hids
    exact hids
  · rw [List.mem_reverse]
    exact List.mem_flatMap.mpr ⟨(f, i), List.mem_zipIdx_iff_getElem?.mpr hf,
      List.mem_map_of_mem hd⟩

/-- The views of a package of files that are results of different parses
match the declarations of the files. -/
theorem resolve_views {requests : List Request} {files : List File}
    (hfiles : (files.map Root.file).Subperm (parseEach requests).roots) :
    (resolve files).package.ViewsMatch files := by
  have hids := parseEach_distinct hfiles
  have hdecls : ((files.flatMap (·.decls)).map (·.id)).Nodup := by
    refine hids.sublist (List.Sublist.map _ ?_)
    exact List.Sublist.flatMap_right files fun f _ => List.sublist_append_right _ _
  have hviewing := resolve_viewing files
  have hviews := fun d hd => hviewing.viewsOf_eq (d := d) hdecls hd
  constructor
  case views => exact hviews
  case once =>
    apply List.Nodup.of_map (resolve files).package.viewed?
    rw [List.map_flatMap, List.flatMap_congr hviews, ← List.map_flatMap]
    exact (Viewed.nodup_of hdecls.of_map).map (Option.some_injective _)
  case every =>
    intro view hview
    obtain ⟨x, hx⟩ := Option.isSome_iff_exists.mp hview
    obtain ⟨d, hd, hxd⟩ := List.mem_flatMap.mp (hviewing.complete view x hx).1
    have hmem := hviewing.mem_viewsOf hx
    rw [Viewed.decl_of_mem hxd] at hmem
    exact List.mem_flatMap.mpr ⟨d, hd, hmem⟩
  case bound =>
    intro name b view hb hview
    obtain ⟨x, -, hx, hname⟩ := hviewing.bound _ name b view hb hview
    exact ⟨x, hx, hviewing.viewsOf_getElem? hdecls hx, hname⟩
  case fileScopeOf =>
    intro i f hf d hd
    have hi : i < (resolve files).package.fileScopes.size := by
      rw [resolve_fileScopes]
      exact (List.getElem?_eq_some_iff.mp hf).1
    refine ⟨_, Array.getElem?_eq_getElem hi, ?_⟩
    rw [PackageScope.fileScopeOf, lookup_declFiles hids hf hd]
    exact Array.getElem?_eq_getElem hi

/-- Two files, where a name is blank and another is declared again. -/
theorem resolve_views_redeclared :
    (parseFiles 20 ["package p; import \"m\"; const a, _ = 1, 2",
        "package p; var b, a int"]).length = 2 ∧
      (resolve (parseFiles 20 ["package p; import \"m\"; const a, _ = 1, 2",
          "package p; var b, a int"])).package.ViewsMatch
        (parseFiles 20 ["package p; import \"m\"; const a, _ = 1, 2",
          "package p; var b, a int"]) :=
  ⟨by decide +kernel, resolve_views (Parsed.subperm_files _)⟩

end GoSource
