/-
Imports among declarations, wherever they stand.

A file has its imports before its declarations. Declarations that come
without a file may have imports anywhere among them, and a package that is
resolved from these is the one that the file would be resolved to.

# Why the order does not matter

An import makes a scope and binds a name in the scope of its file. A
declaration makes no scope and binds names in the scope of the package.
So there are two halves that do not look at each other: the half of the
imports has the number of scopes and every scope but that of the package,
the half of the declarations has that scope and the views and methods.

`Combines` says that a resolution is put together from a resolution of
imports and one of declarations. A step of either kind is made in its own
half as it is made in the whole, so the halves of the whole come to what
they come to alone, whatever the order is.

Only errors are in one list together. It is an interleaving of the errors
of the halves, another one for each order.
-/
import GoSource.Proofs.Scope.Binding

namespace GoSource

-- ======================================================== interleavings

/-- The items of two lists in one list, those of each in their order. -/
inductive Interleaves {α : Type} : List α → List α → List α → Prop where
  | nil : Interleaves [] [] []
  | left {xs ys zs : List α} (x : α) (h : Interleaves xs ys zs) :
    Interleaves (xs ++ [x]) ys (zs ++ [x])
  | right {xs ys zs : List α} (y : α) (h : Interleaves xs ys zs) :
    Interleaves xs (ys ++ [y]) (zs ++ [y])

theorem Interleaves.perm {α : Type} {xs ys zs : List α} (h : Interleaves xs ys zs) :
    zs.Perm (xs ++ ys) := by
  induction h with
  | nil => exact .nil
  | @left xs ys zs x _ ih =>
    calc zs ++ [x]
      _ |>.Perm ((xs ++ ys) ++ [x]) := ih.append_right [x]
      _ |>.Perm (xs ++ ([x] ++ ys)) := by
          rw [List.append_assoc]
          exact List.perm_append_comm.append_left xs
      _ = (xs ++ [x]) ++ ys := (List.append_assoc xs [x] ys).symm
  | @right xs ys zs y _ ih =>
    rw [← List.append_assoc]
    exact ih.append_right [y]

/-- With one file for all, it does not matter in which order declarations
were noted, or how often. -/
theorem lookup_one_file {l : List (Nat × Nat)} (hl : ∀ p ∈ l, p.2 = 0) (id : Nat) :
    l.lookup id = if (id, 0) ∈ l then some 0 else none := by
  induction l with
  | nil => rfl
  | cons p l ih =>
    obtain ⟨id', file⟩ := p
    obtain ⟨rfl, hrest⟩ := List.forall_mem_cons.mp hl
    rw [List.lookup_cons, ih hrest]
    by_cases hid : id = id'
    · simp [hid]
    · simp [hid, beq_false_of_ne hid]

-- =============================================================== halves

/-- A file that has given declarations, the imports among them first. -/
def File.withDecls (f : File) (ds : List Decl) : File :=
  { f with imports := ds.filter (·.form.isImport), decls := ds.filter (!·.form.isImport) }

theorem PackageScope.scope?_put (p : PackageScope) (id : Nat) (b : BoundName) (id' : Nat) :
    (p.put id b).scope? id' =
      if id = id' then (p.scope? id').map fun s => { s with bound := s.bound ++ [b] }
      else p.scope? id' :=
  Array.getElem?_modify

namespace Resolution

/-- A resolution is put together from one of imports and one of
declarations. -/
structure Combines (imports decls r : Resolution) : Prop where
  size_pos : 0 < imports.package.scopes.size
  size : r.package.scopes.size = imports.package.scopes.size
  others : ∀ id ≠ PackageScope.packageId, r.package.scope? id = imports.package.scope? id
  package : r.package.scope? PackageScope.packageId = decls.package.scope? PackageScope.packageId
  fileScopes : r.package.fileScopes = imports.package.fileScopes
  consts : r.package.consts = decls.package.consts
  vars : r.package.vars = decls.package.vars
  views : r.package.views = decls.package.views
  methods : r.package.methods = decls.package.methods
  declFiles : ∀ p, p ∈ r.package.declFiles ↔
    p ∈ imports.package.declFiles ∨ p ∈ decls.package.declFiles
  /-- There is only one file to be from. -/
  one_file : ∀ p ∈ r.package.declFiles, p.2 = 0
  errors : Interleaves imports.errors.toList decls.errors.toList r.errors.toList

namespace Combines

variable {imports decls r r' : Resolution}

/-- The halves determine what they are put together to, up to where
declarations are from and the order of errors. -/
theorem package_eq (h : Combines imports decls r) (h' : Combines imports decls r') :
    { r.package with declFiles := r'.package.declFiles } = r'.package := by
  have hscopes : r.package.scopes = r'.package.scopes := by
    apply Array.ext_getElem?
    intro id
    by_cases hid : id = PackageScope.packageId
    · rw [hid]
      exact h.package.trans h'.package.symm
    · exact (h.others id hid).trans (h'.others id hid).symm
  change PackageScope.mk r.package.scopes r.package.fileScopes _ r.package.consts r.package.vars
    r.package.views r.package.methods = _
  rw [hscopes, h.fileScopes, h.consts, h.vars, h.views, h.methods, ← h'.fileScopes, ← h'.consts,
    ← h'.vars, ← h'.views, ← h'.methods]

theorem fileScopeOf_eq (h : Combines imports decls r) (h' : Combines imports decls r') (d : Decl) :
    r.package.fileScopeOf d = r'.package.fileScopeOf d := by
  have hfile : r.package.fileScope = r'.package.fileScope := by
    funext i
    rw [PackageScope.fileScope, PackageScope.fileScope, h.fileScopes, h'.fileScopes]
  have hlookup : r.package.declFiles.lookup d.id = r'.package.declFiles.lookup d.id := by
    rw [lookup_one_file h.one_file, lookup_one_file h'.one_file]
    simp only [h.declFiles, h'.declFiles]
  rw [PackageScope.fileScopeOf, PackageScope.fileScopeOf, hfile, hlookup]

theorem errors_perm (h : Combines imports decls r) (h' : Combines imports decls r') :
    r.errors.toList.Perm r'.errors.toList :=
  h.errors.perm.trans h'.errors.perm.symm

-- ============================================== a step in its own half

/-- A name that is bound outside the scope of the package. -/
theorem bind_import (h : Combines imports decls r) {id : Nat} (hid : id ≠ PackageScope.packageId)
    (file : Nat) (name : String) (place : Location) (binding : Binding) :
    Combines (imports.bind file id name place binding) decls
      (r.bind file id name place binding) := by
  by_cases hname : name = blank
  · rw [Resolution.bind, Resolution.bind, if_pos hname, if_pos hname]
    exact h
  have hbound : r.package.boundIn id name = imports.package.boundIn id name := by
    rw [PackageScope.boundIn, PackageScope.boundIn, h.others id hid]
  cases hfirst : imports.package.boundIn id name with
  | some first =>
    rw [bind_of_some hname hfirst, bind_of_some hname (hbound.trans hfirst)]
    refine { h with errors := ?_ }
    rw [Array.toList_push, Array.toList_push]
    exact h.errors.left _
  | none =>
    rw [bind_of_none hname hfirst, bind_of_none hname (hbound.trans hfirst)]
    refine { h with size_pos := ?_, size := ?_, others := ?_, package := ?_ }
    · rw [PackageScope.put, Array.size_modify]
      exact h.size_pos
    · rw [PackageScope.put, PackageScope.put, Array.size_modify, Array.size_modify]
      exact h.size
    · intro id' hid'
      rw [PackageScope.scope?_put, PackageScope.scope?_put, h.others id' hid']
    · rw [PackageScope.scope?_put, if_neg hid]
      exact h.package

/-- A name that is bound in the scope of the package. -/
theorem bind_decl (h : Combines imports decls r) (file : Nat) (name : String) (place : Location)
    (binding : Binding) :
    Combines imports (decls.bind file PackageScope.packageId name place binding)
      (r.bind file PackageScope.packageId name place binding) := by
  by_cases hname : name = blank
  · rw [Resolution.bind, Resolution.bind, if_pos hname, if_pos hname]
    exact h
  have hbound : r.package.boundIn PackageScope.packageId name =
      decls.package.boundIn PackageScope.packageId name := by
    rw [PackageScope.boundIn, PackageScope.boundIn, h.package]
  cases hfirst : decls.package.boundIn PackageScope.packageId name with
  | some first =>
    rw [bind_of_some hname hfirst, bind_of_some hname (hbound.trans hfirst)]
    refine { h with errors := ?_ }
    rw [Array.toList_push, Array.toList_push]
    exact h.errors.right _
  | none =>
    rw [bind_of_none hname hfirst, bind_of_none hname (hbound.trans hfirst)]
    refine { h with size := ?_, others := ?_, package := ?_ }
    · rw [PackageScope.put, Array.size_modify]
      exact h.size
    · intro id hid
      rw [PackageScope.scope?_put, if_neg hid.symm]
      exact h.others id hid
    · rw [PackageScope.scope?_put, PackageScope.scope?_put, h.package]

/-- The scope of an imported package has the same number in the whole. -/
theorem newScope (h : Combines imports decls r) (parent : Option Nat) :
    Combines (imports.newScope parent).2 decls (r.newScope parent).2 := by
  have hlast : PackageScope.packageId ≠ r.package.scopes.size := by
    rw [h.size]
    exact Nat.ne_of_lt h.size_pos
  refine { h with size_pos := ?_, size := ?_, others := ?_, package := ?_ }
  · rw [Resolution.newScope, Array.size_push]
    exact Nat.succ_pos _
  · rw [Resolution.newScope, Resolution.newScope, Array.size_push, Array.size_push, h.size]
  · intro id hid
    simp only [Resolution.newScope, PackageScope.scope?, Array.getElem?_push, h.size]
    split
    · rfl
    · exact h.others id hid
  · simp only [Resolution.newScope, PackageScope.scope?, Array.getElem?_push, if_neg hlast]
    exact h.package

theorem addImport (h : Combines imports decls r) {fileScope : Nat}
    (hscope : fileScope ≠ PackageScope.packageId) (file : Nat) (spec : ImportSpec) :
    Combines (imports.addImport file fileScope spec) decls (r.addImport file fileScope spec) := by
  cases hspec : spec.boundName with
  | none =>
    rw [addImport_of_none hspec, addImport_of_none hspec]
    exact h
  | some name =>
    have hnumber : r.tally.scopes = imports.tally.scopes := h.size
    rw [addImport_of_some hspec, addImport_of_some hspec, hnumber]
    exact (h.newScope none).bind_import hscope file name _ _

theorem importAll (h : Combines imports decls r) {fileScope : Nat}
    (hscope : fileScope ≠ PackageScope.packageId) (file : Nat) (d : Decl) :
    Combines (imports.importAll file fileScope d) decls (r.importAll file fileScope d) := by
  rw [importAll_eq, importAll_eq]
  exact List.foldl_rel (r := fun i r => Combines i decls r) h
    fun spec _ _ _ h => h.addImport hscope file spec

theorem addConst (h : Combines imports decls r) (file : Nat) (d : Decl) (type : Option TypeExpr)
    (name : Ident × Nat) :
    Combines imports (addConst file d type decls name) (addConst file d type r name) := by
  rw [Resolution.addConst, Resolution.addConst, h.consts]
  apply bind_decl
  refine { h with consts := rfl, views := ?_ }
  rw [h.views]

theorem addVar (h : Combines imports decls r) (file : Nat) (d : Decl) (type : Option TypeExpr)
    (name : Ident × Nat) :
    Combines imports (addVar file d type decls name) (addVar file d type r name) := by
  rw [Resolution.addVar, Resolution.addVar, h.vars]
  apply bind_decl
  refine { h with vars := rfl, views := ?_ }
  rw [h.views]

theorem indexMethod (h : Combines imports decls r) (d : Decl) (m : MethodDecl) :
    Combines imports (decls.indexMethod d m) (r.indexMethod d m) := by
  unfold Resolution.indexMethod
  split
  · split
    · exact h
    · refine { h with methods := ?_ }
      rw [h.methods]
  · exact h

theorem declare (h : Combines imports decls r) (file : Nat) (d : Decl) :
    Combines imports (declare file decls d) (declare file r d) := by
  unfold Resolution.declare
  cases d.form with
  | imports _ => exact h
  | const spec =>
    exact List.foldl_rel (r := fun d r => Combines imports d r) h
      fun name _ _ _ h => h.addConst file d spec.type name
  | var spec =>
    exact List.foldl_rel (r := fun d r => Combines imports d r) h
      fun name _ _ _ h => h.addVar file d spec.type name
  | type spec => exact h.bind_decl file _ _ _
  | func f => exact h.bind_decl file _ _ _
  | method m => exact (h.bind_decl file _ _ _).indexMethod d m

theorem noteFile_import (h : Combines imports decls r) (d : Decl) :
    Combines (imports.noteFile 0 d) decls (r.noteFile 0 d) := by
  refine { h with declFiles := fun p => ?_, one_file := ?_ }
  · simp only [noteFile, List.mem_cons, h.declFiles p, or_assoc]
  · exact List.forall_mem_cons.mpr ⟨rfl, h.one_file⟩

theorem noteFile_decl (h : Combines imports decls r) (d : Decl) :
    Combines imports (decls.noteFile 0 d) (r.noteFile 0 d) := by
  refine { h with declFiles := fun p => ?_, one_file := ?_ }
  · simp only [noteFile, List.mem_cons, h.declFiles p, or_left_comm]
  · exact List.forall_mem_cons.mpr ⟨rfl, h.one_file⟩

end Combines

-- ================================================================= runs

/-- A declaration that comes without a file. -/
def addLoose (r : Resolution) (d : Decl) : Resolution :=
  let r := r.noteFile 0 d
  if d.form.isImport then importAll 0 1 r d else declare 0 r d

theorem resolveDecls_eq (ds : List Decl) :
    resolveDecls ds = ds.foldl addLoose Resolution.empty.addFileScope.2 :=
  rfl

/-- A file is resolved like its imports and its other declarations are that
come without it. -/
theorem resolve_withDecls (f : File) (ds : List Decl) :
    resolve [f.withDecls ds] =
      resolveDecls (ds.filter (·.form.isImport) ++ ds.filter (!·.form.isImport)) := by
  have himports : ∀ r : Resolution, (ds.filter (·.form.isImport)).foldl addLoose r =
      (ds.filter (·.form.isImport)).foldl (fun r d => importAll 0 1 (r.noteFile 0 d) d) r := by
    intro r
    apply List.foldl_ext
    intro r d hd
    exact if_pos (List.mem_filter.mp hd).2
  have hdecls : ∀ r : Resolution, (ds.filter (!·.form.isImport)).foldl addLoose r =
      (ds.filter (!·.form.isImport)).foldl (fun r d => declare 0 (r.noteFile 0 d) d) r := by
    intro r
    apply List.foldl_ext
    intro r d hd
    exact if_neg (by simpa using (List.mem_filter.mp hd).2)
  rw [resolveDecls_eq, List.foldl_append, himports, hdecls]
  rfl

/-- A run over declarations in any order is a run over the imports in one
half and a run over the others in the other. -/
theorem Combines.addLoose {imports decls r : Resolution} (h : Combines imports decls r)
    (ds : List Decl) :
    Combines ((ds.filter (·.form.isImport)).foldl addLoose imports)
      ((ds.filter (!·.form.isImport)).foldl addLoose decls) (ds.foldl addLoose r) := by
  induction ds generalizing imports decls r with
  | nil => exact h
  | cons d ds ih =>
    cases hd : d.form.isImport with
    | true =>
      simp only [List.filter_cons, hd, if_true, Bool.not_true, Bool.false_eq_true, if_false,
        List.foldl_cons]
      apply ih
      simp only [Resolution.addLoose, hd, if_true]
      exact (h.noteFile_import d).importAll (by decide) 0 d
    | false =>
      simp only [List.filter_cons, hd, if_true, Bool.not_false, Bool.false_eq_true, if_false,
        List.foldl_cons]
      apply ih
      simp only [Resolution.addLoose, hd, Bool.false_eq_true, if_false]
      exact (h.noteFile_decl d).declare 0 d

/-- Before the first declaration there is nothing in either half. -/
theorem combines_start :
    Combines Resolution.empty.addFileScope.2 Resolution.empty.addFileScope.2
      Resolution.empty.addFileScope.2 where
  size_pos := by decide
  size := rfl
  others := fun _ _ => rfl
  package := rfl
  fileScopes := rfl
  consts := rfl
  vars := rfl
  views := rfl
  methods := rfl
  declFiles := fun _ => (or_self_iff).symm
  one_file := fun _ hp => absurd hp List.not_mem_nil
  errors := .nil

/-- Declarations in any order are resolved to the imports and the others,
each by themselves. -/
theorem resolveDecls_combines (ds : List Decl) :
    Combines (resolveDecls (ds.filter (·.form.isImport)))
      (resolveDecls (ds.filter (!·.form.isImport))) (resolveDecls ds) :=
  combines_start.addLoose ds

/-- A file is put together from the same halves. -/
theorem resolve_combines (f : File) (ds : List Decl) :
    Combines (resolveDecls (ds.filter (·.form.isImport)))
      (resolveDecls (ds.filter (!·.form.isImport))) (resolve [f.withDecls ds]) := by
  have h := resolveDecls_combines (ds.filter (·.form.isImport) ++ ds.filter (!·.form.isImport))
  rw [← resolve_withDecls f ds] at h
  simpa [List.filter_append, List.filter_filter] using h

end Resolution

/-- Declarations that come without a file, with imports anywhere among them,
are resolved to the package that a file with these declarations is resolved
to. All there is of the two is equal but the order of the notes on where
declarations are from, which is not seen: the scope above a declaration is
the same one. The errors are the same too. In both lists the errors of the
imports by themselves, and of the others by themselves, are in order. -/
theorem resolveDecls_resolve (ds : List Decl) (f : File) :
    { (resolveDecls ds).package with
        declFiles := (resolve [f.withDecls ds]).package.declFiles } =
      (resolve [f.withDecls ds]).package ∧
    (∀ d, (resolveDecls ds).package.fileScopeOf d =
      (resolve [f.withDecls ds]).package.fileScopeOf d) ∧
    (resolveDecls ds).errors.toList.Perm (resolve [f.withDecls ds]).errors.toList ∧
    Interleaves (resolveDecls (ds.filter (·.form.isImport))).errors.toList
      (resolveDecls (ds.filter (!·.form.isImport))).errors.toList
      (resolveDecls ds).errors.toList ∧
    Interleaves (resolveDecls (ds.filter (·.form.isImport))).errors.toList
      (resolveDecls (ds.filter (!·.form.isImport))).errors.toList
      (resolve [f.withDecls ds]).errors.toList := by
  have hloose := Resolution.resolveDecls_combines ds
  have hfile := Resolution.resolve_combines f ds
  exact ⟨hloose.package_eq hfile, hloose.fileScopeOf_eq hfile, hloose.errors_perm hfile,
    hloose.errors, hfile.errors⟩

end GoSource
