/-
Resolving, one step after the other.

What has been resolved at any time is some files, of which the last may be
incomplete: its imports so far, and then its declarations so far. So what
is to hold of every package can be said of the files it was resolved from
and shown by one induction (`resolve_induction`), for which there are three
steps to look at: a file begins, a declaration of imports is added to the
last file, and another declaration is.

# What a step changes

Names are bound in scopes and reported among the errors; all else there is
of a package is left alone by that (`package_bind`). An import changes
scopes only, too (`package_importAll`). Any other declaration binds its
names and adds to the tables, so what does not depend on the tables is
preserved by it if it is preserved by binding (`declare_preserves`).
-/
import GoSource.Proofs.Scope.Interleaving

namespace GoSource

/-- What holds at first and after each item holds after all of them. -/
theorem foldl_induction {α β : Type} {motive : List α → β → Prop} {step : β → α → β} {b : β}
    (nil : motive [] b)
    (snoc : ∀ done b a, motive done b → motive (done ++ [a]) (step b a)) (items : List α) :
    motive items (items.foldl step b) := by
  induction items using List.reverseRecOn with
  | nil => exact nil
  | append_singleton items a ih =>
    rw [List.foldl_append]
    exact snoc items _ a ih

/-- What is the same after each item is the same after all of them. -/
theorem foldl_same {α β γ : Type} {f : β → γ} {step : β → α → β} (h : ∀ b a, f (step b a) = f b)
    (items : List α) (b : β) : f (items.foldl step b) = f b :=
  foldl_induction (motive := fun _ b' => f b' = f b) rfl (fun _ b' a hb => (h b' a).trans hb) items

-- ====================================================== incomplete files

namespace File

/-- A file of which nothing has been resolved. -/
def opened (f : File) : File := { f with imports := [], decls := [] }

/-- One declaration of imports more. -/
def addImports (f : File) (d : Decl) : File := { f with imports := f.imports ++ [d] }

/-- One declaration more that is none of imports. -/
def addDecl (f : File) (d : Decl) : File := { f with decls := f.decls ++ [d] }

@[simp] theorem decls_opened (f : File) : f.opened.decls = [] := rfl

@[simp] theorem decls_addImports (f : File) (d : Decl) : (f.addImports d).decls = f.decls := rfl

@[simp] theorem decls_addDecl (f : File) (d : Decl) : (f.addDecl d).decls = f.decls ++ [d] := rfl

end File

-- =========================================================== what changes

namespace Resolution

variable {r : Resolution} {file id : Nat} {name : String} {place : Location} {binding : Binding}

theorem package_bind : (r.bind file id name place binding).package =
    { r.package with scopes := (r.bind file id name place binding).package.scopes } := by
  unfold bind
  split
  · rfl
  · split <;> rfl

/-- What is bound afterwards was bound before, or has just been bound. -/
theorem boundIn_bind {id' : Nat} {n : String} {b : BoundName}
    (h : (r.bind file id name place binding).package.boundIn id' n = some b) :
    r.package.boundIn id' n = some b ∨
      id' = id ∧ n = name ∧ name ≠ blank ∧ b = ⟨name, binding, place, file⟩ := by
  by_cases hname : name = blank
  · rw [bind, if_pos hname] at h
    exact .inl h
  cases hfirst : r.package.boundIn id name with
  | some first =>
    rw [bind_of_some hname hfirst] at h
    exact .inl h
  | none =>
    rw [bind_of_none hname hfirst, PackageScope.boundIn, PackageScope.scope?_put] at h
    split at h
    · next hid =>
      obtain ⟨s', hs', h⟩ := Option.bind_eq_some_iff.mp h
      obtain ⟨s, hs, rfl⟩ := Option.map_eq_some_iff.mp hs'
      rw [Scope.find?, List.find?_append, Option.or_eq_some_iff] at h
      obtain h | ⟨-, h⟩ := h
      · exact .inl (Option.bind_eq_some_iff.mpr ⟨s, hs, h⟩)
      · obtain rfl := List.mem_singleton.mp (List.mem_of_find?_eq_some h)
        have hn := List.find?_some h
        exact .inr ⟨hid.symm, (of_decide_eq_true hn).symm, hname, rfl⟩
    · exact .inl h

variable {fileScope : Nat} {spec : ImportSpec} {d : Decl}

theorem package_addImport : (r.addImport file fileScope spec).package =
    { r.package with scopes := (r.addImport file fileScope spec).package.scopes } := by
  cases hspec : spec.boundName with
  | none => rw [addImport_of_none hspec]
  | some name =>
    rw [addImport_of_some hspec, package_bind]
    rfl

theorem package_importAll : (r.importAll file fileScope d).package =
    { r.package with scopes := (r.importAll file fileScope d).package.scopes } := by
  rw [importAll_eq]
  refine foldl_induction (motive := fun _ (r' : Resolution) => r'.package =
    { r.package with scopes := r'.package.scopes }) rfl (fun _ r' spec h => ?_) d.form.importSpecs
  rw [package_addImport, h]

/-- Which files there are, and which declarations are from them. -/
def sources (r : Resolution) : Array Nat × List (Nat × Nat) :=
  (r.package.fileScopes, r.package.declFiles)

theorem sources_bind : (r.bind file id name place binding).sources = r.sources := by
  rw [sources, package_bind]
  rfl

/-- A declaration preserves what binding its names does, if the tables play
no part in it. -/
theorem declare_preserves {motive : Resolution → Prop}
    (bindIdent : ∀ r n binding, (∀ ref, binding ≠ .package ref) → motive r →
      motive (bindIdent r file n binding))
    (tables : ∀ (r : Resolution) consts vars views methods, motive r →
      motive { r with package := { r.package with consts, vars, views, methods } })
    (h : motive r) : motive (declare file r d) := by
  unfold declare
  split
  · exact h
  · exact foldl_induction (motive := fun _ r => motive r) h
      (fun _ r n h => bindIdent _ n.1 (.const r.package.consts.size) (by simp)
        (tables r _ r.package.vars _ r.package.methods h)) _
  · exact foldl_induction (motive := fun _ r => motive r) h
      (fun _ r n h => bindIdent _ n.1 (.var r.package.vars.size) (by simp)
        (tables r r.package.consts _ _ r.package.methods h)) _
  · exact bindIdent r _ _ (by simp) h
  · exact bindIdent r _ _ (by simp) h
  · next m _ =>
    have hbind := bindIdent r m.name (.method d) (by simp) h
    unfold indexMethod
    split
    · split
      · exact hbind
      · exact tables _ _ _ _ _ hbind
    · exact hbind

theorem sources_declare : (declare file r d).sources = r.sources :=
  declare_preserves (motive := fun r' => r'.sources = r.sources)
    (fun _ _ _ _ h => sources_bind.trans h) (fun _ _ _ _ _ h => h) rfl

end Resolution

-- ============================================================= induction

section

variable {P : List File → Resolution → Prop}

/-- What holds before the first file and is preserved by each step holds of
what files are resolved to. -/
theorem resolve_induction (none : P [] .empty)
    (file : ∀ {fs r} (f : File), P fs r → r.package.fileCount = fs.length →
      P (fs ++ [f.opened]) r.addFileScope.2)
    (imports : ∀ {fs r f scope} (d : Decl), P (fs ++ [f]) r → f.decls = [] →
      r.package.fileScope fs.length = some scope →
      P (fs ++ [f.addImports d]) ((r.noteFile fs.length d).importAll fs.length scope d))
    (decl : ∀ {fs r f} (d : Decl), P (fs ++ [f]) r →
      P (fs ++ [f.addDecl d]) (.declare fs.length (r.noteFile fs.length d) d))
    (files : List File) : P files (resolve files) := by
  suffices h : P files (resolve files) ∧ (resolve files).package.fileCount = files.length from h.1
  refine foldl_induction (motive := fun fs r => P fs r ∧ r.package.fileCount = fs.length)
    ⟨none, rfl⟩ (fun fs r f ⟨h, hcount⟩ => ?_) files
  have hscope : r.addFileScope.2.package.fileScope fs.length = some r.addFileScope.1 := by
    rw [← hcount]
    exact Array.getElem?_push_size
  have hsize : r.addFileScope.2.package.fileCount = (fs ++ [f]).length := by
    rw [List.length_append, ← hcount]
    exact Array.size_push _
  suffices h : P (fs ++ [f]) (r.addFile f) ∧
      (r.addFile f).package.fileScopes = r.addFileScope.2.package.fileScopes from
    ⟨h.1, (congrArg Array.size h.2).trans hsize⟩
  rw [Resolution.addFile, show r.package.fileScopes.size = fs.length from hcount]
  -- the file grows at its end, by its imports first
  refine foldl_induction (motive := fun ds (r' : Resolution) =>
      P (fs ++ [{ f with decls := ds }]) r' ∧
        r'.package.fileScopes = r.addFileScope.2.package.fileScopes) ?_
    (fun ds r' d ⟨h, hfiles⟩ => ⟨decl d h, ?_⟩) f.decls
  · refine foldl_induction (motive := fun ds (r' : Resolution) =>
      P (fs ++ [{ f with imports := ds, decls := [] }]) r' ∧
        r'.package.fileScopes = r.addFileScope.2.package.fileScopes)
      ⟨file f h hcount, rfl⟩ (fun ds r' d ⟨h, hfiles⟩ => ⟨imports d h rfl ?_, ?_⟩) f.imports
    · rw [PackageScope.fileScope, hfiles]
      exact hscope
    · rw [Resolution.package_importAll]
      exact hfiles
  · exact (congrArg Prod.fst Resolution.sources_declare).trans hfiles

end

-- ============================================================== packages

/-- A package and the files it has been resolved from. Declarations that
come without a file are taken for those of one. -/
inductive Resolves : List File → PackageScope → Prop where
  | files (files : List File) : Resolves files (resolve files).package
  | decls (f : File) (ds : List Decl) : Resolves [f.withDecls ds] (resolveDecls ds).package

/-- Where declarations are from may be noted in another order. -/
theorem Resolves.eq {files : List File} {p : PackageScope} (h : Resolves files p) :
    { p with declFiles := (resolve files).package.declFiles } = (resolve files).package := by
  cases h with
  | files => rfl
  | decls f ds =>
    exact (Resolution.resolveDecls_combines ds).package_eq (Resolution.resolve_combines f ds)

end GoSource
