/-
The index of methods.

A method is found by its name and the name of its receiver's type, and the
first one wins, file by file. This has nothing to do with which name is
bound in the package: what the index lists depends on the declarations
alone (`resolve_listed`). Nor does a binding, or an error, depend on the
index. To resolve without it comes to the same (`resolve_unlisted`).
-/
import GoSource.Proofs.Contents.Receiver
import GoSource.Proofs.Scope.Distinct
import GoSource.Proofs.Scope.Stepwise

namespace GoSource

-- ============================================================== methods

/-- A method of a type that has a name. -/
def Decl.IsMethodOf (T name : String) (d : Decl) : Prop :=
  ∃ m, d.form = .method m ∧ m.IsOf T ∧ m.name.name = name ∧ name ≠ blank

/-- The first of some items that has a property. -/
def IsFirst {α : Type} (P : α → Prop) (as : List α) (a : α) : Prop :=
  ∃ before after, as = before ++ a :: after ∧ P a ∧ ∀ b ∈ before, ¬ P b

theorem receiverBase_eq_some {t : TypeExpr} {T : String} :
    Resolution.receiverBase t = some T ↔ t.form.IsOf T := by
  unfold Resolution.receiverBase
  constructor
  · intro h
    split at h
    · next hform => exact hform ▸ .name (Option.some.inj h)
    · next hform => exact hform ▸ .pointer (Option.some.inj h)
    · exact nomatch h
  · intro h
    obtain ⟨i, sp, form⟩ := t
    change form.IsOf T at h
    cases h with
    | name hn => exact congrArg some hn
    | pointer hn => exact congrArg some hn

/-- The name of the type that a method is of. -/
def MethodDecl.base? (m : MethodDecl) : Option String :=
  m.receiver.params.head?.bind (Resolution.receiverBase ·.form.type)

theorem MethodDecl.base?_eq_some {m : MethodDecl} {T : String} :
    m.base? = some T ↔ m.IsOf T := by
  simp only [base?, IsOf, Option.bind_eq_some_iff, receiverBase_eq_some]

/-- What the index lists of a method. -/
def MethodDecl.listed? (d : Decl) (m : MethodDecl) : Option IndexedMethod :=
  if m.name.name = blank then none else m.base?.map (⟨·, m.name.name, d⟩)

/-- What it lists of a declaration. -/
def Decl.listed? (d : Decl) : Option IndexedMethod :=
  match d.form with
  | .method m => m.listed? d
  | _ => none

theorem MethodDecl.listed?_eq_some {m : MethodDecl} {d : Decl} {listed : IndexedMethod} :
    m.listed? d = some listed ↔ listed.decl = d ∧ m.IsOf listed.receiver ∧
      m.name.name = listed.name ∧ listed.name ≠ blank := by
  obtain ⟨T, name, d'⟩ := listed
  unfold listed?
  split
  · next hblank =>
    refine ⟨nofun, ?_⟩
    rintro ⟨-, -, rfl, hname⟩
    exact absurd hblank hname
  · next hblank =>
    rw [Option.map_eq_some_iff]
    constructor
    · rintro ⟨T', hT, heq⟩
      cases heq
      exact ⟨rfl, base?_eq_some.mp hT, rfl, hblank⟩
    · rintro ⟨rfl, hT, rfl, -⟩
      exact ⟨T, base?_eq_some.mpr hT, rfl⟩

theorem Decl.listed?_eq_some {d : Decl} {listed : IndexedMethod} : d.listed? = some listed ↔
    listed.decl = d ∧ d.IsMethodOf listed.receiver listed.name := by
  unfold listed? IsMethodOf
  cases hd : d.form with
  | method m =>
    rw [MethodDecl.listed?_eq_some]
    constructor
    · rintro ⟨hdecl, hm⟩
      exact ⟨hdecl, m, rfl, hm⟩
    · rintro ⟨hdecl, _, ⟨⟩, hm⟩
      exact ⟨hdecl, hm⟩
  | _ => exact ⟨nofun, nofun⟩

/-- What is looked for in the index. -/
def IndexedMethod.isOf (T name : String) (m : IndexedMethod) : Bool :=
  m.receiver = T && m.name = name

theorem Decl.listed?_any {d : Decl} {T name : String} :
    d.listed?.any (·.isOf T name) = true ↔ d.IsMethodOf T name := by
  rw [Option.any_eq_true]
  constructor
  · rintro ⟨⟨T', name', d'⟩, hlisted, h⟩
    obtain ⟨rfl, rfl⟩ : T' = T ∧ name' = name := by simpa [IndexedMethod.isOf] using h
    exact (listed?_eq_some.mp hlisted).2
  · exact fun h => ⟨⟨T, name, d⟩, listed?_eq_some.mpr ⟨rfl, h⟩, by simp [IndexedMethod.isOf]⟩

-- ================================================================ index

namespace Resolution

variable {r : Resolution} {file : Nat} {d : Decl}

theorem methods_bindIdent {n : Ident} {binding : Binding} :
    (r.bindIdent file n binding).package.methods = r.package.methods := by
  rw [bindIdent, package_bind]

theorem methods_indexMethod {m : MethodDecl} : (r.indexMethod d m).package.methods.toList =
    r.package.methods.toList ++ (m.listed? d).toList := by
  unfold indexMethod MethodDecl.listed?
  split
  · next T hT =>
    have hbase : m.base? = some T := hT
    split
    · exact (List.append_nil _).symm
    · rw [hbase, Array.toList_push]
      rfl
  · next hT =>
    have hbase : m.base? = none := hT
    rw [hbase, Option.map_none, ite_self]
    exact (List.append_nil _).symm

theorem methods_declare : (declare file r d).package.methods.toList =
    r.package.methods.toList ++ d.listed?.toList := by
  have hsame : ∀ r' : Resolution, r'.package.methods = r.package.methods →
      r'.package.methods.toList = r.package.methods.toList ++ [] := by
    intro r' h
    rw [h, List.append_nil]
  unfold declare Decl.listed?
  cases d.form with
  | imports _ => exact hsame r rfl
  | const spec =>
    refine hsame _ (foldl_same (f := fun r => r.package.methods) (fun r n => ?_) _ r)
    exact methods_bindIdent
  | var spec =>
    refine hsame _ (foldl_same (f := fun r => r.package.methods) (fun r n => ?_) _ r)
    exact methods_bindIdent
  | type spec => exact hsame _ methods_bindIdent
  | func f => exact hsame _ methods_bindIdent
  | method m =>
    refine methods_indexMethod.trans ?_
    rw [methods_bindIdent]

end Resolution

/-- The index lists the methods of the files, whatever is bound. -/
theorem resolve_listed (files : List File) : (resolve files).package.methods.toList =
    (files.flatMap (·.decls)).filterMap Decl.listed? := by
  refine resolve_induction (P := fun fs r => r.package.methods.toList =
    (fs.flatMap (·.decls)).filterMap Decl.listed?) ?none ?file ?imports ?decl files
  case none => rfl
  case file =>
    intro fs r f h _
    change r.package.methods.toList = _
    simp [h]
  case imports =>
    intro fs r f scope d h _ _
    rw [Resolution.package_importAll]
    change r.package.methods.toList = _
    simp [h]
  case decl =>
    intro fs r f d h
    rw [Resolution.methods_declare]
    change r.package.methods.toList ++ _ = _
    cases hd : d.listed? <;> simp [h, hd]

theorem findMethod_eq (files : List File) (T name : String) :
    (resolve files).package.findMethod T name =
      (files.flatMap (·.decls)).find? fun d => d.listed?.any (·.isOf T name) := by
  have hfind : (resolve files).package.findMethod T name =
      ((resolve files).package.methods.toList.find? (·.isOf T name)).map (·.decl) := by
    rw [Array.find?_toList]
    rfl
  rw [hfind, resolve_listed, List.find?_filterMap]
  cases h : (files.flatMap (·.decls)).find? fun d => d.listed?.any (·.isOf T name) with
  | none => rfl
  | some d =>
    have hd := List.find?_some h
    obtain ⟨listed, hlisted, -⟩ := (Option.any_eq_true _ _).mp hd
    rw [Option.bind_some, hlisted, Option.map_some, (Decl.listed?_eq_some.mp hlisted).1]

/-- The first method of a type by a name is found. -/
theorem findMethod_eq_some {files : List File} {T name : String} {d : Decl} :
    (resolve files).package.findMethod T name = some d ↔
      IsFirst (Decl.IsMethodOf T name) (files.flatMap (·.decls)) d := by
  rw [findMethod_eq, List.find?_eq_some_iff_append, Decl.listed?_any]
  simp only [IsFirst, Bool.not_eq_true', ← Bool.not_eq_true, Decl.listed?_any]
  constructor
  · rintro ⟨hd, before, after, hsplit, hbefore⟩
    exact ⟨before, after, hsplit, hd, hbefore⟩
  · rintro ⟨before, after, hsplit, hd, hbefore⟩
    exact ⟨hd, before, after, hsplit, hbefore⟩

theorem findMethod_eq_none {files : List File} {T name : String} :
    (resolve files).package.findMethod T name = none ↔
      ∀ d ∈ files.flatMap (·.decls), ¬ d.IsMethodOf T name := by
  simp only [findMethod_eq, List.find?_eq_none, Decl.listed?_any]

-- ======================================================== without index

namespace Resolution

/-- Binds what a declaration declares, and lists nothing. -/
def declareUnlisted (file : Nat) (r : Resolution) (d : Decl) : Resolution :=
  match d.form with
  | .method m => r.bindIdent file m.name (.method d)
  | _ => declare file r d

def addFileUnlisted (r : Resolution) (f : File) : Resolution :=
  let file := r.package.fileScopes.size
  let (scope, r) := r.addFileScope
  let r := f.imports.foldl (fun r d => importAll file scope (r.noteFile file d) d) r
  f.decls.foldl (fun r d => declareUnlisted file (r.noteFile file d) d) r

/-- All but the index. -/
def unlisted (r : Resolution) : Resolution :=
  { r with package := { r.package with methods := #[] } }

end Resolution

/-- Resolves files as if there were no index of methods. -/
def resolveUnlisted (files : List File) : Resolution :=
  files.foldl Resolution.addFileUnlisted .empty

namespace Resolution

variable {r : Resolution} {file fileScope id : Nat} {d : Decl}

theorem unlisted_bind (r : Resolution) (file id : Nat) (name : String) (place : Location)
    (binding : Binding) : (r.bind file id name place binding).unlisted =
      r.unlisted.bind file id name place binding := by
  by_cases hname : name = blank
  · rw [bind, bind, if_pos hname, if_pos hname]
  cases hfirst : r.package.boundIn id name with
  | some first =>
    rw [bind_of_some hname hfirst, bind_of_some (r := r.unlisted) hname hfirst]
    rfl
  | none =>
    rw [bind_of_none hname hfirst, bind_of_none (r := r.unlisted) hname hfirst]
    rfl

theorem unlisted_addImport (r : Resolution) (file fileScope : Nat) (spec : ImportSpec) :
    (r.addImport file fileScope spec).unlisted = r.unlisted.addImport file fileScope spec := by
  cases hspec : spec.boundName with
  | none => rw [addImport_of_none hspec, addImport_of_none hspec]
  | some name =>
    rw [addImport_of_some hspec, addImport_of_some hspec, unlisted_bind]
    rfl

theorem unlisted_importAll (r : Resolution) (file fileScope : Nat) (d : Decl) :
    (r.importAll file fileScope d).unlisted = r.unlisted.importAll file fileScope d := by
  rw [importAll_eq, importAll_eq]
  exact (List.foldl_hom unlisted fun r spec => (unlisted_addImport r file fileScope spec).symm).symm

theorem unlisted_indexMethod (r : Resolution) (d : Decl) (m : MethodDecl) :
    (r.indexMethod d m).unlisted = r.unlisted := by
  unfold indexMethod
  split
  · split <;> rfl
  · rfl

theorem unlisted_declare (file : Nat) (r : Resolution) (d : Decl) :
    (declare file r d).unlisted = declareUnlisted file r.unlisted d := by
  unfold declareUnlisted declare
  cases d.form with
  | imports _ => rfl
  | const spec =>
    refine (List.foldl_hom unlisted fun r n => ?_).symm
    rw [addConst, addConst, bindIdent, bindIdent, unlisted_bind]
    rfl
  | var spec =>
    refine (List.foldl_hom unlisted fun r n => ?_).symm
    rw [addVar, addVar, bindIdent, bindIdent, unlisted_bind]
    rfl
  | type spec => exact unlisted_bind ..
  | func f => exact unlisted_bind ..
  | method m => exact (unlisted_indexMethod ..).trans (unlisted_bind ..)

theorem unlisted_addFile (r : Resolution) (f : File) :
    (r.addFile f).unlisted = r.unlisted.addFileUnlisted f := by
  have himports : ∀ (file scope : Nat) (r : Resolution),
      (f.imports.foldl (fun r d => importAll file scope (r.noteFile file d) d) r).unlisted =
        f.imports.foldl (fun r d => importAll file scope (r.noteFile file d) d) r.unlisted :=
    fun file scope r => (List.foldl_hom unlisted fun r d =>
      (unlisted_importAll (r.noteFile file d) file scope d).symm).symm
  have hdecls : ∀ (file : Nat) (r : Resolution),
      (f.decls.foldl (fun r d => declare file (r.noteFile file d) d) r).unlisted =
        f.decls.foldl (fun r d => declareUnlisted file (r.noteFile file d) d) r.unlisted :=
    fun file r => (List.foldl_hom unlisted fun r d =>
      (unlisted_declare file (r.noteFile file d) d).symm).symm
  unfold addFile
  dsimp only
  rw [hdecls, himports]
  rfl

end Resolution

/-- Without the index everything else is the same. -/
theorem resolve_unlisted (files : List File) : (resolve files).unlisted = resolveUnlisted files :=
  (List.foldl_hom Resolution.unlisted fun r f => (Resolution.unlisted_addFile r f).symm).symm

/-- A method is found by its name and its type: the first one there is,
whatever its name is bound to. Nothing else would be different without the
index. Of which type a method of a file is can be told from the source, and
parentheses do not matter for it. -/
theorem resolve_methods (files : List File) :
    (∀ T name d, (resolve files).package.findMethod T name = some d ↔
      IsFirst (Decl.IsMethodOf T name) (files.flatMap (·.decls)) d) ∧
    (∀ T name, (resolve files).package.findMethod T name = none ↔
      ∀ d ∈ files.flatMap (·.decls), ¬ d.IsMethodOf T name) ∧
    (resolve files).unlisted = resolveUnlisted files ∧
    ∀ f ∈ files, ∀ (source : String) (maxDepth : Nat) (arena : Arena),
      (parseSource source .file maxDepth arena).1 = .ok (.file f) →
        ∀ d ∈ f.decls, ∀ m, d.form = .method m →
          ∃ rs, m.StandsIn (Token.Stream.ofSource source).tokens rs ∧
            ∀ T, m.IsOf T ↔ SpellsReceiver T (words rs) :=
  ⟨fun _ _ _ => findMethod_eq_some, fun _ _ => findMethod_eq_none, resolve_unlisted files,
    fun _ _ _ _ _ h _ hd _ hm => parseSource_receiver h hd hm⟩

/-- A method that has lost its name to a variable, with parentheses in its
receiver. -/
theorem resolve_methods_lost :
    ∃ f d m rs, (parseSource "package p; var f int; func (t (*(T))) f()" .file 40 .empty).1 =
        .ok (.file f) ∧
      (resolve [f]).package.findMethod "T" "f" = some d ∧ d ∈ f.decls ∧ d.form = .method m ∧
      m.StandsIn (Token.Stream.ofSource "package p; var f int; func (t (*(T))) f()").tokens rs ∧
      SpellsReceiver "T" (words rs) := by
  have hok : ((parseSource "package p; var f int; func (t (*(T))) f()" .file 40
      .empty).1.toOption.bind Root.file?).any (fun f =>
        ((resolve [f]).package.findMethod "T" "f").isSome) = true := by
    decide +kernel
  cases h : (parseSource "package p; var f int; func (t (*(T))) f()" .file 40 .empty).1 with
  | error e =>
    rw [h] at hok
    exact nomatch hok
  | ok root =>
    rw [h] at hok
    cases root with
    | file f =>
      obtain ⟨d, hd⟩ := Option.isSome_iff_exists.mp hok
      obtain ⟨hfirst, -, -, hsource⟩ := resolve_methods [f]
      obtain ⟨before, after, hdecls, hmethod, -⟩ := (hfirst "T" "f" d).mp hd
      obtain ⟨m, hm, hT, -⟩ := hmethod
      have hmem : d ∈ f.decls := by
        rw [← List.flatMap_singleton (·.decls) f, hdecls]
        exact List.mem_append_right _ List.mem_cons_self
      obtain ⟨rs, hstands, hwords⟩ :=
        hsource f (List.mem_singleton_self f) _ 40 .empty h d hmem m hm
      exact ⟨f, d, m, rs, rfl, hd, hmem, hm, hstands, (hwords "T").mp hT⟩
    | _ => exact nomatch hok

end GoSource
