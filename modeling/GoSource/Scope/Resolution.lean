/-
Resolving the names a package declares.

Files are resolved in order, each with its imports first. Everything that
would bind a name goes through `bind`, which is where the first binding
wins and every later one is reported against it. The names of the package
are complete also when something was reported.

# Views

Every constant and variable gets its view, also if its name is blank or
taken: a view belongs to its declaration, whatever becomes of the name.
-/
import GoSource.Scope

namespace GoSource

/-- A name bound a second time in a scope. -/
structure Redeclaration where
  name : String
  first : Location
  second : Location
  firstFile : Nat
  secondFile : Nat
deriving DecidableEq, Repr

/-- What a redeclaration is called, with the place of the first binding as
given. -/
def Redeclaration.describe (r : Redeclaration) (first : String) : String :=
  r.second.text ++ ": " ++ r.name ++ " redeclared, originally declared at " ++ first

def Redeclaration.message (r : Redeclaration) : String := r.describe r.first.text

/-- The names resolved so far, and what there was to report. -/
structure Resolution where
  package : PackageScope
  errors : Array Redeclaration

namespace Resolution

def empty : Resolution := ⟨.empty, #[]⟩

-- ================================================================= bind

/-- Binds a name in a scope, unless it is blank. A name bound there before
keeps its binding, and the attempt is reported. -/
def bind (r : Resolution) (file scope : Nat) (name : String) (place : Location)
    (binding : Binding) : Resolution :=
  if name = blank then r
  else match r.package.boundIn scope name with
    | some first =>
      { r with errors := r.errors.push ⟨name, first.place, place, first.file, file⟩ }
    | none =>
      let scopes := r.package.scopes.modify scope fun s =>
        { s with bound := s.bound ++ [⟨name, binding, place, file⟩] }
      { r with package := { r.package with scopes } }

/-- Binds an identifier in the scope of the package. -/
def bindIdent (r : Resolution) (file : Nat) (name : Ident) (binding : Binding) : Resolution :=
  r.bind file PackageScope.packageId name.name name.span.start binding

-- ========================================================= declarations

/-- A constant of a declaration, the identifier at a position. -/
def addConst (file : Nat) (decl : Decl) (type : Option TypeExpr) (r : Resolution)
    (name : Ident × Nat) : Resolution :=
  let number := r.package.consts.size
  let package := { r.package with
    consts := r.package.consts.push (.unchecked decl name.2 type)
    views := r.package.views.push (decl.id, .const number) }
  { r with package }.bindIdent file name.1 (.const number)

/-- A variable of a declaration, the identifier at a position. -/
def addVar (file : Nat) (decl : Decl) (type : Option TypeExpr) (r : Resolution)
    (name : Ident × Nat) : Resolution :=
  let number := r.package.vars.size
  let package := { r.package with
    vars := r.package.vars.push ⟨decl, name.2, type⟩
    views := r.package.views.push (decl.id, .var number) }
  { r with package }.bindIdent file name.1 (.var number)

/-- The name of the type that a receiver is of or points to; a qualified
type is none of this package. -/
def receiverBase (type : TypeExpr) : Option String :=
  match type.form with
  | .name none name => some name.name
  | .pointer ⟨_, _, .name none name⟩ => some name.name
  | _ => none

/-- Lists a method under the type of its receiver. -/
def indexMethod (r : Resolution) (decl : Decl) (method : MethodDecl) : Resolution :=
  match method.receiver.params.head?.bind (receiverBase ·.form.type) with
  | some receiver =>
    if method.name.name = blank then r
    else
      let package := { r.package with
        methods := r.package.methods.push ⟨receiver, method.name.name, decl⟩ }
      { r with package }
  | none => r

/-- Binds what a declaration declares in the package. -/
def declare (file : Nat) (r : Resolution) (decl : Decl) : Resolution :=
  match decl.form with
  | .imports _ => r
  | .const spec => spec.names.zipIdx.foldl (addConst file decl spec.type) r
  | .var spec => spec.names.zipIdx.foldl (addVar file decl spec.type) r
  | .type spec => r.bindIdent file spec.name (.type decl)
  | .func f => r.bindIdent file f.name (.func decl)
  | .method m => (r.bindIdent file m.name (.method decl)).indexMethod decl m

-- ============================================================== imports

/-- A new scope below another one, or below the universe. -/
def newScope (r : Resolution) (parent : Option Nat) : Nat × Resolution :=
  (r.package.scopes.size,
   { r with package := { r.package with scopes := r.package.scopes.push ⟨parent, []⟩ } })

/-- Binds an import in the scope of its file, with a scope for the package
it names. -/
def addImport (file fileScope : Nat) (r : Resolution) (spec : ImportSpec) : Resolution :=
  match spec.bindingName with
  | none => r
  | some name =>
    if name = blank then r
    else
      let (scope, r) := r.newScope none
      r.bind file fileScope name spec.span.start (.package ⟨spec.path, scope⟩)

/-- The imports of a declaration, if it is one of imports. -/
def importAll (file fileScope : Nat) (r : Resolution) (decl : Decl) : Resolution :=
  match decl.form with
  | .imports d => d.specs.foldl (addImport file fileScope) r
  | _ => r

-- ================================================================ files

/-- Notes the file that a declaration is from. -/
def noteFile (r : Resolution) (file : Nat) (decl : Decl) : Resolution :=
  { r with package := { r.package with declFiles := (decl.id, file) :: r.package.declFiles } }

/-- The scope of one more file. -/
def addFileScope (r : Resolution) : Nat × Resolution :=
  let (scope, r) := r.newScope (some PackageScope.packageId)
  (scope, { r with package :=
    { r.package with fileScopes := r.package.fileScopes.push scope } })

/-- Resolves one more file. -/
def addFile (r : Resolution) (f : File) : Resolution :=
  let file := r.package.fileScopes.size
  let (scope, r) := r.addFileScope
  let r := f.imports.foldl (fun r d => importAll file scope (r.noteFile file d) d) r
  f.decls.foldl (fun r d => declare file (r.noteFile file d) d) r

end Resolution

/-- Resolves the files of a package. -/
def resolve (files : List File) : Resolution :=
  files.foldl Resolution.addFile .empty

/-- Resolves declarations that come without a file, imports among them in
any order. They are taken for those of a single file. -/
def resolveDecls (decls : List Decl) : Resolution :=
  let (scope, r) := Resolution.empty.addFileScope
  decls.foldl (fun r d =>
    let r := r.noteFile 0 d
    if d.form.isImport then Resolution.importAll 0 scope r d
    else Resolution.declare 0 r d) r

end GoSource
