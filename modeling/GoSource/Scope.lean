/-
Scopes of a package.

A package has one scope for what its files declare, below the universe;
each file has a scope for its imports, below that of the package; and
each import has a scope of its own, directly below the universe, which
stands for the contents of the package it names. Those contents are not
known here, so that scope is empty.

Scopes are numbered as they are made. A scope refers to the one above it
by number, and the one above was always made before.

# Binding

A name is bound at most once in a scope, and the first binding stays.
What a name means in a scope is the nearest binding on the way up, and
failing that what it is predeclared as.

# Methods

A method binds its name in the package like a function does. Whatever
comes of that, it is also listed under the name of its receiver's type,
where methods of the same name and different types do not get into each
other's way.
-/
import GoSource.Scope.Universe
import GoSource.Scope.View

namespace GoSource

-- ============================================================= bindings

/-- An imported package: its path, and the number of its scope. -/
structure PackageRef where
  path : String
  scope : Nat
deriving DecidableEq, Repr

/-- What a name refers to. -/
inductive Binding where
  | predeclared (p : Predeclared)
  | const (view : Nat)
  | var (view : Nat)
  | type (decl : Decl)
  | func (decl : Decl)
  | method (decl : Decl)
  | package (ref : PackageRef)

/-- A name bound in a scope, with the place and the file where it was
bound. -/
structure BoundName where
  name : String
  binding : Binding
  place : Location
  file : Nat

/-- The names bound in one scope, in the order of binding, and the number
of the scope above; above a scope without one is the universe. -/
structure Scope where
  parent : Option Nat
  bound : List BoundName

namespace Scope

def find? (s : Scope) (name : String) : Option BoundName :=
  s.bound.find? (·.name = name)

def names (s : Scope) : List String := s.bound.map (·.name)

end Scope

/-- The name that is never bound. -/
def blank : String := "_"

-- ============================================================== package

/-- A method with the name of the type it is listed under. -/
structure IndexedMethod where
  receiver : String
  name : String
  decl : Decl

/-- All that is known about the names of a package. Files are numbered in
the order in which they were resolved. -/
structure PackageScope where
  scopes : Array Scope
  /-- The scope of each file. -/
  fileScopes : Array Nat
  /-- Numbers of declarations, with the file each is from. -/
  declFiles : List (Nat × Nat)
  consts : Array ConstView
  vars : Array VarView
  /-- Numbers of declarations with their views, in order. -/
  views : Array (Nat × View)
  methods : Array IndexedMethod

namespace PackageScope

/-- The number of the scope of the package itself. -/
def packageId : Nat := 0

/-- A package of no files. -/
def empty : PackageScope := ⟨#[⟨none, []⟩], #[], [], #[], #[], #[], #[]⟩

-- ============================================================== look-up

def scope? (p : PackageScope) (id : Nat) : Option Scope := p.scopes[id]?

/-- The nearest binding of a name on the way up from a scope, at most
`steps` scopes up; above the last one is the universe. -/
def findUpward (p : PackageScope) (name : String) : (steps : Nat) → (scope : Option Nat) →
    Option Binding
  | steps + 1, some id =>
    match p.scope? id with
    | some s =>
      match s.find? name with
      | some b => some b.binding
      | none => p.findUpward name steps s.parent
    | none => (Universe.find? name).map .predeclared
  | _, _ => (Universe.find? name).map .predeclared

/-- What a name means in a scope. There are fewer steps up than scopes,
since each leads to a scope made before. -/
def findIn (p : PackageScope) (scope : Nat) (name : String) : Option Binding :=
  p.findUpward name p.scopes.size (some scope)

/-- What a name means in the package, outside any file. -/
def find (p : PackageScope) (name : String) : Option Binding := p.findIn packageId name

/-- What is bound by a name in a scope itself. -/
def boundIn (p : PackageScope) (scope : Nat) (name : String) : Option BoundName := do
  (← p.scope? scope).find? name

/-- Where a name was bound in a scope itself. -/
def declaredAt (p : PackageScope) (scope : Nat) (name : String) : Option Location :=
  (p.boundIn scope name).map (·.place)

/-- The first method of a name listed under a type. -/
def findMethod (p : PackageScope) (receiver name : String) : Option Decl :=
  (p.methods.find? fun m => m.receiver = receiver && m.name = name).map (·.decl)

-- ================================================================ files

def fileCount (p : PackageScope) : Nat := p.fileScopes.size

def fileScope (p : PackageScope) (file : Nat) : Option Nat := p.fileScopes[file]?

/-- The scope of the file that a declaration at top level is from. -/
def fileScopeOf (p : PackageScope) (decl : Decl) : Option Nat := do
  p.fileScope (← p.declFiles.lookup decl.id)

-- ================================================================ views

/-- The views of a declaration, one for each of its identifiers. -/
def viewsOf (p : PackageScope) (decl : Decl) : List View :=
  p.views.toList.filterMap fun (id, v) => if id = decl.id then some v else none

/-- Changes one constant, and returns what the change answers. -/
def updateConst {α : Type} (p : PackageScope) (number : Nat) (change : ConstView → α × ConstView) :
    Option (α × PackageScope) :=
  match p.consts[number]? with
  | some v =>
    let (answer, v') := change v
    some (answer, { p with consts := p.consts.setIfInBounds number v' })
  | none => none

end PackageScope

end GoSource
