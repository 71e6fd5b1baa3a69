/-
Packages: the source files of a directory, and what there is to report
about them.

Every file is parsed, and one that does not parse is reported and left
out. The others belong together if they have the same package clause; a
directory may hold more than one package, the second of them usually that
of its tests. Each is resolved by itself.

# Order of reports

Errors of parsing come first, in the order of the files; then what
resolving reports, one package after the other in the order of their
names.

# One arena

The files of a directory share an arena. Nothing that is reported depends
on that, since a file is parsed the same way whatever the arena holds.
-/
import GoSource.Parse
import GoSource.Syntax.Outline
import GoSource.Scope.Resolution

namespace GoSource

/-- A source file with its path. -/
structure Source where
  path : String
  text : String
deriving DecidableEq, Repr

/-- The source files of one directory. -/
structure Package where
  files : List Source
deriving DecidableEq, Repr

/-- How to check packages. -/
structure Options where
  maxDepth : Nat := defaultMaxDepth
  /-- Whether the tree of every file is to be shown. -/
  dump : Bool := false
deriving DecidableEq, Repr

-- ========================================================= diagnostics

/-- Something wrong with a file. -/
inductive Diagnostic where
  | unparsed (path : String) (error : ParseError)
  /-- The path is that of the later declaration. That of the first is
  given if it is in another file. -/
  | redeclared (path : String) (redeclaration : Redeclaration) (firstPath : Option String)
deriving DecidableEq, Repr

namespace Diagnostic

def path : Diagnostic → String
  | unparsed p _ | redeclared p _ _ => p

/-- The file of the first declaration, if it is another one. -/
def firstPath : Diagnostic → Option String
  | unparsed _ _ => none
  | redeclared _ _ p => p

/-- What is wrong, with places but without files. -/
def finding : Diagnostic → String
  | unparsed _ e => e.message
  | redeclared _ r _ => r.message

/-- What is wrong, with the files it concerns. -/
def message : Diagnostic → String
  | redeclared path r (some firstPath) =>
    path ++ ":" ++ r.describe (firstPath ++ ":" ++ r.first.text)
  | d => d.path ++ ":" ++ d.finding

end Diagnostic

-- ============================================================= reports

/-- What checking found. -/
structure Report where
  files : Nat
  packages : Nat
  diagnostics : List Diagnostic
  /-- The paths of files with their trees. -/
  trees : List (String × String)
deriving DecidableEq, Repr

namespace Report

def empty : Report := ⟨0, 0, [], []⟩

def append (a b : Report) : Report :=
  ⟨a.files + b.files, a.packages + b.packages, a.diagnostics ++ b.diagnostics,
   a.trees ++ b.trees⟩

def isClean (r : Report) : Bool := r.diagnostics.isEmpty

end Report

-- ============================================================ checking

/-- A source file with what parsing it gave. -/
structure ParsedSource where
  source : Source
  result : Except ParseError File

namespace ParsedSource

/-- Parses files one after the other into an arena. -/
def ofSources (maxDepth : Nat) : List Source → Arena → List ParsedSource
  | [], _ => []
  | s :: rest, arena =>
    let (result, arena) := parseFile s.text maxDepth arena
    ⟨s, result⟩ :: ofSources maxDepth rest arena

def diagnostic? (p : ParsedSource) : Option Diagnostic :=
  match p.result with
  | .ok _ => none
  | .error e => some (.unparsed p.source.path e)

/-- The path and the tree of a file that parsed. -/
def file? (p : ParsedSource) : Option (String × File) :=
  p.result.toOption.map (p.source.path, ·)

end ParsedSource

namespace Package

/-- The name in the package clause of a file. -/
def clauseOf (file : String × File) : String := file.2.name.name

/-- The names in package clauses, in order, each once. -/
def clauses (files : List (String × File)) : List String :=
  ((files.map clauseOf).mergeSort fun a b => !decide (b < a)).eraseDups

/-- The report of a redeclaration among files with some paths. -/
def redeclarationIn (paths : List String) (r : Redeclaration) : Diagnostic :=
  .redeclared (paths.getD r.secondFile "") r
    (if r.firstFile = r.secondFile then none else paths[r.firstFile]?)

/-- What resolving the files of one package clause reports. -/
def redeclarations (files : List (String × File)) : List Diagnostic :=
  (resolve (files.map (·.2))).errors.toList.map (redeclarationIn (files.map (·.1)))

/-- The files with some package clause. -/
def withClause (files : List (String × File)) (clause : String) : List (String × File) :=
  files.filter (clauseOf · = clause)

/-- The tree of a file, as text. -/
def treeText (file : File) : String := Outline.render (Outline.file 0 file)

/-- Checks the files of one directory. -/
def check (p : Package) (options : Options) : Report :=
  let parsed := ParsedSource.ofSources options.maxDepth p.files .empty
  let files := parsed.filterMap (·.file?)
  let names := clauses files
  { files := p.files.length
    packages := names.length
    diagnostics := parsed.filterMap (·.diagnostic?)
      ++ names.flatMap fun name => redeclarations (withClause files name)
    trees := if options.dump then files.map fun f => (f.1, treeText f.2) else [] }

/-- Checks one directory after the other. -/
def checkAll (packages : List Package) (options : Options) : Report :=
  packages.foldr (fun p r => (p.check options).append r) .empty

end Package

end GoSource
