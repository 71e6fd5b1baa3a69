/-
Loading packages by the paths of files and directories.

A path to a directory stands for the source files in it, and any other
path for the file it leads to, whatever that is called. Files are put
together by directory. What a directory is, for that purpose, is decided
by the parts of a path alone: the file system is not asked whether two
paths lead to one place.

# Order of errors

Every path is looked at before any file is read. So a path that leads
nowhere is reported in preference to a file that cannot be read, also if
it comes later.
-/
import GoSource.Package
import GoSource.Package.FileSystem
import GoSource.Package.Path
import GoSource.Text.Utf8

namespace GoSource

/-- Why packages cannot be loaded. -/
inductive LoadError where
  | inaccessible (path : String) (error : SystemError)
  | unlistable (path : String) (error : SystemError)
  | unreadable (path : String) (error : SystemError)
  /-- A file whose bytes are not UTF-8. -/
  | notText (path : String)
  | noFiles
deriving DecidableEq, Repr

def LoadError.message : LoadError → String
  | inaccessible path e => "cannot access " ++ path ++ ": " ++ e.message
  | unlistable path e =>
    "listing " ++ path ++ ": IO error for operation on " ++ path ++ ": " ++ e.message
      ++ ": " ++ e.message
  | unreadable path e => "reading " ++ path ++ ": " ++ e.message
  | notText path => "reading " ++ path ++ ": stream did not contain valid UTF-8"
  | noFiles => "no Go files found"

namespace Package

-- ============================================================ grouping

/-- The files that a path stands for, and the parts of the directory they
are put under. -/
structure Named where
  dir : List PathPart
  files : List String
deriving DecidableEq, Repr

/-- Whether an entry of a directory is a source file. A dot in front of a
name begins no extension. -/
def isSourceFile (e : DirectoryEntry) : Bool :=
  e.kind = .file && ".go".toList.isSuffixOf e.name.toList && e.name ≠ ".go"

/-- The files of one directory, of all that were named. -/
def filesUnder (named : List Named) (dir : List PathPart) : List String :=
  Path.ordered ((named.filter (·.dir = dir)).flatMap (·.files))

/-- The directories in order, each once. -/
def directories (named : List Named) : List (List PathPart) :=
  ((named.map (·.dir)).mergeSort fun a b => !Path.partsBefore b a).eraseDups

/-- The files of each directory that has any. -/
def grouped (named : List Named) : List (List String) :=
  ((directories named).map (filesUnder named)).filter (!·.isEmpty)

-- ============================================================= loading

variable {m : Type → Type} [Monad m] (fs : FileSystem m)

/-- What a path stands for. -/
def named (path : String) : ExceptT LoadError m Named := do
  match ← fs.kind path with
  | .error e => throw (.inaccessible path e)
  | .ok .directory =>
    match ← fs.entries path with
    | .error e => throw (.unlistable path e)
    | .ok entries =>
      pure ⟨Path.parts path, (entries.filter isSourceFile).map (Path.join path ·.name)⟩
  | .ok _ => pure ⟨(Path.parts path).dropLast, [path]⟩

/-- A source file read from its path. -/
def readSource (path : String) : ExceptT LoadError m Source := do
  match ← fs.read path with
  | .error e => throw (.unreadable path e)
  | .ok bytes =>
    match Text.exactText bytes with
    | none => throw (.notText path)
    | some text => pure ⟨path, text⟩

/-- Loads the packages that some paths stand for. -/
def load (paths : List String) : ExceptT LoadError m (List Package) := do
  let names ← paths.mapM (named fs)
  let packages ← (grouped names).mapM fun files =>
    Package.mk <$> files.mapM (readSource fs)
  if packages.isEmpty then throw .noFiles else pure packages

end Package

end GoSource
