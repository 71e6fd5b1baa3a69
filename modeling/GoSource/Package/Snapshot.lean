/-
A file system that does not change: some files and directories below a
working directory.

A place is a directory or a file below the working directory, given by
its *address*, the names on the way down to it. All addresses are there
whose continuation is, so a file brings its directories with it. What is
not below the working directory is not known, and is taken for
directories with nothing in them.
-/
import GoSource.Package.FileSystem
import GoSource.Package.Path

namespace GoSource

/-- The names on the way from the working directory down to a place. -/
abbrev Address := List String

/-- Files with their contents, and directories that are there even if
nothing is in them. -/
structure Snapshot where
  files : List (Address × List UInt8)
  directories : List Address

namespace Snapshot

/-- Where a path may lead: below the working directory, or elsewhere. -/
inductive Place where
  | below (address : Address)
  | elsewhere
deriving DecidableEq, Repr

-- ================================================= what is at an address

/-- All addresses given, of files and of directories. -/
def addresses (s : Snapshot) : List Address := s.files.map (·.1) ++ s.directories

def contentsAt (s : Snapshot) (a : Address) : Option (List UInt8) := s.files.lookup a

/-- Whether anything is at an address. -/
def holds (s : Snapshot) (a : Address) : Bool :=
  a.isEmpty || s.addresses.any a.isPrefixOf

def kindAt (s : Snapshot) : Place → EntryKind
  | .elsewhere => .directory
  | .below a => if (s.contentsAt a).isSome then .file else .directory

/-- The names that follow an address, each once. -/
def namesBelow (s : Snapshot) (a : Address) : List String :=
  (s.addresses.filterMap fun b => if a.isPrefixOf b then b[a.length]? else none).eraseDups

-- ======================================================= following a path

/-- The longest name, in bytes, that the system takes. -/
def maxName : Nat := 255

/-- One more than the longest path, in bytes. -/
def maxPath : Nat := 4096

/-- Goes on from a place by a stretch of a path. Only a directory can be
gone on from, even by an empty stretch. -/
def follow (s : Snapshot) (place : Place) (stretch : List Char) : Except SystemError Place :=
  if s.kindAt place ≠ .directory then .error .notDirectory
  else if stretch = [] || stretch = ['.'] then .ok place
  else if stretch = ['.', '.'] then
    match place with
    | .below [] | .elsewhere => .ok .elsewhere
    | .below a => .ok (.below a.dropLast)
  else if maxName < (String.ofList stretch).utf8ByteSize then .error .nameTooLong
  else match place with
    | .elsewhere => .error .noSuchFile
    | .below a =>
      let b := a ++ [String.ofList stretch]
      if s.holds b then .ok (.below b) else .error .noSuchFile

/-- The place that a path leads to. -/
def locate (s : Snapshot) (path : String) : Except SystemError Place :=
  if path = "" then .error .noSuchFile
  else if maxPath ≤ path.utf8ByteSize then .error .nameTooLong
  else
    let start := if path.toList.head? = some '/' then Place.elsewhere else .below []
    (Path.stretches path.toList).foldlM s.follow start

-- ======================================================== the file system

/-- The entries of a place. -/
def entriesOf (s : Snapshot) : Place → List DirectoryEntry
  | .elsewhere => []
  | .below a => (s.namesBelow a).map fun name => ⟨name, s.kindAt (.below (a ++ [name]))⟩

/-- The contents of the file at a place. -/
def readAt (s : Snapshot) : Place → Except SystemError (List UInt8)
  | .elsewhere => .error .isDirectory
  | .below a =>
    match s.contentsAt a with
    | some bytes => .ok bytes
    | none => .error .isDirectory

/-- A snapshot as a file system. -/
def fileSystem (s : Snapshot) : FileSystem Id where
  kind path := (s.locate path).map s.kindAt
  entries path := (s.locate path).map s.entriesOf
  read path := (s.locate path).bind s.readAt

end Snapshot

end GoSource
