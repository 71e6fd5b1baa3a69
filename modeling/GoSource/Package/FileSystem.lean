/-
What has to be known of a file system to load packages from it.

A file system answers three questions about paths, in a monad of its own.
The answers of the real one come from outside; those of a `Snapshot` are
computed, in no monad at all. Errors are those of the system, told in its
own words.
-/

namespace GoSource

/-- An error of the system: its number, and the words for it. -/
structure SystemError where
  code : Nat
  reason : String
deriving DecidableEq, Repr

namespace SystemError

def message (e : SystemError) : String :=
  e.reason ++ " (os error " ++ toString e.code ++ ")"

def noSuchFile : SystemError := ⟨2, "No such file or directory"⟩
def accessDenied : SystemError := ⟨13, "Permission denied"⟩
def notDirectory : SystemError := ⟨20, "Not a directory"⟩
def isDirectory : SystemError := ⟨21, "Is a directory"⟩
def nameTooLong : SystemError := ⟨36, "File name too long"⟩
def tooManyLinks : SystemError := ⟨40, "Too many levels of symbolic links"⟩

/-- The errors that following a path usually meets. -/
def usual : List SystemError :=
  [noSuchFile, accessDenied, notDirectory, isDirectory, nameTooLong, tooManyLinks]

/-- The error of a number. It has the usual words if it is a usual one,
and those that come with it otherwise. -/
def ofCode (code : Nat) (reason : String) : SystemError :=
  (usual.find? (·.code = code)).getD ⟨code, reason⟩

end SystemError

/-- What a path can lead to. -/
inductive EntryKind where
  | file | directory | other
deriving DecidableEq, Repr

/-- A named entry of a directory. -/
structure DirectoryEntry where
  name : String
  kind : EntryKind
deriving DecidableEq, Repr

/-- A file system as far as loading asks. -/
structure FileSystem (m : Type → Type) where
  /-- What a path leads to. -/
  kind (path : String) : m (Except SystemError EntryKind)
  /-- What is in a directory, in no certain order. -/
  entries (path : String) : m (Except SystemError (List DirectoryEntry))
  /-- What is in a file. -/
  read (path : String) : m (Except SystemError (List UInt8))

end GoSource
