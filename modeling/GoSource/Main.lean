/-
The program: a run with the real file system and the real arguments.

Nothing is decided here. The file system answers what loading asks, and
the outcome of a run is written where it belongs.
-/
import GoSource.CommandLine

namespace GoSource

/-- The number and the words of an error. -/
def codeAndWords : IO.Error → UInt32 × String
  | .noFileOrDirectory _ code words | .interrupted _ code words
  | .permissionDenied _ code words | .resourceExhausted _ code words
  | .inappropriateType _ code words | .noSuchThing _ code words
  | .invalidArgument _ code words | .alreadyExists _ code words
  | .otherError code words | .resourceBusy code words | .resourceVanished code words
  | .unsupportedOperation code words | .hardwareFault code words
  | .unsatisfiedConstraints code words | .illegalOperation code words
  | .protocolError code words | .timeExpired code words => (code, words)
  | .unexpectedEof => (0, "unexpected end of file")
  | .userError text => (0, text)

/-- An error of the system as it is reported. Its number may come negated,
in a word of 32 bits. -/
def SystemError.ofIOError (e : IO.Error) : SystemError :=
  let (code, words) := codeAndWords e
  .ofCode code.toInt32.toInt.natAbs words

/-- What an action gives, with an error of the system as an answer. -/
def attempt {α : Type} (action : IO α) : IO (Except SystemError α) := do
  match ← action.toBaseIO with
  | .ok a => pure (.ok a)
  | .error e => pure (.error (.ofIOError e))

def EntryKind.ofFileType : IO.FS.FileType → EntryKind
  | .file => .file
  | .dir => .directory
  | .symlink | .other => .other

/-- The kind of what a path leads to. An empty path leads nowhere, which
joining it to the working directory would hide. -/
def kindOf (path : String) : IO (Except SystemError EntryKind) := do
  if path = "" then pure (.error .noSuchFile)
  else
    let place := (← IO.currentDir) / path
    attempt do pure (.ofFileType (← place.metadata).type)

/-- The entries of a directory. A link is no file, wherever it leads. -/
def entriesOf (path : String) : IO (Except SystemError (List DirectoryEntry)) := do
  let place := (← IO.currentDir) / path
  attempt do
    (← place.readDir).toList.mapM fun e => do
      pure ⟨e.fileName, .ofFileType (← e.path.symlinkMetadata).type⟩

/-- The bytes of a file. -/
def bytesOf (path : String) : IO (Except SystemError (List UInt8)) :=
  attempt do pure (← IO.FS.readBinFile path).toList

/-- The file system of the machine. -/
def realFileSystem : FileSystem IO := ⟨kindOf, entriesOf, bytesOf⟩

/-- Runs with some arguments, and returns how the run ended. -/
def runProgram (args : List String) : IO UInt32 := do
  let o ← runArgs realFileSystem args
  IO.print o.output
  IO.eprint o.errors
  pure o.exitCode.toUInt32

end GoSource

def main (args : List String) : IO UInt32 := GoSource.runProgram args
