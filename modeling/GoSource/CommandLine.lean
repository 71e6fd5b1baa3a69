/-
The command line: what arguments ask for, and what a run says.

A run writes trees to the standard output, and everything else to the
standard error. It ends with 0 if there was nothing to report, with 1 if
there was, and with 2 if the arguments make no sense.

# Arguments

All that begins with a dash must be an option, wherever it stands, and
there is no way to name a file like that. Arguments are read from left
to right, and the last of repeated options counts.
-/
import GoSource.Literal.Digits
import GoSource.Package.Load

namespace GoSource

/-- What arguments ask for. -/
structure Invocation where
  options : Options
  paths : List String
deriving DecidableEq, Repr

namespace Invocation

/-- A depth as an argument gives it; it must fit a machine word. -/
def depth? (text : String) : Option Nat :=
  (Literal.signedUp 10 text.toList).filter (· < Nat.pow 2 64)

/-- Reads arguments, given what those before them asked for. -/
def read? (i : Invocation) : List String → Option Invocation
  | [] => some i
  | arg :: rest =>
    if arg = "--max-depth" then
      match rest with
      | [] => none
      | text :: rest =>
        match depth? text with
        | none => none
        | some maxDepth => read? { i with options := { i.options with maxDepth } } rest
    else if arg = "--dump" then
      read? { i with options := { i.options with dump := true } } rest
    else if arg.toList.head? = some '-' then none
    else read? { i with paths := i.paths ++ [arg] } rest

/-- What arguments ask for, if they make sense. At least one path must be
among them. -/
def ofArgs? (args : List String) : Option Invocation :=
  (read? ⟨{}, []⟩ args).filter (!·.paths.isEmpty)

end Invocation

-- =============================================================== outcome

/-- What a run writes, and how it ends. -/
structure Outcome where
  exitCode : UInt8
  output : String
  errors : String
deriving DecidableEq, Repr

def line (text : String) : String := text ++ "\n"

namespace Outcome

def usage : Outcome :=
  ⟨2, "", line "usage:" ++ line "  gofront [--max-depth <n>] [--dump] <file.go | dir>..."⟩

def ofLoadError (e : LoadError) : Outcome := ⟨1, "", line ("error: " ++ e.message)⟩

def ofReport (r : Report) : Outcome :=
  ⟨if r.isClean then 0 else 1,
   String.join (r.trees.map fun (path, tree) => line ("# " ++ path) ++ tree),
   String.join (r.diagnostics.map (line ·.message))⟩

end Outcome

namespace Invocation

variable {m : Type → Type} [Monad m] (fs : FileSystem m)

/-- Checks what is asked for. -/
def outcome (i : Invocation) : m Outcome := do
  match ← (Package.load fs i.paths).run with
  | .error e => pure (.ofLoadError e)
  | .ok packages => pure (.ofReport (Package.checkAll packages i.options))

end Invocation

/-- The outcome of a run with some arguments. -/
def runArgs {m : Type → Type} [Monad m] (fs : FileSystem m) (args : List String) : m Outcome :=
  match Invocation.ofArgs? args with
  | none => pure .usage
  | some i => i.outcome fs

end GoSource
