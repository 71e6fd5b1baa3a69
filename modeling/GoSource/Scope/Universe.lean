/-
The universe: names that every source knows without declaring them.

They are the same everywhere and never change, so they are a table and no
part of any state. A predeclared name has no place in a source.
-/

namespace GoSource

/-- What a predeclared name stands for. -/
inductive PredeclaredKind where
  | type
  | const
  /-- The value `nil`, which is of no one type. -/
  | nil
  | func
deriving DecidableEq, Repr

/-- A predeclared name. Two types are other names of a third. -/
structure Predeclared where
  name : String
  kind : PredeclaredKind
  aliasOf : Option String
deriving DecidableEq, Repr

namespace Universe

def types : List (String × Option String) :=
  [("bool", none), ("byte", some "uint8"), ("complex64", none), ("complex128", none),
   ("error", none), ("float32", none), ("float64", none), ("int", none), ("int8", none),
   ("int16", none), ("int32", none), ("int64", none), ("rune", some "int32"),
   ("string", none), ("uint", none), ("uint8", none), ("uint16", none), ("uint32", none),
   ("uint64", none), ("uintptr", none)]

def consts : List String := ["true", "false", "iota"]

def funcs : List String :=
  ["append", "cap", "close", "complex", "copy", "delete", "imag", "len", "make", "new",
   "panic", "print", "println", "real", "recover"]

/-- All predeclared names. -/
def names : List Predeclared :=
  types.map (fun (name, aliasOf) => ⟨name, .type, aliasOf⟩)
    ++ consts.map (⟨·, .const, none⟩)
    ++ [⟨"nil", .nil, none⟩]
    ++ funcs.map (⟨·, .func, none⟩)

/-- What a name is predeclared as, if it is. -/
def find? (name : String) : Option Predeclared :=
  names.find? (·.name = name)

end Universe

end GoSource
