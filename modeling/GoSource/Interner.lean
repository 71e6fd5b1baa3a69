/-
Interning: each text gets a number, the same text always the same one.

The numbers are handed out in order, so a number is a position in the
array of texts. To find a text again without comparing it with all of
them, the numbers are kept in buckets, one for each hash that has
occurred, and only the bucket of its hash is searched. The hash is a
parameter: nothing that can be observed depends on it, a bad one makes the
search longer and no answer different.
-/
namespace GoSource

/-- Texts, and for each hash the numbers of the texts that have it, in the
order in which they were given. -/
structure Interner (hash : String → Nat) where
  texts : Array String
  buckets : List (Nat × List Nat)
deriving Repr

namespace Interner

variable {hash : String → Nat}

def empty : Interner hash := ⟨#[], []⟩

/-- The numbers of the texts with a hash. -/
def bucket (t : Interner hash) (h : Nat) : List Nat := (t.buckets.lookup h).getD []

/-- The number of a text that has one. -/
def get? (t : Interner hash) (s : String) : Option Nat :=
  (t.bucket (hash s)).find? fun i => t.texts[i]? = some s

/-- The text of a number; a number never handed out stands for the empty
text. -/
def resolve (t : Interner hash) (i : Nat) : String := t.texts.getD i ""

/-- One number more at the end of the bucket of a hash, which is a new one
if there was none. -/
def addTo (h number : Nat) : List (Nat × List Nat) → List (Nat × List Nat)
  | [] => [(h, [number])]
  | (k, numbers) :: rest =>
    if k = h then (k, numbers ++ [number]) :: rest else (k, numbers) :: addTo h number rest

/-- One text more, with the next number. -/
def push (t : Interner hash) (s : String) : Interner hash :=
  ⟨t.texts.push s, addTo (hash s) t.texts.size t.buckets⟩

/-- The number of a text, which is a new one if it had none. -/
def intern (t : Interner hash) (s : String) : Nat × Interner hash :=
  match t.get? s with
  | some i => (i, t)
  | none => (t.texts.size, t.push s)

def size (t : Interner hash) : Nat := t.texts.size

def isEmpty (t : Interner hash) : Bool := t.texts.isEmpty

end Interner

/-- A hash of texts: a number in base 31 whose digits are the characters,
kept within 32 bits. -/
def textHash (s : String) : Nat :=
  s.toList.foldl (fun h c => (31 * h + c.toNat) % Nat.pow 2 32) 0

/-- The texts that occur in syntax trees: identifiers and import paths. -/
abbrev Names := Interner textHash

end GoSource
