/-
Digits and the numbers they spell.

One reading serves every base from two to sixteen: a letter is a digit
of value ten and up, in either case, and a character counts as a digit
only if its value lies below the base.
-/

namespace GoSource.Literal

/-- The value of a character as a digit, in whatever base. -/
def digitValue (c : Char) : Option Nat :=
  if '0' ≤ c && c ≤ '9' then some (c.toNat - '0'.toNat)
  else if 'a' ≤ c && c ≤ 'z' then some (c.toNat - 'a'.toNat + 10)
  else if 'A' ≤ c && c ≤ 'Z' then some (c.toNat - 'A'.toNat + 10)
  else none

/-- The value of a character as a digit of the base. -/
def digit (base : Nat) (c : Char) : Option Nat :=
  (digitValue c).filter (· < base)

def isDigit (base : Nat) (c : Char) : Bool := (digit base c).isSome

/-- The number spelled by digits, the first counting most; no digits at
all spell zero. Nothing is returned where a character is no digit. -/
def digits (base : Nat) (cs : List Char) : Option Nat :=
  cs.foldlM (fun v c => (digit base c).map (v * base + ·)) 0

/-- The number spelled by at least one digit. -/
def number (base : Nat) (cs : List Char) : Option Nat :=
  if cs.isEmpty then none else digits base cs

/-- A number that a plus sign may precede. -/
def signedUp (base : Nat) : List Char → Option Nat
  | '+' :: cs => number base cs
  | cs => number base cs

/-- An integer in decimal, with either sign or none. -/
def signedNumber : List Char → Option Int
  | '-' :: cs => (number 10 cs).map fun n => -(n : Int)
  | cs => (signedUp 10 cs).map Int.ofNat

end GoSource.Literal
