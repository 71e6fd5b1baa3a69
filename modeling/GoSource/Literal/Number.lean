/-
The values of numeric literals.

Values are exact: an integer literal is a natural number, a
floating-point or imaginary literal a rational. A text that spells no
number has no value; the lexer lets many such texts pass as one token
(`08`, `1e`, `0x`), and it is here that they are found out.

Underscores are dropped wherever they stand, before anything else is
looked at. The one exception is the prefix of an imaginary literal, which
is looked for in the text as written.

# Exponents

An exponent scales by a power of ten, or of two in a hexadecimal float.
Its magnitude is limited, so that a short text cannot ask for an
enormous number.
-/
import GoSource.Literal.Digits

namespace GoSource.Literal

/-- A number written without its underscores. -/
def withoutUnderscores (cs : List Char) : List Char :=
  cs.filter (· ≠ '_')

-- ============================================================= integers

/-- The base and the digits of an integer. A zero with anything after it
is a prefix: of the base its letter names, and of base eight if it is no
such letter. -/
def integerParts : List Char → Nat × List Char
  | '0' :: 'x' :: rest | '0' :: 'X' :: rest => (16, rest)
  | '0' :: 'o' :: rest | '0' :: 'O' :: rest => (8, rest)
  | '0' :: 'b' :: rest | '0' :: 'B' :: rest => (2, rest)
  | '0' :: c :: rest => (8, c :: rest)
  | cs => (10, cs)

/-- The value of an integer literal. -/
def intValue (text : List Char) : Option Nat :=
  let (base, ds) := integerParts (withoutUnderscores text)
  number base ds

-- ============================================================ rationals

/-- The largest magnitude of an exponent. -/
def maxExponent : Nat := 65536

/-- `mantissa / denominator * base ^ exponent`, for exponents within the
limit. -/
def scale (mantissa denominator base : Nat) (exponent : Int) : Option Rat :=
  if exponent.natAbs > maxExponent then none
  else
    let factor := Nat.pow base exponent.natAbs
    if 0 ≤ exponent then some (mkRat (mantissa * factor) denominator)
    else some (mkRat mantissa (denominator * factor))

/-- A text cut at the first character of a set: what stands before it,
and, if there is one, what stands after it. -/
def cutAt (p : Char → Bool) (cs : List Char) : List Char × Option (List Char) :=
  match cs.dropWhile (!p ·) with
  | [] => (cs, none)
  | _ :: after => (cs.takeWhile (!p ·), some after)

/-- Digits with at most one point among them, at least one digit in all:
the number they spell without the point, and how many of them stand
after it. -/
def mantissa (base : Nat) (cs : List Char) : Option (Nat × Nat) := do
  let (whole, fraction) := cutAt (· = '.') cs
  let fraction := fraction.getD []
  let value ← number base (whole ++ fraction)
  pure (value, fraction.length)

/-- A decimal float: the exponent may be missing. -/
def decimalFloat (cs : List Char) : Option Rat := do
  let (m, exponent) := cutAt (fun c => c = 'e' || c = 'E') cs
  let e ← match exponent with
    | none => some 0
    | some ds => signedNumber ds
  let (value, places) ← mantissa 10 m
  scale value (Nat.pow 10 places) 10 e

/-- The part of a hexadecimal float after its prefix: the exponent, which
is one of two, must be there. -/
def hexFloat (cs : List Char) : Option Rat := do
  let (m, exponent) := cutAt (fun c => c = 'p' || c = 'P') cs
  let e ← signedNumber (← exponent)
  let (value, places) ← mantissa 16 m
  scale value (Nat.pow 16 places) 2 e

/-- The value of a floating-point literal. -/
def floatValue (text : List Char) : Option Rat :=
  match withoutUnderscores text with
  | '0' :: 'x' :: rest | '0' :: 'X' :: rest => hexFloat rest
  | cs => decimalFloat cs

-- =========================================================== imaginaries

/-- The text starts with the prefix of a base other than ten. -/
def hasBasePrefix : List Char → Bool
  | '0' :: c :: _ => c ∈ ['x', 'X', 'o', 'O', 'b', 'B']
  | _ => false

/-- The text starts like a hexadecimal number. -/
def hasHexPrefix : List Char → Bool
  | '0' :: c :: _ => c ∈ ['x', 'X']
  | _ => false

/-- The value of an imaginary literal, which is what stands before its
final `i`. An integer without the prefix of a base is decimal there, also
if it starts with a zero. -/
def imagValue (text : List Char) : Option Rat :=
  if text.getLast? = some 'i' then
    let body := text.dropLast
    let isHexFloat := hasHexPrefix body && body.any fun c => c ∈ ['p', 'P', '.']
    if hasBasePrefix body && !isHexFloat then (intValue body).map fun n => (n : Rat)
    else floatValue body
  else none

end GoSource.Literal
