/-
Rationals as decimal text.

A rational is written with at most twenty digits after the point, rounded
to the nearest such number, a half away from zero. Trailing zeros are
left off, but one digit after the point always stays. The minus sign is
the sign of what is written: a number that rounds to zero has none.
-/

namespace GoSource.Literal

/-- Digits after the point, at most. -/
def places : Nat := 20

/-- How many units of the last place make one. -/
def unitsInOne : Nat := Nat.pow 10 places

/-- The quotient rounded to the nearest integer, a half upwards. -/
def roundedQuotient (n d : Nat) : Nat :=
  if 2 * (n % d) ≥ d then n / d + 1 else n / d

/-- The decimal digits of a number, with zeros in front to fill a width. -/
def paddedDigits (width n : Nat) : List Char :=
  let ds := Nat.toDigits 10 n
  List.replicate (width - ds.length) '0' ++ ds

/-- Drops zeros at the end, but never the first digit. -/
def trimZeros : List Char → List Char
  | [] => []
  | c :: cs => c :: (cs.reverse.dropWhile (· = '0')).reverse

/-- The magnitude in units of the last place, rounded. -/
def scaled (r : Rat) : Nat :=
  roundedQuotient (r.num.natAbs * unitsInOne) r.den

/-- A rational in decimal. -/
def formatRational (r : Rat) : String :=
  let q := scaled r
  let sign := if r.num < 0 && q ≠ 0 then ['-'] else []
  let whole := Nat.toDigits 10 (q / unitsInOne)
  let fraction := trimZeros (paddedDigits places (q % unitsInOne))
  .ofList (sign ++ whole ++ ['.'] ++ fraction)

end GoSource.Literal
