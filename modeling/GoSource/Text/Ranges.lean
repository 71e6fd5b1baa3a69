/-
Classes of characters given by ranges of code points.

A class is an ascending list of disjoint ranges, both ends included. The
search stops at the first range that starts beyond the character, so an
ASCII character is settled within the first few ranges of any table.
-/

namespace GoSource.Text

/-- The number lies in one of the ranges, which ascend. -/
def inRanges : List (Nat × Nat) → Nat → Bool
  | [], _ => false
  | (low, high) :: rest, n => !(n < low) && (n ≤ high || inRanges rest n)

end GoSource.Text
