/-
Tables and ranges.

The nodes of a kind are rows of a table, and their spans are kept in a
second array beside it. The number of a node is its place in both. A list
is no value of its own either: its items lie in a buffer with those of
other lists, and it is known by a start and a length (`ListRef`).

Reading at a number or a range that does not exist gives nothing.
-/
import GoSource.Location

namespace GoSource.Stored

variable {α : Type}

-- ================================================================ ranges

/-- A range of a buffer, where the items of a list are. -/
structure ListRef where
  start : Nat
  length : Nat
deriving DecidableEq, Repr

namespace ListRef

/-- The list without items that needs no buffer. -/
def empty : ListRef := ⟨0, 0⟩

/-- Where the range ends. -/
def stop (r : ListRef) : Nat := r.start + r.length

end ListRef

/-- Appends items to a buffer. They are the range from where the buffer
ended to where it ends now. -/
def pushList (buffer : Array α) (items : List α) : ListRef × Array α :=
  let longer := buffer.appendList items
  (⟨buffer.size, longer.size - buffer.size⟩, longer)

/-- The items of a range, which must lie within the buffer. -/
def slice (buffer : Array α) (r : ListRef) : Option (List α) :=
  if r.stop ≤ buffer.size then some (buffer.extract r.start r.stop).toList else none

-- ================================================================ tables

/-- Rows with their spans. -/
structure Table (α : Type) where
  rows : Array α
  spans : Array Span

namespace Table

def empty : Table α := ⟨#[], #[]⟩

/-- One row more; its number is how many there were. -/
def alloc (t : Table α) (row : α) (span : Span) : Nat × Table α :=
  (t.rows.size, ⟨t.rows.push row, t.spans.push span⟩)

def row? (t : Table α) (id : Nat) : Option α := t.rows[id]?

def span? (t : Table α) (id : Nat) : Option Span := t.spans[id]?

end Table

end GoSource.Stored
