/-
Passages: what a parse does to its cursor.

A production moves the cursor over some tokens and leaves the modes as
they were. `Parsing.Passes s ts s'` says so: from `s` to `s'` exactly the
tokens `ts` were taken, one after the other, none of them the end of the
input. Nothing is said of the arena, the comments or the trace, so a step
that touches only those is a passage over no tokens.

# Turns

A repetition is given more turns than there are tokens
(`Parsing.turns`). That this is enough is a fact about passages: taking a
token that is not the end of the input leaves fewer of them
(`Cursor.Takes.left_add_length`), so as long as a parse only passes, the
turns left over never run out (`Parsing.Fueled`).

# Modes

`Mode` is the part of the state on which the meaning of tokens depends.
The point `x.(type)` may be taken away in passing, but is never given
back: a state fits a mode if it allows at most what the mode allows.
-/
import GoSource.Parsing.State

namespace GoSource

-- ============================================================== cursors

/-- Where a parse stands among the tokens. -/
structure Cursor where
  current : Token
  ahead : Token.Stream
  previousEnd : Location

namespace Cursor

/-- Past the current token. -/
def next (c : Cursor) : Cursor :=
  ⟨c.ahead.next.1.token, c.ahead.next.2, c.current.span.stop⟩

/-- The tokens between two places, none of which is the end of the
input. -/
def Takes : Cursor → List Token → Cursor → Prop
  | c, [], d => c = d
  | c, t :: ts, d => c.current = t ∧ t.kind ≠ .eof ∧ c.next.Takes ts d

/-- How many tokens there are before the end of the input, if the stream
says `eof` at its end only. -/
def left (c : Cursor) : Nat :=
  if c.current.kind = .eof then 0 else c.ahead.lexemes.length + 1

variable {c d e : Cursor} {t : Token} {ts us : List Token}

@[simp] theorem takes_nil : c.Takes [] d ↔ c = d := Iff.rfl

@[simp] theorem takes_cons :
    c.Takes (t :: ts) d ↔ c.current = t ∧ t.kind ≠ .eof ∧ c.next.Takes ts d :=
  Iff.rfl

theorem takes_append : c.Takes (ts ++ us) e ↔ ∃ d, c.Takes ts d ∧ d.Takes us e := by
  induction ts generalizing c with
  | nil => simp
  | cons t ts ih => simp only [List.cons_append, takes_cons, ih]; grind

theorem Takes.append (h : c.Takes ts d) (h' : d.Takes us e) : c.Takes (ts ++ us) e :=
  takes_append.mpr ⟨d, h, h'⟩

/-- Taking a token that is not the end leaves fewer. -/
theorem left_next_lt (h : c.current.kind ≠ .eof) : c.next.left < c.left := by
  unfold left next Token.Stream.next
  rw [if_neg h]
  cases c.ahead.lexemes with
  | nil => simp [Token.atEnd]
  | cons l rest => dsimp only; split <;> simp

/-- Every token taken is one that was left. -/
theorem Takes.left_add_length (h : c.Takes ts d) : d.left + ts.length ≤ c.left := by
  induction ts generalizing c with
  | nil => rw [takes_nil.mp h]; simp
  | cons t ts ih =>
    obtain ⟨rfl, ht, h⟩ := takes_cons.mp h
    have hlt := left_next_lt ht
    have hle := ih h
    simp only [List.length_cons]
    omega

/-- What is taken ends where the place reached says that it ends. -/
theorem Takes.previousEnd (h : c.Takes ts d) (hne : ts ≠ []) :
    d.previousEnd = (ts.getLast hne).span.stop := by
  induction ts generalizing c with
  | nil => exact absurd rfl hne
  | cons t ts ih =>
    obtain ⟨rfl, -, h⟩ := takes_cons.mp h
    cases ts with
    | nil => rw [← takes_nil.mp h]; rfl
    | cons u us => rw [ih h (by simp), List.getLast_cons_cons]

theorem Takes.current_eq_head (h : c.Takes ts d) (hne : ts ≠ []) :
    c.current = ts.head hne := by
  cases ts with
  | nil => exact absurd rfl hne
  | cons t ts => exact h.1

end Cursor

-- ============================================================== extents

/-- From where the first of some tokens starts to where the last ends. -/
def extent (ts : List Token) : Span :=
  ⟨(ts.head?.map (·.span.start)).getD .nowhere, (ts.getLast?.map (·.span.stop)).getD .nowhere⟩

theorem extent_cons {t : Token} {ts : List Token} (hne : ts ≠ []) :
    extent (t :: ts) = t.span.through (extent ts) := by
  cases ts with
  | nil => exact absurd rfl hne
  | cons u us => rfl

theorem extent_append {ts us : List Token} (hts : ts ≠ []) (hus : us ≠ []) :
    extent (ts ++ us) = (extent ts).through (extent us) := by
  unfold extent Span.through
  rw [List.head?_append, List.getLast?_append, List.head?_eq_some_head hts,
    List.getLast?_eq_some_getLast hus]
  rfl

theorem extent_bracketed (l r : Token) (ts : List Token) :
    extent (l :: (ts ++ [r])) = l.span.through r.span := by
  unfold extent
  rw [← List.cons_append, List.getLast?_concat]
  rfl

-- ================================================================ modes

/-- What the meaning of tokens depends on: whether a header is being read,
and whether `x.(type)` is acceptable. -/
structure Mode where
  inHeader : Bool
  guard : Bool

namespace Mode

/-- Between brackets of any kind, and outside all of them. -/
def inside : Mode := ⟨false, false⟩

/-- In the header of an `if` or `for`. -/
def header (m : Mode) : Mode := { m with inHeader := true }

@[simp] theorem inside_inHeader : inside.inHeader = false := rfl

@[simp] theorem inside_guard : inside.guard = false := rfl

@[simp] theorem header_inHeader (m : Mode) : m.header.inHeader = true := rfl

@[simp] theorem header_guard (m : Mode) : m.header.guard = m.guard := rfl

end Mode

namespace Parsing

/-- The place of a parse among its tokens. -/
def cursor (s : Parsing) : Cursor := ⟨s.current, s.ahead, s.previousEnd⟩

@[simp] theorem cursor_next (s : Parsing) : s.next.cursor = s.cursor.next := rfl

@[simp] theorem cursor_current (s : Parsing) : s.cursor.current = s.current := rfl

@[simp] theorem cursor_previousEnd (s : Parsing) : s.cursor.previousEnd = s.previousEnd := rfl

/-- The turns of a repetition cannot run out from here. -/
def Fueled (s : Parsing) : Prop := s.cursor.left < s.turns

/-- A state in which what a mode allows may be read. -/
structure Ready (m : Mode) (s : Parsing) : Prop where
  inHeader : s.inHeader = m.inHeader
  guard : s.guardAllowed = true → m.guard = true
  fueled : s.Fueled

/-- From one state to another exactly these tokens were taken. -/
structure Passes (s : Parsing) (ts : List Token) (s' : Parsing) : Prop where
  takes : s.cursor.Takes ts s'.cursor
  inHeader : s'.inHeader = s.inHeader
  guard : s'.guardAllowed = true → s.guardAllowed = true
  turns : s'.turns = s.turns

variable {s s' s'' : Parsing} {ts us : List Token} {m : Mode}

theorem Passes.refl (s : Parsing) : s.Passes [] s := ⟨rfl, rfl, id, rfl⟩

theorem Passes.trans (h : s.Passes ts s') (h' : s'.Passes us s'') : s.Passes (ts ++ us) s'' :=
  ⟨h.takes.append h'.takes, h'.inHeader.trans h.inHeader, h.guard ∘ h'.guard,
    h'.turns.trans h.turns⟩

theorem Passes.next (h : s.current.kind ≠ .eof) : s.Passes [s.current] s.next :=
  ⟨⟨rfl, h, rfl⟩, rfl, id, rfl⟩

theorem Fueled.passes (hs : s.Fueled) (h : s.Passes ts s') : s'.Fueled := by
  have hle := h.takes.left_add_length
  unfold Fueled at hs ⊢
  rw [h.turns]
  omega

theorem Ready.passes (hs : s.Ready m) (h : s.Passes ts s') : s'.Ready m :=
  ⟨h.inHeader.trans hs.inHeader, hs.guard ∘ h.guard, hs.fueled.passes h⟩

/-- The span from the first token taken to the last. -/
theorem Passes.extent (h : s.Passes ts s') (hne : ts ≠ []) :
    (⟨s.current.span.start, s'.previousEnd⟩ : Span) = extent ts := by
  have hstart := h.takes.current_eq_head hne
  have hstop := h.takes.previousEnd hne
  rw [cursor_current] at hstart
  rw [cursor_previousEnd] at hstop
  rw [hstart, hstop, GoSource.extent, List.head?_eq_some_head hne,
    List.getLast?_eq_some_getLast hne]
  rfl

/-- The same with a token in front that was taken before. -/
theorem Passes.extent_cons (h : s.Passes ts s') (hne : ts ≠ []) (t : Token) :
    (⟨t.span.start, s'.previousEnd⟩ : Span) = GoSource.extent (t :: ts) := by
  rw [GoSource.extent_cons hne, ← h.extent hne]
  rfl

end Parsing

end GoSource
