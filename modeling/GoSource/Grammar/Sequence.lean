/-
Lists in the grammar: items with separators between them.
-/
import GoSource.Parsing.State

namespace GoSource.Grammar

open GoSource.Parser

variable {α : Type}

/-- One item more if a comma follows. -/
def afterComma (item : Parser α) (items : List α) : Parser (Turn (List α)) := do
  match ← eat .comma with
  | some _ => pure (.again ((← item) :: items))
  | none => pure (.stop items)

/-- A list of which the first item has been read: more of them, each after
a comma. -/
def afterCommas (item : Parser α) (first : α) : Parser (List α) := do
  let items ← repeating (afterComma item) [first]
  pure items.reverse

/-- One item or more, with commas between them. -/
def commaSeparated (item : Parser α) : Parser (List α) := do
  afterCommas item (← item)

/-- One item more and the separator after it, unless the list is closed.
An item is told how many have come before it. -/
def nextItem (close separator : Token.Kind) (item : Nat → Parser α) :
    Nat × List α → Parser (Turn (Nat × List α))
  | (count, items) => do
    if (← isAt close) then pure (.stop (count, items))
    else
      let items := (← item count) :: items
      match ← eat separator with
      | some _ => pure (.again (count + 1, items))
      | none => pure (.stop (count + 1, items))

/-- Items up to a closing token. A separator follows each but the last,
where it may be left out; what ends the list without being the closing
token is left to the caller, who expects that token. -/
def itemsUntil (close separator : Token.Kind) (item : Nat → Parser α) : Parser (List α) := do
  let (_, items) ← repeating (nextItem close separator item) (0, [])
  pure items.reverse

end GoSource.Grammar
