/-
Lists in the grammar, for parsers that build in a store.

These collect what is to become a list; where it becomes one is up to the
production that has use for it.
-/
import GoSource.Storage.Parser

namespace GoSource.Stored.Grammar

open GoSource.Parser (Turn)
open GoSource.Stored.Parser

variable {α : Type}

/-- One item more if a comma follows. -/
def afterComma (item : Parser α) (items : List α) : Parser (Turn (List α)) := do
  match ← eat .comma with
  | some _ => pure (.again ((← item) :: items))
  | none => pure (.stop items)

/-- A list of which the first item has been read. -/
def afterCommas (item : Parser α) (first : α) : Parser (List α) := do
  let items ← repeating (afterComma item) [first]
  pure items.reverse

/-- One item or more, with commas between them. -/
def commaSeparated (item : Parser α) : Parser (List α) := do
  afterCommas item (← item)

/-- One item more and the separator after it, unless the list is closed. -/
def nextItem (close separator : Token.Kind) (item : Nat → Parser α) :
    Nat × List α → Parser (Turn (Nat × List α))
  | (count, items) => do
    if (← isAt close) then pure (.stop (count, items))
    else
      let items := (← item count) :: items
      match ← eat separator with
      | some _ => pure (.again (count + 1, items))
      | none => pure (.stop (count + 1, items))

/-- Items up to a closing token, with separators between them. -/
def itemsUntil (close separator : Token.Kind) (item : Nat → Parser α) : Parser (List α) := do
  let (_, items) ← repeating (nextItem close separator item) (0, [])
  pure items.reverse

end GoSource.Stored.Grammar
