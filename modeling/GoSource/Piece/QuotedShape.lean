/-
How far quoted literals and comments reach, and which of them are well
formed.

A rune or an interpreted string ends at its closing quote on the same
line; a backslash takes the character after it along, whatever it is. So
the end is found first and the escapes are judged afterwards: a literal
that ends but holds a bad escape is one piece of source, and a wrong one.
One that does not end is not a literal at all.
-/
import GoSource.Literal.Escape

namespace GoSource.Piece

/-- Counts to just after the closing quote; the counter holds how many
characters have been passed. -/
def closingQuote (quote : Char) : (passed : Nat) → List Char → Option Nat
  | _, [] => none
  | passed, c :: rest =>
    if c = quote then some (passed + 1)
    else if c = '\n' then none
    else if c = '\\' then
      match rest with
      | d :: rest' => if d = '\n' then none else closingQuote quote (passed + 2) rest'
      | [] => none
    else closingQuote quote (passed + 1) rest

/-- Counts to just after the next backquote. -/
def closingBackquote : (passed : Nat) → List Char → Option Nat
  | _, [] => none
  | passed, c :: rest =>
    if c = '\x60' then some (passed + 1) else closingBackquote (passed + 1) rest

/-- Counts to just after the next `*/`. -/
def closingComment : (passed : Nat) → List Char → Option Nat
  | _, [] => none
  | passed, c :: rest =>
    if c = '*' && rest.head? = some '/' then some (passed + 2)
    else closingComment (passed + 1) rest

/-- The text between the first and the last character. -/
def inside (text : List Char) : List Char := (text.drop 1).dropLast

/-- Every escape of a body is well formed; the first `skip` characters
belong to one that has been judged. -/
def escapesWellFormed (quote : Char) : (skip : Nat) → List Char → Bool
  | _, [] => true
  | skip + 1, _ :: rest => escapesWellFormed quote skip rest
  | 0, c :: rest =>
    if c = '\\' then
      match Literal.escapeLength quote (c :: rest) with
      | some n => escapesWellFormed quote (n - 1) rest
      | none => false
    else escapesWellFormed quote 0 rest

/-- A string literal may hold any characters and well-formed escapes. -/
def isStringShape (text : List Char) : Bool :=
  escapesWellFormed '\x22' 0 (inside text)

/-- A rune literal holds one character or one well-formed escape. -/
def isRuneShape (text : List Char) : Bool :=
  match inside text with
  | '\\' :: rest => Literal.escapeLength '\x27' ('\\' :: rest) = some (rest.length + 1)
  | body => body.length = 1

end GoSource.Piece
