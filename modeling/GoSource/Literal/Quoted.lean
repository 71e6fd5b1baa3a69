/-
The values of rune and string literals.

A rune denotes one character, a string a sequence of bytes: a character
contributes its UTF-8 encoding, an octal or `\x` escape a single byte of
any value. A raw string denotes the bytes between its quotes, carriage
returns left out.
-/
import GoSource.Literal.Escape
import GoSource.Text.Utf8

namespace GoSource.Literal

/-- What stands between quotes that open and close a text. The two must
be different characters of it. -/
def unquoted (quote : Char) : List Char → Option (List Char)
  | c :: rest => if c = quote && rest.getLast? = some quote then some rest.dropLast else none
  | [] => none

/-- The character an escape in a rune denotes; a byte is a code point
there. -/
def EscapeValue.toChar : EscapeValue → Char
  | .byte b => .ofNat b.toNat
  | .char c => c

/-- The bytes an escape in a string denotes. -/
def EscapeValue.toBytes : EscapeValue → List UInt8
  | .byte b => [b]
  | .char c => String.utf8EncodeChar c

/-- The value of a rune literal: one character, or one escape. -/
def runeValue (text : List Char) : Option Char := do
  let body ← unquoted '\x27' text
  match body with
  | '\\' :: _ =>
    let (value, used) ← escapeMeaning '\x27' body
    if used = body.length then pure value.toChar else none
  | [c] => pure c
  | _ => none

/-- The bytes of the body of an interpreted string; the first `skip`
characters have been accounted for. -/
def stringBytes : (skip : Nat) → List Char → Option (List UInt8)
  | _, [] => some []
  | skip + 1, _ :: rest => stringBytes skip rest
  | 0, c :: rest =>
    if c = '\\' then do
      let (value, used) ← escapeMeaning '\x22' (c :: rest)
      let bytes ← stringBytes (used - 1) rest
      pure (value.toBytes ++ bytes)
    else (stringBytes 0 rest).map (String.utf8EncodeChar c ++ ·)

/-- The value of a string literal of either kind, told apart by the quote
it opens with. -/
def stringValue (text : List Char) : Option (List UInt8) :=
  match text with
  | '\x60' :: _ => (unquoted '\x60' text).map fun body => Text.utf8Bytes (body.filter (· ≠ '\r'))
  | _ => do stringBytes 0 (← unquoted '\x22' text)

end GoSource.Literal
