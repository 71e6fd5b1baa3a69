/-
Escape sequences.

An escape is met twice. The lexer only asks for its shape
(`escapeLength`): a literal whose escapes are not well formed is no
token. The decoder asks for its meaning (`escapeMeaning`), which some
well-formed escapes lack: an octal value above a byte, a code point that
is no Unicode scalar value.

The digits of an escape are read as a number on their own, and a number
may carry a plus sign. The lexer admits no sign, so this shows only in a
text that never passed through it.
-/
import GoSource.Literal.Digits

namespace GoSource.Literal

-- ================================================================ shape

/-- What a single letter after the backslash denotes. -/
def simpleEscape : Char → Option Char
  | 'a' => some '\x07'
  | 'b' => some '\x08'
  | 'f' => some '\x0c'
  | 'n' => some '\n'
  | 'r' => some '\r'
  | 't' => some '\t'
  | 'v' => some '\x0b'
  | '\\' => some '\\'
  | _ => none

/-- Escapes that give a number in digits. -/
inductive NumericEscape where
  | octal
  | byte
  | short
  | long
deriving DecidableEq, Repr

namespace NumericEscape

/-- The form that the character after the backslash announces. -/
def ofLeader (c : Char) : Option NumericEscape :=
  if isDigit 8 c then some octal
  else if c = 'x' then some byte
  else if c = 'u' then some short
  else if c = 'U' then some long
  else none

/-- How many digits the form has. -/
def digitCount : NumericEscape → Nat
  | octal => 3
  | byte => 2
  | short => 4
  | long => 8

def base : NumericEscape → Nat
  | octal => 8
  | _ => 16

/-- How many characters stand before the digits. The leader of an octal
escape is its first digit. -/
def lead : NumericEscape → Nat
  | octal => 1
  | _ => 2

/-- The whole length, backslash included. -/
def length (e : NumericEscape) : Nat := e.lead + e.digitCount

/-- The characters where the digits of the escape belong; there may be
fewer than needed. -/
def body (e : NumericEscape) (escape : List Char) : List Char :=
  (escape.drop e.lead).take e.digitCount

end NumericEscape

/-- The length of the escape at the start of a text that begins with a
backslash, if it is well formed between quotes of the given kind. -/
def escapeLength (quote : Char) (escape : List Char) : Option Nat :=
  match escape.drop 1 with
  | [] => none
  | c :: _ =>
    if (simpleEscape c).isSome || c = quote then some 2
    else match NumericEscape.ofLeader c with
      | none => none
      | some form =>
        let body := form.body escape
        if body.length = form.digitCount && body.all (isDigit form.base) then some form.length
        else none

-- ============================================================== meaning

/-- What an escape denotes: a single byte of a string, or a character. -/
inductive EscapeValue where
  | byte (b : UInt8)
  | char (c : Char)
deriving DecidableEq, Repr

/-- The character with a code point, if there is one: surrogates and
numbers past the last code point have none. -/
def scalar (n : Nat) : Option Char :=
  if h : n.isValidChar then some (.ofNatAux n h) else none

/-- A number as what its form denotes. -/
def NumericEscape.meaning : NumericEscape → Nat → Option EscapeValue
  | octal, n | byte, n => if n < 256 then some (.byte (.ofNat n)) else none
  | short, n | long, n => (scalar n).map .char

/-- The meaning and the length of the escape at the start of a text that
begins with a backslash. -/
def escapeMeaning (quote : Char) (escape : List Char) : Option (EscapeValue × Nat) :=
  match escape.drop 1 with
  | [] => none
  | c :: _ =>
    match simpleEscape c with
    | some d => some (.char d, 2)
    | none =>
      if c = quote then some (.char c, 2)
      else do
        let form ← NumericEscape.ofLeader c
        let body := form.body escape
        if body.length = form.digitCount then
          let value ← form.meaning (← signedUp form.base body)
          pure (value, form.length)
        else none

end GoSource.Literal
