/-
Literal values.

A literal token has a kind and a text; `Literal.decode` gives its value,
or nothing if the text spells none. Values are kept exactly as the text
gives them, so that two spellings of a number are equal here and nothing
has been rounded.
-/
import GoSource.Token
import GoSource.Literal.Number
import GoSource.Literal.Quoted
import GoSource.Literal.Rational
import GoSource.Text.Quoted

namespace GoSource

/-- The value of a literal. A string is its bytes, which need not be
UTF-8; an imaginary literal is given by its imaginary part. -/
inductive Literal where
  | integer (value : Nat)
  | float (value : Rat)
  | imaginary (value : Rat)
  | rune (value : Char)
  | string (bytes : List UInt8)
deriving DecidableEq, Repr

namespace Literal

/-- The kinds of tokens that are literals. -/
def isKind : Token.Kind → Bool
  | .intLit | .floatLit | .imagLit | .runeLit | .stringLit | .rawStringLit => true
  | _ => false

/-- The value a text denotes as a literal of a kind. -/
def decode (kind : Token.Kind) (text : String) : Option Literal :=
  match kind with
  | .intLit => (intValue text.toList).map integer
  | .floatLit => (floatValue text.toList).map float
  | .imagLit => (imagValue text.toList).map imaginary
  | .runeLit => (runeValue text.toList).map rune
  | .stringLit | .rawStringLit => (stringValue text.toList).map string
  | _ => none

/-- How a value is written in a printed tree: a rune with its code point
beside it, a string as the text its bytes encode. -/
def text : Literal → String
  | integer n => toString n
  | float r => formatRational r
  | imaginary r => formatRational r ++ "i"
  | rune c => Text.quoteRune c ++ " (0x" ++ .ofList (Nat.toDigits 16 c.toNat) ++ ")"
  | string bytes => Text.quoteString (Text.lossyText bytes)

end Literal

end GoSource
