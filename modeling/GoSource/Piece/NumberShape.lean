/-
How far a number reaches, and which kind it is.

The lexer takes for one number everything that could belong to one, and
leaves it to the decoder to find that `0x` or `08` spells nothing. What
follows the first digit is a run of letters, digits and underscores, with
two exceptions that make it longer: one point, unless a second point
follows it directly, and a sign directly after the mark of an exponent.
The mark is `e` in general and `p` after the prefix `0x`; the other letter
is an ordinary one.

The kind is read off the text: imaginary if it ends in `i`, else floating
point if it holds a point or the mark of its exponent, else integer.
-/
import GoSource.Token

namespace GoSource.Piece

/-- The text starts with the prefix of hexadecimal numbers. -/
def isHexadecimal : List Char → Bool
  | '0' :: 'x' :: _ | '0' :: 'X' :: _ => true
  | _ => false

/-- The letter that announces an exponent. -/
def isExponentMark (hexadecimal : Bool) (c : Char) : Bool :=
  if hexadecimal then c = 'p' || c = 'P' else c = 'e' || c = 'E'

/-- A number starts with a digit, or with a point and a digit. -/
def startsNumber : List Char → Bool
  | '.' :: c :: _ => c.isDigit
  | c :: _ => c.isDigit
  | [] => false

/-- How many characters continue a number. The counter holds how many
have been passed. -/
def numberTail (hexadecimal : Bool) : (pointSeen : Bool) → (passed : Nat) → List Char → Nat
  | _, passed, [] => passed
  | pointSeen, passed, c :: rest =>
    if c.isAlphanum || c = '_' then
      match rest with
      | s :: rest' =>
        if isExponentMark hexadecimal c && (s = '+' || s = '-') then
          numberTail hexadecimal pointSeen (passed + 2) rest'
        else numberTail hexadecimal pointSeen (passed + 1) (s :: rest')
      | [] => passed + 1
    else if c = '.' && !pointSeen && rest.head? ≠ some '.' then
      numberTail hexadecimal true (passed + 1) rest
    else passed

/-- The length of the number at the start of a text that starts one. -/
def numberLength (cs : List Char) : Nat :=
  match cs with
  | '.' :: rest => numberTail false true 2 (rest.drop 1)
  | _ => numberTail (isHexadecimal cs) false 1 (cs.drop 1)

/-- The kind of the number a text spells. -/
def numberKind (text : List Char) : Token.Kind :=
  if text.getLast? = some 'i' then .imagLit
  else if text.any fun c => c = '.' || isExponentMark (isHexadecimal text) c then .floatLit
  else .intLit

end GoSource.Piece
