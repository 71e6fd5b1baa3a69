/-
Pieces: a source cut into the longest stretches that mean something.

`Piece.pieces` is the lexer's first half and the only part that looks at
characters. It loses nothing: every character of the source lies in
exactly one piece, blanks, comments and rubbish included, so that the
texts of the pieces put together are the source. The second half
(`Token.Stream.ofSource`) drops what is no token, sets comments aside and
inserts semicolons; it works on pieces alone.

# The longest match

`measure` gives the kind of the first piece and its length. Of the ways to
begin a piece no two compete but these: a keyword and an identifier, which
are told apart once the whole word is known; a comment and a division,
where the comment is longer; a number and a point, where the number is
longer; and operators among themselves, which the table lists longest
first.

# Rubbish

What matches nothing is an error of a single character. Three errors are
longer: a literal that ends but is misshapen, and a block comment that
never ends, which reaches to the end of the source.

# The byte order mark

A mark at the very beginning is no part of the text proper. Anywhere else
it is rubbish like any other character.
-/
import GoSource.Token
import GoSource.Piece.NumberShape
import GoSource.Piece.QuotedShape
import GoSource.Text.Letter
import GoSource.Text.DecimalDigit

namespace GoSource

/-- What a piece of source is. -/
inductive PieceKind where
  | byteOrderMark
  | blank
  | newline
  | lineComment
  | blockComment
  | token (kind : Token.Kind)
deriving DecidableEq, Repr

structure Piece where
  kind : PieceKind
  text : List Char
deriving DecidableEq, Repr

namespace Piece

-- ============================================================== classes

/-- Spaces, tabs and carriage returns separate and mean nothing. -/
def isBlank (c : Char) : Bool := c = ' ' || c = '\t' || c = '\r'

def startsWord (c : Char) : Bool := c = '_' || Text.isLetter c

def continuesWord (c : Char) : Bool :=
  c = '_' || Text.isLetter c || Text.isDecimalDigit c

-- =============================================================== tables

/-- Keywords with their spellings. -/
def keywordTable : List (List Char × Token.Kind) :=
  Token.Kind.keywords.map fun k => (k.describe.toList, k)

/-- Operators and delimiters with their spellings, longest first. -/
def operatorTable : List (List Char × Token.Kind) :=
  Token.Kind.operators.map fun k => (k.describe.toList, k)

/-- A word is a keyword or an identifier. -/
def wordKind (word : List Char) : Token.Kind :=
  (keywordTable.lookup word).getD .ident

/-- The longest operator at the start of a text. -/
def leadingOperator (cs : List Char) : Option (List Char × Token.Kind) :=
  operatorTable.find? fun entry => entry.1.isPrefixOf cs

-- ============================================================== measure

/-- A quoted literal: what its shape makes of it if it ends, one wrong
character if not. -/
def measureQuoted (kind : Token.Kind) (isShape : List Char → Bool) (cs : List Char) :
    Option Nat → PieceKind × Nat
  | some n => (.token (if isShape (cs.take n) then kind else .error), n)
  | none => (.token .error, 1)

/-- The kind and the length of the piece at the start of a text. Only the
empty text has no piece. -/
def measure (cs : List Char) : PieceKind × Nat :=
  match cs with
  | [] => (.blank, 0)
  | c :: rest =>
    if isBlank c then (.blank, (cs.takeWhile isBlank).length)
    else if c = '\n' then (.newline, 1)
    else if c = '/' && rest.head? = some '/' then
      (.lineComment, (cs.takeWhile (· ≠ '\n')).length)
    else if c = '/' && rest.head? = some '*' then
      match closingComment 2 (rest.drop 1) with
      | some n => (.blockComment, n)
      | none => (.token .error, cs.length)
    else if startsWord c then
      let word := cs.takeWhile continuesWord
      (.token (wordKind word), word.length)
    else if startsNumber cs then
      let n := numberLength cs
      (.token (numberKind (cs.take n)), n)
    else if c = '\x60' then
      measureQuoted .rawStringLit (fun _ => true) cs (closingBackquote 1 rest)
    else if c = '\x22' then
      measureQuoted .stringLit isStringShape cs (closingQuote '\x22' 1 rest)
    else if c = '\x27' then
      measureQuoted .runeLit isRuneShape cs
        ((closingQuote '\x27' 1 rest).filter (· > 2))
    else match leadingOperator cs with
      | some (spelling, kind) => (.token kind, spelling.length)
      | none => (.token .error, 1)

-- =============================================================== pieces

/-- Cuts a text into pieces, in front of which those already cut stand in
reverse. A text has no more pieces than characters, which is why the
fuel never runs out. -/
def cut : (fuel : Nat) → List Char → List Piece → List Piece
  | _, [], done => done.reverse
  | 0, _ :: _, done => done.reverse
  | fuel + 1, c :: rest, done =>
    let (kind, n) := measure (c :: rest)
    cut fuel ((c :: rest).drop n) (⟨kind, (c :: rest).take n⟩ :: done)

/-- The mark with which a source may begin. -/
def byteOrderMark : Char := '\ufeff'

/-- The pieces of a source. -/
def pieces (source : List Char) : List Piece :=
  match source with
  | [] => []
  | c :: rest =>
    if c = byteOrderMark then cut rest.length rest [⟨.byteOrderMark, [c]⟩]
    else cut source.length source []

end Piece

end GoSource
