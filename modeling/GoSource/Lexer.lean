/-
From pieces to tokens.

The pieces of a source are read in order by a machine that remembers four
things: where it is, whether the last token could end a statement, the
comments since the last token, and the lexemes so far. Tokens become
lexemes; comments wait for the next lexeme; blanks only move the place.

# Inserted semicolons

A newline after a token that ends a statement puts a semicolon where the
newline is. A block comment that spans lines holds a newline and acts like
one, with the semicolon at the first newline inside it. The end of the
source acts like a newline too. Once a semicolon is inserted, or an error
passed, nothing is pending until the next token.

A comment that causes a semicolon goes with it: it lies before the place
where the reader of the tokens stands.
-/
import GoSource.Piece

namespace GoSource

-- ============================================================= comments

namespace Comment

/-- The text cut at its newlines, which belong to no part. -/
def splitLines (cs : List Char) : List (List Char) :=
  cs.foldr
    (fun c parts =>
      match parts with
      | part :: rest => if c = '\n' then [] :: part :: rest else (c :: part) :: rest
      | [] => [])
    [[]]

/-- A line without the carriage return that may end it. -/
def withoutReturn (line : List Char) : List Char :=
  if line.getLast? = some '\r' then line.dropLast else line

/-- A comment found at a span. -/
def ofText (span : Span) (text : List Char) : Comment :=
  ⟨span, (splitLines text).map fun line => .ofList (withoutReturn line)⟩

end Comment

-- ============================================================== machine

/-- The state in which the next piece is read. The comments are those
since the last lexeme, the latest first. -/
structure Lexer where
  here : Location
  endsStatement : Bool
  comments : List Comment
  lexemes : Array Lexeme

namespace Lexer

/-- At the start of a source nothing can end. -/
def start : Lexer := ⟨.first, false, [], #[]⟩

/-- A semicolon that nobody wrote. -/
def insertedSemi (l : Location) (text : String) : Token := ⟨.semi, text, .point l⟩

/-- Delivers a token with the comments that waited for it. -/
def emit (s : Lexer) (t : Token) (endsStatement : Bool) : Lexer :=
  { s with
    endsStatement
    comments := []
    lexemes := s.lexemes.push ⟨s.comments.reverse, t⟩ }

/-- Inserts a semicolon if the last token asks for one. -/
def lineEnd (s : Lexer) (l : Location) (text : String) : Lexer :=
  if s.endsStatement then s.emit (insertedSemi l text) false else s

/-- Reads one piece. -/
def step (s : Lexer) (p : Piece) : Lexer :=
  let stop := s.here.pastAll p.text
  let s' : Lexer :=
    match p.kind with
    | .byteOrderMark | .blank => s
    | .newline => s.lineEnd s.here "\n"
    | .lineComment => { s with comments := .ofText ⟨s.here, stop⟩ p.text :: s.comments }
    | .blockComment =>
      let s := { s with comments := .ofText ⟨s.here, stop⟩ p.text :: s.comments }
      if '\n' ∈ p.text then
        s.lineEnd (s.here.pastAll (p.text.takeWhile (· ≠ '\n'))) "\n"
      else s
    | .token kind => s.emit ⟨kind, .ofList p.text, ⟨s.here, stop⟩⟩ kind.endsStatement
  { s' with here := stop }

/-- The machine after a whole source. -/
def run (pieces : List Piece) : Lexer :=
  let s := pieces.foldl step start
  s.lineEnd s.here ""

end Lexer

-- =============================================================== source

/-- The tokens of a source text, comments and inserted semicolons
included. -/
def Token.Stream.ofSource (source : String) : Token.Stream :=
  let s := Lexer.run (Piece.pieces source.toList)
  { lexemes := s.lexemes.toList
    trailing := s.comments.reverse
    stop := s.here }

end GoSource
