/-
Tokens: the words of the language.

A `Token` is a kind, the text it was written with and its span. Most
kinds have one spelling, and for those the name shown in messages
(`Kind.describe`) is the spelling itself; the lexer reads its tables of
keywords and operators off that one function, so a message can never
disagree with what the lexer accepts.

# Semicolons that nobody wrote

A line that could end a statement is ended by a semicolon the lexer
inserts. `Kind.endsStatement` is the whole rule: it depends on nothing
but the kind of the last token before the line ends. An inserted
semicolon is told from a written one by its text, the newline that
caused it or nothing at the end of the source, and by its empty span.

# Streams

The parser reads a `Stream`: finitely many lexemes, each a token with
the comments scanned on the way to it, and then the end-of-input token
for ever. A stream comes from the lexer or from a prepared list of
tokens, which has no comments.
-/
import GoSource.Location

namespace GoSource

-- ================================================================ kinds

namespace Token

/-- The kinds of tokens. `error` is a stretch of source that is no
token; `eof` stands after the last one. -/
inductive Kind where
  | ident | intLit | floatLit | imagLit | runeLit | stringLit | rawStringLit
  | kwBreak | kwCase | kwChan | kwConst | kwContinue | kwDefault | kwDefer | kwElse
  | kwFallthrough | kwFor | kwFunc | kwGo | kwGoto | kwIf | kwImport | kwInterface
  | kwMap | kwPackage | kwRange | kwReturn | kwSelect | kwStruct | kwSwitch
  | kwType | kwVar
  | ellipsis | shlAssign | shrAssign | andNotAssign
  | addAssign | subAssign | mulAssign | divAssign | modAssign
  | andAssign | orAssign | xorAssign
  | shl | shr | andNot | logicalAnd | logicalOr
  | equal | notEqual | lessEqual | greaterEqual | increment | decrement
  | define | arrow
  | assign | plus | minus | star | slash | percent | amp | pipe | caret
  | tilde | bang | less | greater
  | lParen | rParen | lBrack | rBrack | lBrace | rBrace | comma | semi | colon | dot
  | eof | error
deriving DecidableEq, Repr

namespace Kind

/-- What a message calls the kind. Keywords, operators and delimiters
are called by their spelling. -/
def describe : Kind → String
  | ident => "identifier"
  | intLit => "integer literal"
  | floatLit => "floating point literal"
  | imagLit => "imaginary literal"
  | runeLit => "rune literal"
  | stringLit | rawStringLit => "string literal"
  | kwBreak => "break"
  | kwCase => "case"
  | kwChan => "chan"
  | kwConst => "const"
  | kwContinue => "continue"
  | kwDefault => "default"
  | kwDefer => "defer"
  | kwElse => "else"
  | kwFallthrough => "fallthrough"
  | kwFor => "for"
  | kwFunc => "func"
  | kwGo => "go"
  | kwGoto => "goto"
  | kwIf => "if"
  | kwImport => "import"
  | kwInterface => "interface"
  | kwMap => "map"
  | kwPackage => "package"
  | kwRange => "range"
  | kwReturn => "return"
  | kwSelect => "select"
  | kwStruct => "struct"
  | kwSwitch => "switch"
  | kwType => "type"
  | kwVar => "var"
  | ellipsis => "..."
  | shlAssign => "<<="
  | shrAssign => ">>="
  | andNotAssign => "&^="
  | addAssign => "+="
  | subAssign => "-="
  | mulAssign => "*="
  | divAssign => "/="
  | modAssign => "%="
  | andAssign => "&="
  | orAssign => "|="
  | xorAssign => "^="
  | shl => "<<"
  | shr => ">>"
  | andNot => "&^"
  | logicalAnd => "&&"
  | logicalOr => "||"
  | equal => "=="
  | notEqual => "!="
  | lessEqual => "<="
  | greaterEqual => ">="
  | increment => "++"
  | decrement => "--"
  | define => ":="
  | arrow => "<-"
  | assign => "="
  | plus => "+"
  | minus => "-"
  | star => "*"
  | slash => "/"
  | percent => "%"
  | amp => "&"
  | pipe => "|"
  | caret => "^"
  | tilde => "~"
  | bang => "!"
  | less => "<"
  | greater => ">"
  | lParen => "("
  | rParen => ")"
  | lBrack => "["
  | rBrack => "]"
  | lBrace => "\x7b"
  | rBrace => "\x7d"
  | comma => ","
  | semi => ";"
  | colon => ":"
  | dot => "."
  | eof => "EOF"
  | error => "invalid token"

/-- The words that are no identifiers. -/
def keywords : List Kind :=
  [kwBreak, kwCase, kwChan, kwConst, kwContinue, kwDefault, kwDefer, kwElse,
   kwFallthrough, kwFor, kwFunc, kwGo, kwGoto, kwIf, kwImport, kwInterface,
   kwMap, kwPackage, kwRange, kwReturn, kwSelect, kwStruct, kwSwitch, kwType, kwVar]

/-- Operators and delimiters, longer spellings first: the first entry
that begins a text is the longest one that does. -/
def operators : List Kind :=
  [ellipsis, shlAssign, shrAssign, andNotAssign,
   addAssign, subAssign, mulAssign, divAssign, modAssign, andAssign, orAssign, xorAssign,
   shl, shr, andNot, logicalAnd, logicalOr, equal, notEqual, lessEqual, greaterEqual,
   increment, decrement, define, arrow,
   assign, plus, minus, star, slash, percent, amp, pipe, caret, tilde, bang, less, greater,
   lParen, rParen, lBrack, rBrack, lBrace, rBrace, comma, semi, colon, dot]

/-- After a token of such a kind, the end of the line or of the source
ends the statement. -/
def endsStatement : Kind → Bool
  | ident | intLit | floatLit | imagLit | runeLit | stringLit | rawStringLit
  | kwBreak | kwContinue | kwFallthrough | kwReturn
  | increment | decrement | rParen | rBrack | rBrace => true
  | _ => false

/-- Identifiers and literals end a statement, and of what has one spelling
only, four words and five marks. -/
theorem endsStatement_iff (k : Kind) : k.endsStatement = true ↔
    k ∈ [ident, intLit, floatLit, imagLit, runeLit, stringLit, rawStringLit] ∨
      k ∈ keywords ∧ k.describe ∈ ["break", "continue", "fallthrough", "return"] ∨
      k ∈ operators ∧ k.describe ∈ ["++", "--", ")", "]", "\x7d"] := by
  cases k <;> decide

end Kind

end Token

-- =============================================================== tokens

/-- A token with the text it was written with and its place. -/
structure Token where
  kind : Token.Kind
  text : String
  span : Span
deriving DecidableEq, Repr

namespace Token

/-- What a message says was found. A semicolon is named the same
whether it was written or inserted. -/
def got (t : Token) : String :=
  match t.kind with
  | .semi => ";"
  | .eof => "EOF"
  | _ => t.text

/-- The token that stands at the end of the input, however often it is
asked for. -/
def atEnd (l : Location) : Token := ⟨.eof, "", .point l⟩

end Token

/-- A comment as written, one entry for each of its lines. -/
structure Comment where
  span : Span
  lines : List String
deriving DecidableEq, Repr

/-- A token with the comments between it and the token before. -/
structure Lexeme where
  comments : List Comment
  token : Token
deriving DecidableEq, Repr

-- ============================================================== streams

namespace Token

/-- Finitely many lexemes, the comments after the last of them, and the
location at which the input ends. -/
structure Stream where
  lexemes : List Lexeme
  trailing : List Comment
  stop : Location
deriving Repr

namespace Stream

/-- Prepared tokens carry no comments. They end where the last of them
ends, and an empty list ends where a source begins. -/
def ofTokens (tokens : List Token) : Stream :=
  { lexemes := tokens.map fun t => ⟨[], t⟩
    trailing := []
    stop := (tokens.getLast?.map (·.span.stop)).getD .first }

/-- The next token with the comments before it, and what is left. Past
the last token there is only the end of the input. -/
def next (s : Stream) : Lexeme × Stream :=
  match s.lexemes with
  | l :: rest => (l, { s with lexemes := rest })
  | [] => (⟨s.trailing, .atEnd s.stop⟩, { s with trailing := [] })

def tokens (s : Stream) : List Token := s.lexemes.map (·.token)

end Stream

end Token

end GoSource
