/-
Why a text does not parse.

Parsing stops at the first error. An error is a cause with the place it
concerns; the words of a message are made from it in one function,
`ParseError.message`, and nowhere else.
-/
import GoSource.Token
import GoSource.Text.Quoted

namespace GoSource

/-- Parts of the language that are recognized and then refused. -/
inductive Construct where
  | functionLiteral | switchStatement | selectStatement
deriving DecidableEq, Repr

def Construct.name : Construct → String
  | functionLiteral => "function literal"
  | switchStatement => "switch statement"
  | selectStatement => "select statement"

inductive ParseError where
  /-- Something else was wanted. The trace names the productions that were
  active, the outermost first. -/
  | unexpected (wanted got : String) (span : Span) (trace : List String)
  /-- A stretch of source that is no token, where a token was needed. -/
  | badRune (text : String) (span : Span)
  /-- A literal of some kind that denotes no value. -/
  | malformed (kind : Token.Kind) (text : String) (span : Span)
  | unsupported (construct : Construct) (span : Span)
  /-- One production more than the limit allows. -/
  | tooDeep (limit : Nat) (span : Span)
deriving DecidableEq, Repr

namespace ParseError

def span : ParseError → Span
  | unexpected _ _ s _ | badRune _ s | malformed _ _ s | unsupported _ s | tooDeep _ s => s

/-- What is wrong, without its place. -/
def reason : ParseError → String
  | unexpected wanted got _ _ => "expected " ++ wanted ++ ", got " ++ got
  | badRune text _ => "unexpected rune in input [" ++ Text.escapeToAscii text ++ "]"
  | malformed kind text _ => "malformed " ++ kind.describe ++ ": [" ++ text ++ "]"
  | unsupported construct _ => "unimplemented: " ++ construct.name
  | tooDeep limit _ => "nesting exceeds " ++ toString limit ++ " levels"

/-- The place where the error starts, and what is wrong there. -/
def message (e : ParseError) : String :=
  e.span.start.text ++ ": " ++ e.reason

end ParseError

end GoSource
