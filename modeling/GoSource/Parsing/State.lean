/-
The state of a parse, and the few ways in which it moves.

A production is a `Parser`: a function of the state that gives a result or
an error, and in both cases the state it leaves behind. Keeping the state
of a failed parse matters, because the arena outlives the parse.

# What may touch the state

All productions are put together from the operations of this module. They
fall into four groups, and each changes one part of the state only:

- the cursor: `advance` is the only operation that takes a token;
- the modes: `unrestricted` and `asHeader` run another parser and restore
  what they set, whatever the outcome; `within` takes back what it pushed;
  `allowGuard` alone sets a mode for good;
- the arena: nodes, names and lists are only ever added;
- the comments that wait for a declaration.

So a fact about every parse that is kept by each of these and by sequence
holds of every production.

# Modes

Two positions in the language are ambiguous and need to know their
context. In the header of an `if` or `for`, a name followed by a brace is
the end of the header and not the start of a composite literal; and the
form `x.(type)` is acceptable in one place only. Inside brackets of any
kind both are as usual, until the bracket closes.
-/
import GoSource.Parsing.Error
import GoSource.Syntax.Arena

namespace GoSource

/-- What a parse knows at a point of its input. -/
structure Parsing where
  /-- The token to be looked at next. -/
  current : Token
  /-- The tokens after it. -/
  ahead : Token.Stream
  /-- How many tokens have been taken from the stream, the current one
  included. -/
  taken : Nat
  /-- Where the token before the current one ended. -/
  previousEnd : Location
  /-- The comments passed since the last declaration began, the latest
  first. -/
  comments : List Comment
  /-- The productions that are active, the innermost first. -/
  trace : List String
  /-- A name followed by a brace does not start a composite literal. -/
  inHeader : Bool
  /-- The form `x.(type)` is acceptable. -/
  guardAllowed : Bool
  /-- More turns than any repetition can take. -/
  turns : Nat
  arena : Arena

namespace Parsing

/-- At the first token of a stream, in front of which nothing has ended. -/
def start (stream : Token.Stream) (arena : Arena) : Parsing :=
  let (first, rest) := stream.next
  { current := first.token
    ahead := rest
    taken := 1
    previousEnd := .nowhere
    comments := first.comments.reverse
    trace := []
    inHeader := false
    guardAllowed := false
    turns := stream.lexemes.length + 1
    arena }

/-- Past the current token. -/
def next (s : Parsing) : Parsing :=
  let (l, rest) := s.ahead.next
  { s with
    current := l.token
    ahead := rest
    taken := s.taken + 1
    previousEnd := s.current.span.stop
    comments := l.comments.reverse ++ s.comments }

end Parsing

/-- A production: reads from the state, and leaves a state also when it
fails. -/
abbrev Parser := EStateM ParseError Parsing

namespace Parser

variable {α σ : Type}

-- =============================================================== cursor

/-- The current token. -/
def current : Parser Token := fun s => .ok s.current s

/-- The kind of the current token. -/
def kind : Parser Token.Kind := fun s => .ok s.current.kind s

/-- Where the current token starts. -/
def here : Parser Location := fun s => .ok s.current.span.start s

/-- Where the last token taken ended. -/
def previousEnd : Parser Location := fun s => .ok s.previousEnd s

/-- Takes the current token. -/
def advance : Parser Token := fun s => .ok s.current s.next

/-- The span from a place to the end of the last token taken. -/
def spanFrom (start : Location) : Parser Span := do
  pure ⟨start, ← previousEnd⟩

-- =============================================================== errors

/-- The names of the active productions, the outermost first. -/
def traceNames : Parser (List String) := fun s => .ok s.trace.reverse s

/-- Fails because something already read at a span is not what was
wanted. -/
def unexpectedAt (span : Span) (wanted got : String) : Parser α := do
  throw (.unexpected wanted got span (← traceNames))

/-- Fails because the current token is not what was wanted. Rubbish is
reported as such, whatever was wanted. -/
def unexpected (wanted : String) : Parser α := do
  let t ← current
  if t.kind = .error then throw (.badRune t.text t.span)
  else unexpectedAt t.span wanted t.got

-- ======================================================== single tokens

def isAt (k : Token.Kind) : Parser Bool := do
  pure ((← kind) = k)

/-- Takes a token of a kind if it is the current one. -/
def eat (k : Token.Kind) : Parser (Option Span) := do
  if (← isAt k) then pure (some (← advance).span) else pure none

/-- Takes a token of a kind, which must be the current one. -/
def expect (k : Token.Kind) : Parser Span := do
  if (← isAt k) then pure (← advance).span else unexpected k.describe

/-- A semicolon, which may be missing at the end of the input. -/
def expectSemi : Parser Unit := do
  if (← isAt .eof) then pure () else discard (expect .semi)

-- ================================================================ modes

/-- Runs a parser as a production with a name, which is active until it
returns or fails: the name is pushed before, and what is innermost then is
popped. -/
def within (name : String) (p : Parser α) : Parser α := fun s =>
  match p { s with trace := name :: s.trace } with
  | .ok a s' => .ok a { s' with trace := s'.trace.tail }
  | .error e s' => .error e { s' with trace := s'.trace.tail }

/-- Runs a parser between brackets, where no context restricts it. -/
def unrestricted (p : Parser α) : Parser α := fun s =>
  match p { s with inHeader := false, guardAllowed := false } with
  | .ok a s' => .ok a { s' with inHeader := s.inHeader, guardAllowed := s.guardAllowed }
  | .error e s' => .error e { s' with inHeader := s.inHeader, guardAllowed := s.guardAllowed }

/-- Runs a parser on the header of an `if` or `for`. -/
def asHeader (p : Parser α) : Parser α := fun s =>
  match p { s with inHeader := true } with
  | .ok a s' => .ok a { s' with inHeader := s.inHeader }
  | .error e s' => .error e { s' with inHeader := s.inHeader }

def inHeader : Parser Bool := fun s => .ok s.inHeader s

def guardAllowed : Parser Bool := fun s => .ok s.guardAllowed s

/-- Says whether `x.(type)` is acceptable from here on. -/
def allowGuard (allowed : Bool) : Parser Unit := fun s =>
  .ok () { s with guardAllowed := allowed }

/-- Fails for one production too many. -/
def tooDeep : Parser α := fun s =>
  .error (.tooDeep s.trace.length s.current.span) s

-- ============================================================ repetition

/-- What a turn of a repetition decides. -/
inductive Turn (σ : Type) where
  | again (next : σ)
  | stop (last : σ)

/-- Takes turns until one says to stop, at most `n` of them. -/
def takeTurns (turn : σ → Parser (Turn σ)) : (n : Nat) → σ → Parser σ
  | 0, a => pure a
  | n + 1, a => do
    match ← turn a with
    | .again b => takeTurns turn n b
    | .stop b => pure b

/-- Takes turns until one says to stop. Every turn that goes on has taken
a token, so the number of tokens bounds the number of turns. -/
def repeating (turn : σ → Parser (Turn σ)) (a : σ) : Parser σ := fun s =>
  takeTurns turn s.turns a s

-- ================================================================ arena

/-- Adds to the arena, and returns what it gives. -/
def building (add : Arena → α × Arena) : Parser α := fun s =>
  let (a, arena) := add s.arena
  .ok a { s with arena }

/-- Adds to the arena. -/
def recording (add : Arena → Arena) : Parser Unit := fun s =>
  .ok () { s with arena := add s.arena }

def newDecl (form : DeclForm) (span : Span) : Parser Decl := building (·.addDecl form span)
def newStmt (form : StmtForm) (span : Span) : Parser Stmt := building (·.addStmt form span)
def newExpr (form : ExprForm) (span : Span) : Parser Expr := building (·.addExpr form span)
def newType (form : TypeForm) (span : Span) : Parser TypeExpr := building (·.addType form span)
def newField (form : FieldForm) (span : Span) : Parser Field := building (·.addField form span)
def newParam (form : ParamForm) (span : Span) : Parser Param := building (·.addParam form span)
def newLiteral (form : Literal) (span : Span) : Parser Lit := building (·.addLiteral form span)

-- ======================================================= names, literals

/-- An identifier, whose name is recorded. -/
def ident : Parser Ident := do
  if (← isAt .ident) then
    let t ← advance
    recording (·.addName t.text)
    pure ⟨t.text, t.span⟩
  else unexpected "identifier"

/-- The value of the literal that is the current token, and its span. A
literal without a value is not taken. -/
def literalValue : Parser (Literal × Span) := do
  let t ← current
  if Literal.isKind t.kind then
    match Literal.decode t.kind t.text with
    | some value =>
      let _ ← advance
      pure (value, t.span)
    | none => throw (.malformed t.kind t.text t.span)
  else unexpected "literal"

def literal : Parser Lit := do
  let (value, span) ← literalValue
  newLiteral value span

-- ============================================================= comments

/-- The comments that document what starts at a place: those that end on
the line before it, one line after another without a gap, none of them
starting on the line where the token before ended. They are looked for
from the last one back; `line` is where the next one must end. -/
def documenting (start previousEnd : Location) : (line : Nat) → List Comment → List Comment
  | _, [] => []
  | line, c :: earlier =>
    if start ≤ c.span.start then documenting start previousEnd line earlier
    else if line = 0 || c.span.stop.line ≠ line || c.span.start.line ≤ previousEnd.line then []
    else c :: documenting start previousEnd (c.span.start.line - 1) earlier

/-- The lines that document a declaration starting at a place. All
comments so far are spent: they document this declaration or none. -/
def docLines (start : Location) : Parser (List String) := fun s =>
  let found := documenting start s.previousEnd (start.line - 1) s.comments
  .ok (found.reverse.flatMap (·.lines)) { s with comments := [] }

/-- The documentation of a declaration, recorded. -/
def doc (start : Location) : Parser (List String) := do
  let lines ← docLines start
  recording (·.addDocLines lines)
  pure lines

end Parser

end GoSource
