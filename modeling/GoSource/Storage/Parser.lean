/-
Parsers that build in a store.

They move through the tokens in the same way as those that build trees
(`Parser`): what reads the input and touches nothing that is built is taken
over from there (`lift`). What is built goes to the store, and what comes
back is a number or a range. To see what has been built, a parser must look
it up; a number or a range that the store does not have is a fault of its
own, which no input is to blame for.
-/
import GoSource.Parsing.State
import GoSource.Storage.Store

namespace GoSource.Stored

/-- What a parse knows of its input, and the store. The arena in the former
is left alone. -/
structure State where
  parsing : Parsing
  store : Store

/-- How a parse fails. -/
inductive Fault where
  | parse (error : ParseError)
  /-- Something was looked up that is not there. -/
  | outOfBounds

abbrev Parser := EStateM Fault State

namespace Parser

variable {α σ : Type}

-- =========================================================== the input

/-- A parser that builds nothing. -/
def lift (p : GoSource.Parser α) : Parser α := fun s =>
  match p s.parsing with
  | .ok x parsing => .ok x { s with parsing }
  | .error e parsing => .error (.parse e) { s with parsing }

def current : Parser Token := lift GoSource.Parser.current
def kind : Parser Token.Kind := lift GoSource.Parser.kind
def here : Parser Location := lift GoSource.Parser.here
def previousEnd : Parser Location := lift GoSource.Parser.previousEnd
def advance : Parser Token := lift GoSource.Parser.advance
def spanFrom (start : Location) : Parser Span := lift (GoSource.Parser.spanFrom start)
def isAt (k : Token.Kind) : Parser Bool := lift (GoSource.Parser.isAt k)
def eat (k : Token.Kind) : Parser (Option Span) := lift (GoSource.Parser.eat k)
def expect (k : Token.Kind) : Parser Span := lift (GoSource.Parser.expect k)
def expectSemi : Parser Unit := lift GoSource.Parser.expectSemi
def inHeader : Parser Bool := lift GoSource.Parser.inHeader
def guardAllowed : Parser Bool := lift GoSource.Parser.guardAllowed
def allowGuard (allowed : Bool) : Parser Unit := lift (GoSource.Parser.allowGuard allowed)
def literalValue : Parser (Literal × Span) := lift GoSource.Parser.literalValue
def docLines (start : Location) : Parser (List String) := lift (GoSource.Parser.docLines start)

def fail (e : ParseError) : Parser α := lift (throw e)
def tooDeep : Parser α := lift GoSource.Parser.tooDeep
def unexpected (wanted : String) : Parser α := lift (GoSource.Parser.unexpected wanted)
def unexpectedAt (span : Span) (wanted got : String) : Parser α :=
  lift (GoSource.Parser.unexpectedAt span wanted got)

-- ================================================================ modes

/-- Runs a parser in a state that is entered before it and left after it,
whatever the outcome. -/
def between (enter : Parsing → Parsing) (leave : (before after : Parsing) → Parsing)
    (p : Parser α) : Parser α := fun s =>
  match p { s with parsing := enter s.parsing } with
  | .ok x s' => .ok x { s' with parsing := leave s.parsing s'.parsing }
  | .error e s' => .error e { s' with parsing := leave s.parsing s'.parsing }

/-- Runs a parser as a production with a name. -/
def within (name : String) : Parser α → Parser α :=
  between (fun s => { s with trace := name :: s.trace })
    fun _ s' => { s' with trace := s'.trace.tail }

/-- Runs a parser between brackets. -/
def unrestricted : Parser α → Parser α :=
  between (fun s => { s with inHeader := false, guardAllowed := false })
    fun s s' => { s' with inHeader := s.inHeader, guardAllowed := s.guardAllowed }

/-- Runs a parser on the header of an `if` or `for`. -/
def asHeader : Parser α → Parser α :=
  between (fun s => { s with inHeader := true }) fun s s' => { s' with inHeader := s.inHeader }

-- ============================================================ repetition

open GoSource.Parser (Turn)

/-- Takes turns until one says to stop, at most `n` of them. -/
def takeTurns (turn : σ → Parser (Turn σ)) : (n : Nat) → σ → Parser σ
  | 0, x => pure x
  | n + 1, x => do
    match ← turn x with
    | .again y => takeTurns turn n y
    | .stop y => pure y

/-- Takes turns until one says to stop. -/
def repeating (turn : σ → Parser (Turn σ)) (x : σ) : Parser σ := fun s =>
  takeTurns turn s.parsing.turns x s

-- ================================================================ store

/-- Puts something into the store, and returns where it is. -/
def storing (put : Store → α × Store) : Parser α := fun s =>
  let (x, store) := put s.store
  .ok x { s with store }

def newDecl (row : Decl) (span : Span) : Parser DeclId := storing (·.allocDecl row span)
def newStmt (row : Stmt) (span : Span) : Parser StmtId := storing (·.allocStmt row span)
def newExpr (row : Expr) (span : Span) : Parser ExprId := storing (·.allocExpr row span)
def newType (row : TypeExpr) (span : Span) : Parser TypeId := storing (·.allocType row span)
def newField (row : Field) (span : Span) : Parser FieldId := storing (·.allocField row span)
def newParam (row : Param) (span : Span) : Parser ParamId := storing (·.allocParam row span)
def newLiteral (value : Literal) (span : Span) : Parser LitId := storing (·.allocLiteral value span)

def intern (text : String) : Parser Symbol := storing (·.intern text)

def listIdents (items : List Ident) : Parser ListRef := storing (·.listIdents items)
def listExprs (items : List ExprId) : Parser ListRef := storing (·.listExprs items)
def listStmts (items : List StmtId) : Parser ListRef := storing (·.listStmts items)
def listDecls (items : List DeclId) : Parser ListRef := storing (·.listDecls items)
def listFields (items : List FieldId) : Parser ListRef := storing (·.listFields items)
def listParams (items : List ParamId) : Parser ListRef := storing (·.listParams items)
def listElements (items : List Element) : Parser ListRef := storing (·.listElements items)
def listInterfaceElements (items : List InterfaceElement) : Parser ListRef :=
  storing (·.listInterfaceElements items)
def listImportSpecs (items : List ImportSpec) : Parser ListRef :=
  storing (·.listImportSpecs items)
def listDocLines (items : List String) : Parser ListRef := storing (·.listDocLines items)

/-- Looks something up that must be in the store. -/
def looking (look : Store → Option α) : Parser α := fun s =>
  match look s.store with
  | some x => .ok x s
  | none => .error .outOfBounds s

def exprRow (id : ExprId) : Parser Expr := looking (·.exprs.row? id)
def exprSpan (id : ExprId) : Parser Span := looking (·.exprs.span? id)
def typeRow (id : TypeId) : Parser TypeExpr := looking (·.types.row? id)
def typeSpan (id : TypeId) : Parser Span := looking (·.types.span? id)
def literalSpan (id : LitId) : Parser Span := looking (·.literals.span? id)
def paramRow (id : ParamId) : Parser Param := looking (·.params.row? id)
def exprItems (r : ListRef) : Parser (List ExprId) := looking (slice ·.lists.exprs r)
def paramItems (r : ListRef) : Parser (List ParamId) := looking (slice ·.lists.params r)

-- ============================================== names, literals, comments

/-- An identifier, whose text is interned. -/
def ident : Parser Ident := do
  if (← isAt .ident) then
    let t ← advance
    pure ⟨← intern t.text, t.span⟩
  else unexpected "identifier"

def literal : Parser LitId := do
  let (value, span) ← literalValue
  newLiteral value span

/-- The documentation of a declaration, as a list. -/
def doc (start : Location) : Parser ListRef := do
  listDocLines (← docLines start)

end Parser

end GoSource.Stored
