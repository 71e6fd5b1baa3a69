/-
Expressions.

An expression is a tree of binary operators over unary expressions, a
unary expression a run of operators before a primary one, and a primary
expression an operand with everything that may be attached behind it:
selectors, indices, calls, and the braces of a composite literal.

# Precedence

`binaryExpr` reads operands and operators from left to right. What it has
so far is the left operand of the next operator, which takes as its right
operand only what binds more tightly than itself; so operators of one
precedence group to the left. The right operand starts at a higher
precedence than the whole, and there are only so many precedences: that
bounds the recursion, and no production is counted for it.

# Types among operands

Whether a name is that of a type is not known here. A composite literal is
therefore read as an operand first, and when the brace turns up the
operand is read again as the type it names (`toType`).
-/
import GoSource.Grammar.Production
import GoSource.Grammar.Sequence

namespace GoSource.Grammar

open GoSource.Parser

variable (parse : SubParser)

-- ============================================================ operators

/-- The next operator, if it has at least the given precedence, and its
right operand, which is read from the precedence above. -/
def nextOperator (rightOperand : (least : Nat) → Parser Expr) (least : Nat) (left : Expr) :
    Parser (Turn Expr) := do
  match BinaryOp.ofKind (← kind) with
  | some op =>
    if least ≤ op.precedence then
      let opToken ← advance
      let right ← rightOperand (op.precedence + 1)
      let e ← newExpr (.binary op opToken.span left right) (left.span.through right.span)
      pure (.again e)
    else pure (.stop left)
  | none => pure (.stop left)

/-- An expression whose binary operators outside brackets have at least
the given precedence. The levels are those still to come. -/
def binaryExpr : (levels : Nat) → (least : Nat) → Parser Expr
  | 0, _ => parse .unaryExpr
  | levels + 1, least => do
    let first ← parse .unaryExpr
    repeating (nextOperator (binaryExpr levels) least) first

def expression : Parser Expr := binaryExpr parse BinaryOp.levels 1

def exprList : Parser (List Expr) := commaSeparated (parse .expression)

-- ======================================================= types, reread

/-- The type that an operand names, if it is one that may stand before
the brace of a composite literal. A type read as an operand is itself; a
name, qualified or not, becomes a new type node. -/
def toType (x : Expr) : Parser TypeExpr :=
  match x.form with
  | .type t => pure t
  | .ident name => newType (.name none name) x.span
  | .selector ⟨_, _, .ident pkg⟩ name => newType (.name (some pkg) name) x.span
  | _ => unexpectedAt x.span "type" "expression"

/-- Whether a brace after an operand opens a composite literal. After a
name it does not where a header is being read: there it opens the body. -/
def opensComposite (inHeader : Bool) (x : Expr) : Bool :=
  match x.form with
  | .ident _ => !inHeader
  | .selector ⟨_, _, .ident _⟩ _ => !inHeader
  | .type ⟨_, _, .array _ _⟩ | .type ⟨_, _, .slice _⟩
  | .type ⟨_, _, .map _ _⟩ | .type ⟨_, _, .struct _⟩ => true
  | _ => false

-- ============================================================= suffixes

/-- `.name`, `.(T)` or, where it is acceptable, `.(type)`. The latter is
acceptable once: having been read, it is so no longer. -/
def selectorOrAssertion (x : Expr) : Parser Expr := do
  let _ ← expect .dot
  if (← isAt .ident) then
    let name ← ident
    newExpr (.selector x name) (x.span.through name.span)
  else if (← isAt .lParen) then
    let _ ← advance
    let type ←
      if (← isAt .kwType) then
        if (← guardAllowed) then
          let _ ← advance
          allowGuard false
          pure none
        else unexpected "type"
      else some <$> unrestricted (parse .type)
    let rParen ← expect .rParen
    newExpr (.typeAssert x type rParen) (x.span.through rParen)
  else unexpected "identifier or ("

/-- What is attached next, if anything is. -/
def suffix (x : Expr) : Parser (Turn Expr) := do
  match ← kind with
  | .dot => .again <$> selectorOrAssertion parse x
  | .lBrack => .again <$> parse (.indexOrSlice x)
  | .lParen => .again <$> parse (.call x)
  | .lBrace =>
    if opensComposite (← inHeader) x then
      let type ← toType x
      .again <$> parse (.compositeLit (some type) type.span.start)
    else pure (.stop x)
  | _ => pure (.stop x)

/-- Everything attached behind an operand. -/
def suffixes (x : Expr) : Parser Expr := repeating (suffix parse) x

/-- The bounds after the first colon of a slice. Of these the last needs
the one before it. -/
def upperBounds : Parser (Option Expr × Option Expr) := do
  if (← isAt .rBrack) then pure (none, none)
  else
    let high ← parse .expression
    match ← eat .colon with
    | some _ => pure (some high, some (← parse .expression))
    | none => pure (some high, none)

/-- `[i]`, `[low:high]` or `[low:high:max]`. -/
def indexOrSlice (x : Expr) : Parser Expr := unrestricted do
  let lBrack ← expect .lBrack
  let low ← if (← isAt .colon) then pure none else some <$> parse .expression
  match low, ← isAt .colon with
  | some i, false =>
    let rBrack ← expect .rBrack
    newExpr (.index x lBrack i rBrack) (x.span.through rBrack)
  | low, _ =>
    let _ ← expect .colon
    let (high, max) ← upperBounds parse
    let rBrack ← expect .rBrack
    newExpr (.slice x lBrack low high max rBrack) (x.span.through rBrack)

/-- The next argument, unless the list is closed. Dots after an argument
make it the last. -/
def nextArgument : List Expr × Option Span → Parser (Turn (List Expr × Option Span))
  | (args, dots) => do
    if (← isAt .rParen) then pure (.stop (args, dots))
    else
      let args := (← parse .expression) :: args
      match ← eat .ellipsis with
      | some span =>
        let _ ← eat .comma
        pure (.stop (args, some span))
      | none =>
        match ← eat .comma with
        | some _ => pure (.again (args, none))
        | none => pure (.stop (args, none))

/-- Arguments in parentheses. -/
def call (f : Expr) : Parser Expr := unrestricted do
  let lParen ← expect .lParen
  let (args, dots) ← repeating (nextArgument parse) ([], none)
  let rParen ← expect .rParen
  recording (·.addExprs args.reverse)
  newExpr (.call f lParen args.reverse dots rParen) (f.span.through rParen)

-- =================================================== composite literals

/-- A key or a value: braces alone are a literal whose type is left out. -/
def elementPart : Parser Expr := do
  if (← isAt .lBrace) then parse (.compositeLit none (← here))
  else parse .expression

def element : Parser Element := do
  let first ← elementPart parse
  match ← eat .colon with
  | some _ => pure ⟨some first, ← elementPart parse⟩
  | none => pure ⟨none, first⟩

def compositeLit (type : Option TypeExpr) (start : Location) : Parser Expr := unrestricted do
  let lBrace ← expect .lBrace
  let elements ← itemsUntil .rBrace .comma fun _ => element parse
  let rBrace ← expect .rBrace
  recording (·.addElements elements)
  newExpr (.composite type elements lBrace rBrace) ⟨start, rBrace.stop⟩

-- ============================================================= operands

/-- `chan T` after an arrow that has been taken: a channel that one can
only receive from. -/
def receiveChan (arrow : Span) : Parser TypeExpr := do
  let _ ← expect .kwChan
  let elem ← parse .type
  newType (.chan .receive elem) (← spanFrom arrow.start)

/-- Operators and what they apply to. An arrow before `chan` belongs to a
type, which is an operand like any other. -/
def unaryExpr : Parser Expr := do
  match UnaryOp.ofKind (← kind) with
  | none => parse .primaryExpr
  | some op =>
    let opToken ← advance
    if op = .receive && (← isAt .kwChan) then
      let type ← receiveChan parse opToken.span
      let x ← newExpr (.type type) type.span
      suffixes parse x
    else
      let operand ← parse .unaryExpr
      newExpr (.unary op opToken.span operand) (opToken.span.through operand.span)

def primaryExpr : Parser Expr := do
  suffixes parse (← parse .operand)

/-- What an expression is made of. Parentheses leave no trace: the
operand is what stands between them. A function type may stand here, but
not the body that would make it a function. -/
def operand : Parser Expr := do
  match ← kind with
  | .ident =>
    let name ← ident
    newExpr (.ident name) name.span
  | .intLit | .floatLit | .imagLit | .runeLit | .stringLit | .rawStringLit =>
    let lit ← literal
    newExpr (.literal lit) lit.span
  | .lParen =>
    let _ ← advance
    let x ← unrestricted (parse .expression)
    let _ ← expect .rParen
    pure x
  | .kwFunc =>
    let func ← advance
    let signature ← parse .signature
    if (← isAt .lBrace) then
      throw (.unsupported .functionLiteral (func.span.through (← current).span))
    else
      let span := func.span.through signature.span
      let type ← newType (.func signature) span
      newExpr (.type type) span
  | .lBrack | .kwStruct | .kwMap | .kwChan | .kwInterface =>
    let type ← parse .type
    newExpr (.type type) type.span
  | _ => unexpected "operand"

end GoSource.Grammar
