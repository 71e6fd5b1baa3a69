/-
Expressions, built in a store.

What is attached behind an operand refers to it by number, and takes its
span from the store. Where it matters what an operand is (before the brace
of a composite literal), its row is looked up.
-/
import GoSource.Storage.Grammar.Production
import GoSource.Storage.Grammar.Sequence

namespace GoSource.Stored.Grammar

open GoSource.Parser (Turn)
open GoSource.Stored.Parser

variable (parse : SubParser)

-- ============================================================ operators

/-- The next operator, if it has at least the given precedence, and its
right operand, which is read from the precedence above. -/
def nextOperator (rightOperand : (least : Nat) → Parser ExprId) (least : Nat) (left : ExprId) :
    Parser (Turn ExprId) := do
  match BinaryOp.ofKind (← kind) with
  | some op =>
    if least ≤ op.precedence then
      let opToken ← advance
      let right ← rightOperand (op.precedence + 1)
      let leftSpan ← exprSpan left
      let rightSpan ← exprSpan right
      let e ← newExpr (.binary op opToken.span left right) (leftSpan.through rightSpan)
      pure (.again e)
    else pure (.stop left)
  | none => pure (.stop left)

/-- An expression whose binary operators outside brackets have at least
the given precedence. The levels are those still to come. -/
def binaryExpr : (levels : Nat) → (least : Nat) → Parser ExprId
  | 0, _ => parse.unaryExpr
  | levels + 1, least => do
    let first ← parse.unaryExpr
    repeating (nextOperator (binaryExpr levels) least) first

def expression : Parser ExprId := binaryExpr parse BinaryOp.levels 1

def exprList : Parser (List ExprId) := commaSeparated parse.expression

-- ======================================================= types, reread

/-- The type that an operand names, which becomes a new row unless the
operand is a type already. -/
def toType (x : ExprId) : Parser TypeId := do
  let span ← exprSpan x
  match ← exprRow x with
  | .type t => pure t
  | .ident name => newType (.name none name) span
  | .selector y name =>
    match ← exprRow y with
    | .ident pkg => newType (.name (some pkg) name) span
    | _ => unexpectedAt span "type" "expression"
  | _ => unexpectedAt span "type" "expression"

/-- Whether a brace after an operand opens a composite literal. -/
def opensComposite (inHeader : Bool) (x : ExprId) : Parser Bool := do
  match ← exprRow x with
  | .ident _ => pure !inHeader
  | .selector y _ =>
    match ← exprRow y with
    | .ident _ => pure !inHeader
    | _ => pure false
  | .type t =>
    match ← typeRow t with
    | .array _ _ | .slice _ | .map _ _ | .struct _ => pure true
    | _ => pure false
  | _ => pure false

-- ============================================================= suffixes

/-- `.name`, `.(T)` or, where it is acceptable, `.(type)`. -/
def selectorOrAssertion (x : ExprId) : Parser ExprId := do
  let _ ← expect .dot
  let span ← exprSpan x
  if (← isAt .ident) then
    let name ← ident
    newExpr (.selector x name) (span.through name.span)
  else if (← isAt .lParen) then
    let _ ← advance
    let type ←
      if (← isAt .kwType) then
        if (← guardAllowed) then
          let _ ← advance
          allowGuard false
          pure none
        else unexpected "type"
      else some <$> unrestricted parse.type
    let rParen ← expect .rParen
    newExpr (.typeAssert x type rParen) (span.through rParen)
  else unexpected "identifier or ("

/-- What is attached next, if anything is. -/
def suffix (x : ExprId) : Parser (Turn ExprId) := do
  match ← kind with
  | .dot => .again <$> selectorOrAssertion parse x
  | .lBrack => .again <$> parse.indexOrSlice x
  | .lParen => .again <$> parse.call x
  | .lBrace =>
    if (← opensComposite (← inHeader) x) then
      let type ← toType x
      let span ← typeSpan type
      .again <$> parse.compositeLit (some type) span.start
    else pure (.stop x)
  | _ => pure (.stop x)

/-- Everything attached behind an operand. -/
def suffixes (x : ExprId) : Parser ExprId := repeating (suffix parse) x

/-- The bounds after the first colon of a slice. -/
def upperBounds : Parser (Option ExprId × Option ExprId) := do
  if (← isAt .rBrack) then pure (none, none)
  else
    let high ← parse.expression
    match ← eat .colon with
    | some _ => pure (some high, some (← parse.expression))
    | none => pure (some high, none)

/-- `[i]`, `[low:high]` or `[low:high:max]`. -/
def indexOrSlice (x : ExprId) : Parser ExprId := unrestricted do
  let span ← exprSpan x
  let lBrack ← expect .lBrack
  let low ← if (← isAt .colon) then pure none else some <$> parse.expression
  match low, ← isAt .colon with
  | some i, false =>
    let rBrack ← expect .rBrack
    newExpr (.index x lBrack i rBrack) (span.through rBrack)
  | low, _ =>
    let _ ← expect .colon
    let (high, max) ← upperBounds parse
    let rBrack ← expect .rBrack
    newExpr (.slice x lBrack low high max rBrack) (span.through rBrack)

/-- The next argument, unless the list is closed. -/
def nextArgument : List ExprId × Option Span → Parser (Turn (List ExprId × Option Span))
  | (args, dots) => do
    if (← isAt .rParen) then pure (.stop (args, dots))
    else
      let args := (← parse.expression) :: args
      match ← eat .ellipsis with
      | some span =>
        let _ ← eat .comma
        pure (.stop (args, some span))
      | none =>
        match ← eat .comma with
        | some _ => pure (.again (args, none))
        | none => pure (.stop (args, none))

/-- Arguments in parentheses. -/
def call (f : ExprId) : Parser ExprId := unrestricted do
  let span ← exprSpan f
  let lParen ← expect .lParen
  let (args, dots) ← repeating (nextArgument parse) ([], none)
  let rParen ← expect .rParen
  let args ← listExprs args.reverse
  newExpr (.call f lParen args dots rParen) (span.through rParen)

-- =================================================== composite literals

/-- A key or a value. -/
def elementPart : Parser ExprId := do
  if (← isAt .lBrace) then parse.compositeLit none (← here)
  else parse.expression

def element : Parser Element := do
  let first ← elementPart parse
  match ← eat .colon with
  | some _ => pure ⟨some first, ← elementPart parse⟩
  | none => pure ⟨none, first⟩

def compositeLit (type : Option TypeId) (start : Location) : Parser ExprId := unrestricted do
  let lBrace ← expect .lBrace
  let elements ← itemsUntil .rBrace .comma fun _ => element parse
  let rBrace ← expect .rBrace
  let elements ← listElements elements
  newExpr (.composite type elements lBrace rBrace) ⟨start, rBrace.stop⟩

-- ============================================================= operands

/-- `chan T` after an arrow that has been taken. -/
def receiveChan (arrow : Span) : Parser TypeId := do
  let _ ← expect .kwChan
  let elem ← parse.type
  newType (.chan .receive elem) (← spanFrom arrow.start)

/-- Operators and what they apply to. -/
def unaryExpr : Parser ExprId := do
  match UnaryOp.ofKind (← kind) with
  | none => parse.primaryExpr
  | some op =>
    let opToken ← advance
    if op = .receive && (← isAt .kwChan) then
      let type ← receiveChan parse opToken.span
      let span ← typeSpan type
      let x ← newExpr (.type type) span
      suffixes parse x
    else
      let operand ← parse.unaryExpr
      let span ← exprSpan operand
      newExpr (.unary op opToken.span operand) (opToken.span.through span)

def primaryExpr : Parser ExprId := do
  suffixes parse (← parse.operand)

/-- What an expression is made of. -/
def operand : Parser ExprId := do
  match ← kind with
  | .ident =>
    let name ← ident
    newExpr (.ident name) name.span
  | .intLit | .floatLit | .imagLit | .runeLit | .stringLit | .rawStringLit =>
    let lit ← literal
    let span ← literalSpan lit
    newExpr (.literal lit) span
  | .lParen =>
    let _ ← advance
    let x ← unrestricted parse.expression
    let _ ← expect .rParen
    pure x
  | .kwFunc =>
    let func ← advance
    let signature ← parse.signature
    if (← isAt .lBrace) then
      fail (.unsupported .functionLiteral (func.span.through (← current).span))
    else
      let span := func.span.through signature.span
      let type ← newType (.func signature) span
      newExpr (.type type) span
  | .lBrack | .kwStruct | .kwMap | .kwChan | .kwInterface =>
    let type ← parse.type
    let span ← typeSpan type
    newExpr (.type type) span
  | _ => unexpected "operand"

end GoSource.Stored.Grammar
