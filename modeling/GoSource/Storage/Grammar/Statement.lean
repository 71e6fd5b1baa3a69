/-
Statements and blocks, built in a store.

What is read as an expression first and may turn out to be a label or a
name on the left of `:=` is looked up then. A draft is a row that is not
stored yet.
-/
import GoSource.Grammar.Statement
import GoSource.Storage.Grammar.TypeExpr

namespace GoSource.Stored.Grammar

open GoSource.Parser (Turn)
open GoSource.Stored.Parser

variable (parse : SubParser)

-- =============================================================== blocks

/-- Where a list of statements ends. -/
def atListEnd : Parser Bool := lift GoSource.Grammar.atListEnd

/-- One statement more and the semicolon after it. -/
def nextStmt (stmts : List StmtId) : Parser (Turn (List StmtId)) := do
  if (← atListEnd) then pure (.stop stmts)
  else match ← eat .semi with
    | some _ => pure (.again stmts)
    | none =>
      let stmts := (← parse.statement) :: stmts
      if (← atListEnd) then pure (.again stmts)
      else
        let _ ← expect .semi
        pure (.again stmts)

/-- Statements up to a closing brace or the end of the input. -/
def stmtList : Parser ListRef := do
  let stmts ← repeating (nextStmt parse) []
  listStmts stmts.reverse

def block : Parser Block := unrestricted do
  let lBrace ← expect .lBrace
  let stmts ← stmtList parse
  let rBrace ← expect .rBrace
  pure ⟨stmts, lBrace.through rBrace⟩

-- ==================================================== simple statements

/-- The only expression of a list. -/
def single : List ExprId → Parser ExprId
  | [x] => pure x
  | _ => unexpected ":= or = or comma"

/-- The names on the left of `:=`. -/
def definedNames (left : List ExprId) : Parser (List Ident) :=
  left.mapM fun x => do
    match ← exprRow x with
    | .ident name => pure name
    | _ => unexpectedAt (← exprSpan x) "identifier" "expression"

/-- The label that a list of expressions is, if it is one. -/
def asLabel : List ExprId → Parser (Option Ident)
  | [x] => do
    match ← exprRow x with
    | .ident name => pure (some name)
    | _ => pure none
  | _ => pure none

/-- The range clause after `range`, if it is acceptable and follows. -/
def rangeClause (mode : SimpleMode) : Parser (Option ExprId) := do
  if mode.rangeAllowed then
    match ← eat .kwRange with
    | some _ => some <$> parse.expression
    | none => pure none
  else pure none

/-- A statement that defines names, after their expressions. -/
def definition (mode : SimpleMode) (left : List ExprId) : Parser Stmt := do
  let names ← definedNames left
  let op ← advance
  match ← rangeClause parse mode with
  | some x =>
    let left ← listExprs left
    pure (.range left true x)
  | none =>
    let values ← exprList parse
    let names ← listIdents names
    let values ← listExprs values
    pure (.shortVar names op.span values)

/-- An assignment, after its left side. -/
def assignment (mode : SimpleMode) (left : List ExprId) (op : AssignOp) : Parser Stmt := do
  let opToken ← advance
  let clause ← if op = .assign then rangeClause parse mode else pure none
  match clause with
  | some x =>
    let left ← listExprs left
    pure (.range left false x)
  | none =>
    let right ← exprList parse
    let left ← listExprs left
    let right ← listExprs right
    pure (.assign left op opToken.span right)

/-- What follows the expressions at the start of a statement. -/
def afterExprs (mode : SimpleMode) (left : List ExprId) : Parser Stmt := do
  match ← kind with
  | .arrow =>
    let chan ← single left
    let _ ← advance
    pure (.send chan (← parse.expression))
  | .increment =>
    let x ← single left
    let _ ← advance
    pure (.step x .increment)
  | .decrement =>
    let x ← single left
    let _ ← advance
    pure (.step x .decrement)
  | .define => definition parse mode left
  | k =>
    match AssignOp.ofKind k with
    | some op => assignment parse mode left op
    | none => .expr <$> single left

/-- The label at the start of a statement, if labels are acceptable and a
colon follows a lone name. -/
def labelBefore (mode : SimpleMode) (left : List ExprId) : Parser (Option Ident) := do
  if mode.labelAllowed && (← isAt .colon) then asLabel left else pure none

def simpleStmt (mode : SimpleMode) : Parser Draft := do
  let start ← here
  match ← rangeClause parse mode with
  | some x => pure ⟨.range .empty false x, ← spanFrom start⟩
  | none =>
    let left ← exprList parse
    match ← labelBefore mode left with
    | some label =>
      let _ ← advance
      let stmt ← parse.statement
      pure ⟨.labeled label stmt, ← spanFrom start⟩
    | none =>
      let stmt ← afterExprs parse mode left
      pure ⟨stmt, ← spanFrom start⟩

-- ============================================================== headers

/-- The condition that a statement in a header must be. -/
def condition (draft : Draft) : Parser ExprId :=
  match draft.stmt with
  | .expr x => pure x
  | _ => unexpectedAt draft.span "condition" "statement"

/-- A draft kept as a statement. -/
def keep (draft : Draft) : Parser StmtId := newStmt draft.stmt draft.span

/-- The header of an `if`: a condition, possibly after a statement. -/
def ifHeader : Parser (Option StmtId × ExprId) := do
  let first ← parse.simpleStmt .plain
  match ← eat .semi with
  | none => pure (none, ← condition first)
  | some _ =>
    let init ← keep first
    let second ← parse.simpleStmt .plain
    pure (some init, ← condition second)

/-- What follows `else`: another `if`, or a block. -/
def otherwise : Parser StmtId := do
  match ← kind with
  | .kwIf => parse.ifStmt
  | .lBrace =>
    let b ← parse.block
    newStmt (.block b) b.span
  | _ => unexpected "if statement or block"

def ifStmt : Parser StmtId := do
  let start := (← expect .kwIf).start
  let (init, cond) ← asHeader (ifHeader parse)
  let body ← parse.block
  let other ←
    match ← eat .kwElse with
    | some _ => some <$> otherwise parse
    | none => pure none
  newStmt (.ifStmt init cond body other) (← spanFrom start)

/-- The last part of a loop header, which defines nothing. -/
def postStmt : Parser (Option StmtId) := do
  if (← isAt .lBrace) then pure none
  else
    let draft ← parse.simpleStmt .plain
    match draft.stmt with
    | .shortVar _ _ _ => unexpectedAt draft.span "simple statement" "short variable declaration"
    | _ => some <$> keep draft

/-- The condition and the last part of a loop header. -/
def forClause (init : Option StmtId) : Parser ForHeader := do
  let _ ← expect .semi
  let cond ← if (← isAt .semi) then pure none else some <$> parse.expression
  let _ ← expect .semi
  pure (.clause init cond (← postStmt parse))

/-- The header of a loop, up to the brace of its body. -/
def forHeader : Parser ForHeader := do
  match ← kind with
  | .lBrace => pure .infinite
  | .semi => forClause parse none
  | _ =>
    let draft ← parse.simpleStmt .forHeader
    match draft.stmt with
    | .range _ _ _ => .range <$> keep draft
    | _ =>
      if (← isAt .lBrace) then .cond <$> condition draft
      else
        let init ← keep draft
        forClause parse (some init)

def forStmt : Parser Stmt := do
  let _ ← expect .kwFor
  let header ← asHeader (forHeader parse)
  let body ← parse.block
  pure (.forStmt header body)

-- =========================================================== statements

/-- What `go` and `defer` apply to, which must be a call. -/
def calledBy (keyword : String) : Parser ExprId := do
  let x ← parse.expression
  match ← exprRow x with
  | .call _ _ _ _ _ => pure x
  | _ => unexpectedAt (← exprSpan x) ("function call after " ++ keyword) "expression"

/-- The results of a `return`; there is no list if the statement ends
there. -/
def results : Parser ListRef := do
  match ← kind with
  | .semi | .rBrace => pure .empty
  | _ =>
    let xs ← exprList parse
    listExprs xs

def optionalLabel : Parser (Option Ident) := do
  if (← isAt .ident) then some <$> ident else pure none

/-- A statement that started at a place and ends here. -/
def finishStmt (start : Location) (row : Stmt) : Parser StmtId := do
  newStmt row (← spanFrom start)

/-- A group of declarations within a body. -/
def declStmt (start : Location) (group : GroupKind) : Parser StmtId := do
  let decls ← parse.group group
  let decls ← listDecls decls
  finishStmt start (.decl decls)

def statement : Parser StmtId := do
  let start ← here
  match ← kind with
  | .kwConst => declStmt parse start .const
  | .kwVar => declStmt parse start .var
  | .kwType => declStmt parse start .type
  | .lBrace => finishStmt start (.block (← parse.block))
  | .kwIf => parse.ifStmt
  | .kwFor => finishStmt start (← parse.forStmt)
  | .kwGo =>
    let _ ← advance
    finishStmt start (.goStmt (← calledBy parse "go"))
  | .kwDefer =>
    let _ ← advance
    finishStmt start (.deferStmt (← calledBy parse "defer"))
  | .kwReturn =>
    let _ ← advance
    finishStmt start (.returnStmt (← results parse))
  | .kwBreak =>
    let _ ← advance
    finishStmt start (.breakStmt (← optionalLabel))
  | .kwContinue =>
    let _ ← advance
    finishStmt start (.continueStmt (← optionalLabel))
  | .kwGoto =>
    let _ ← advance
    finishStmt start (.gotoStmt (← ident))
  | .kwFallthrough =>
    let _ ← advance
    finishStmt start .fallthroughStmt
  | .semi | .rBrace | .eof => newStmt .empty (.point (← previousEnd))
  | .kwSwitch => fail (.unsupported .switchStatement (← current).span)
  | .kwSelect => fail (.unsupported .selectStatement (← current).span)
  | _ => keep (← parse.simpleStmt .statement)

-- ==================================================== type switch guards

/-- Whether an expression is of the form `x.(type)`. -/
def isGuard (x : ExprId) : Parser Bool := do
  match ← exprRow x with
  | .typeAssert _ none _ => pure true
  | _ => pure false

/-- Whether a statement is nothing but a guard, or defines one name by
it. -/
def isGuardStmt : Stmt → Parser Bool
  | .expr x => isGuard x
  | .shortVar names _ values => do
    match ← exprItems values with
    | [x] => if names.length = 1 then isGuard x else pure false
    | _ => pure false
  | _ => pure false

/-- A guard as the whole input. -/
def typeSwitchGuard : Parser StmtId := do
  allowGuard true
  let draft ← parse.simpleStmt .plain
  allowGuard false
  if (← isGuardStmt draft.stmt) then
    let stmt ← keep draft
    let _ ← eat .semi
    let _ ← expect .eof
    pure stmt
  else unexpectedAt draft.span "type switch guard" "statement"

end GoSource.Stored.Grammar
