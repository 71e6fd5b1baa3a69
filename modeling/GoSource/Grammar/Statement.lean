/-
Statements and blocks.

# Reading twice

A statement that does not start with a keyword starts with expressions,
and only the token after them says what it is. A label, the names on the
left of `:=` and the header of a loop are all read as expressions first;
those expressions must then be plain identifiers. A simple statement is
returned as a draft, because in a header its form decides whether it is
kept as a statement or was only the condition.

# Empty statements

A semicolon where a statement could stand is passed over. An empty
statement is built in one place only: after a label with nothing behind
it.
-/
import GoSource.Grammar.TypeExpr

namespace GoSource.Grammar

open GoSource.Parser

variable (parse : SubParser)

-- =============================================================== blocks

/-- Where a list of statements ends. -/
def atListEnd : Parser Bool := do
  match ← kind with
  | .rBrace | .eof => pure true
  | _ => pure false

/-- One statement more and the semicolon after it, which may be missing at
the end of the list. -/
def nextStmt (stmts : List Stmt) : Parser (Turn (List Stmt)) := do
  if (← atListEnd) then pure (.stop stmts)
  else match ← eat .semi with
    | some _ => pure (.again stmts)
    | none =>
      let stmts := (← parse .statement) :: stmts
      if (← atListEnd) then pure (.again stmts)
      else
        let _ ← expect .semi
        pure (.again stmts)

/-- Statements up to a closing brace or the end of the input. -/
def stmtList : Parser (List Stmt) := do
  let stmts ← repeating (nextStmt parse) []
  recording (·.addStmts stmts.reverse)
  pure stmts.reverse

def block : Parser Block := unrestricted do
  let lBrace ← expect .lBrace
  let stmts ← stmtList parse
  let rBrace ← expect .rBrace
  pure ⟨stmts, lBrace.through rBrace⟩

-- ==================================================== simple statements

/-- The only expression of a list. Where there are several, what should
have followed them is an assignment. -/
def single : List Expr → Parser Expr
  | [x] => pure x
  | _ => unexpected ":= or = or comma"

/-- The names on the left of `:=`. -/
def definedNames (left : List Expr) : Parser (List Ident) :=
  left.mapM fun x =>
    match x.form with
    | .ident name => pure name
    | _ => unexpectedAt x.span "identifier" "expression"

/-- The label that a list of expressions is, if it is one. -/
def asLabel : List Expr → Option Ident
  | [⟨_, _, .ident name⟩] => some name
  | _ => none

/-- The range clause after `range`, if it is acceptable and follows. -/
def rangeClause (mode : SimpleMode) : Parser (Option Expr) := do
  if mode.rangeAllowed then
    match ← eat .kwRange with
    | some _ => some <$> parse .expression
    | none => pure none
  else pure none

/-- A statement that defines names, after their expressions. -/
def definition (mode : SimpleMode) (left : List Expr) : Parser StmtForm := do
  let names ← definedNames left
  let op ← advance
  match ← rangeClause parse mode with
  | some x =>
    recording (·.addExprs left)
    pure (.range left true x)
  | none =>
    let values ← exprList parse
    recording (·.addIdents names)
    recording (·.addExprs values)
    pure (.shortVar names op.span values)

/-- An assignment, after its left side. -/
def assignment (mode : SimpleMode) (left : List Expr) (op : AssignOp) : Parser StmtForm := do
  let opToken ← advance
  let clause ← if op = .assign then rangeClause parse mode else pure none
  match clause with
  | some x =>
    recording (·.addExprs left)
    pure (.range left false x)
  | none =>
    let right ← exprList parse
    recording (·.addExprs left)
    recording (·.addExprs right)
    pure (.assign left op opToken.span right)

/-- What follows the expressions at the start of a statement. -/
def afterExprs (mode : SimpleMode) (left : List Expr) : Parser StmtForm := do
  match ← kind with
  | .arrow =>
    let chan ← single left
    let _ ← advance
    pure (.send chan (← parse .expression))
  | .increment =>
    let x ← single left
    let _ ← advance
    pure (.step x .increment)
  | .decrement =>
    let x ← single left
    let _ ← advance
    pure (.step x .decrement)
  | .define => definition parse mode left
  | k =>
    match AssignOp.ofKind k with
    | some op => assignment parse mode left op
    | none => .expr <$> single left

/-- The label at the start of a statement, if labels are acceptable and a
colon follows a lone name. -/
def labelBefore (mode : SimpleMode) (left : List Expr) : Parser (Option Ident) := do
  if mode.labelAllowed && (← isAt .colon) then pure (asLabel left) else pure none

def simpleStmt (mode : SimpleMode) : Parser Draft := do
  let start ← here
  match ← rangeClause parse mode with
  | some x => pure ⟨.range [] false x, ← spanFrom start⟩
  | none =>
    let left ← exprList parse
    match ← labelBefore mode left with
    | some label =>
      let _ ← advance
      let stmt ← parse .statement
      pure ⟨.labeled label stmt, ← spanFrom start⟩
    | none =>
      let form ← afterExprs parse mode left
      pure ⟨form, ← spanFrom start⟩

-- ============================================================== headers

/-- The condition that a statement in a header must be. -/
def condition (draft : Draft) : Parser Expr :=
  match draft.form with
  | .expr x => pure x
  | _ => unexpectedAt draft.span "condition" "statement"

/-- A draft kept as a statement. -/
def keep (draft : Draft) : Parser Stmt := newStmt draft.form draft.span

/-- The header of an `if`: a condition, possibly after a statement. -/
def ifHeader : Parser (Option Stmt × Expr) := do
  let first ← parse (.simpleStmt .plain)
  match ← eat .semi with
  | none => pure (none, ← condition first)
  | some _ =>
    let init ← keep first
    let second ← parse (.simpleStmt .plain)
    pure (some init, ← condition second)

/-- What follows `else`: another `if`, or a block. -/
def otherwise : Parser Stmt := do
  match ← kind with
  | .kwIf => parse .ifStmt
  | .lBrace =>
    let b ← parse .block
    newStmt (.block b) b.span
  | _ => unexpected "if statement or block"

def ifStmt : Parser Stmt := do
  let start := (← expect .kwIf).start
  let (init, cond) ← asHeader (ifHeader parse)
  let body ← parse .block
  let other ←
    match ← eat .kwElse with
    | some _ => some <$> otherwise parse
    | none => pure none
  newStmt (.ifStmt init cond body other) (← spanFrom start)

/-- The last part of a loop header, which defines nothing. -/
def postStmt : Parser (Option Stmt) := do
  if (← isAt .lBrace) then pure none
  else
    let draft ← parse (.simpleStmt .plain)
    match draft.form with
    | .shortVar _ _ _ => unexpectedAt draft.span "simple statement" "short variable declaration"
    | _ => some <$> keep draft

/-- The condition and the last part of a loop header, after what comes
first. -/
def forClause (init : Option Stmt) : Parser ForHeader := do
  let _ ← expect .semi
  let cond ← if (← isAt .semi) then pure none else some <$> parse .expression
  let _ ← expect .semi
  pure (.clause init cond (← postStmt parse))

/-- The header of a loop, up to the brace of its body. -/
def forHeader : Parser ForHeader := do
  match ← kind with
  | .lBrace => pure .infinite
  | .semi => forClause parse none
  | _ =>
    let draft ← parse (.simpleStmt .forHeader)
    match draft.form with
    | .range _ _ _ => .range <$> keep draft
    | _ =>
      if (← isAt .lBrace) then .cond <$> condition draft
      else
        let init ← keep draft
        forClause parse (some init)

def forStmt : Parser StmtForm := do
  let _ ← expect .kwFor
  let header ← asHeader (forHeader parse)
  let body ← parse .block
  pure (.forStmt header body)

-- =========================================================== statements

/-- What `go` and `defer` apply to, which must be a call. -/
def calledBy (keyword : String) : Parser Expr := do
  let x ← parse .expression
  match x.form with
  | .call _ _ _ _ _ => pure x
  | _ => unexpectedAt x.span ("function call after " ++ keyword) "expression"

/-- The results of a `return`, none if the statement ends there. -/
def results : Parser (List Expr) := do
  match ← kind with
  | .semi | .rBrace => pure []
  | _ =>
    let xs ← exprList parse
    recording (·.addExprs xs)
    pure xs

def optionalLabel : Parser (Option Ident) := do
  if (← isAt .ident) then some <$> ident else pure none

/-- A statement that started at a place and ends here. -/
def finishStmt (start : Location) (form : StmtForm) : Parser Stmt := do
  newStmt form (← spanFrom start)

/-- A group of declarations within a body. -/
def declStmt (start : Location) (group : GroupKind) : Parser Stmt := do
  let decls ← parse (.group group)
  recording (·.addDecls decls)
  finishStmt start (.decl decls)

def statement : Parser Stmt := do
  let start ← here
  match ← kind with
  | .kwConst => declStmt parse start .const
  | .kwVar => declStmt parse start .var
  | .kwType => declStmt parse start .type
  | .lBrace => finishStmt start (.block (← parse .block))
  | .kwIf => parse .ifStmt
  | .kwFor => finishStmt start (← parse .forStmt)
  | .kwGo =>
    let _ ← advance
    finishStmt start (.goStmt (← calledBy parse "go"))
  | .kwDefer =>
    let _ ← advance
    finishStmt start (.deferStmt (← calledBy parse "defer"))
  | .kwReturn =>
    let _ ← advance
    finishStmt start (.returnStmt (← results parse))
  | .kwBreak =>
    let _ ← advance
    finishStmt start (.breakStmt (← optionalLabel))
  | .kwContinue =>
    let _ ← advance
    finishStmt start (.continueStmt (← optionalLabel))
  | .kwGoto =>
    let _ ← advance
    finishStmt start (.gotoStmt (← ident))
  | .kwFallthrough =>
    let _ ← advance
    finishStmt start .fallthroughStmt
  | .semi | .rBrace | .eof => newStmt .empty (.point (← previousEnd))
  | .kwSwitch => throw (.unsupported .switchStatement (← current).span)
  | .kwSelect => throw (.unsupported .selectStatement (← current).span)
  | _ => keep (← parse (.simpleStmt .statement))

-- ==================================================== type switch guards

/-- An expression of the form `x.(type)`. -/
def isGuard (x : Expr) : Bool :=
  match x.form with
  | .typeAssert _ none _ => true
  | _ => false

/-- A statement that is nothing but a guard, or defines one name by it. -/
def isGuardStmt : StmtForm → Bool
  | .expr x => isGuard x
  | .shortVar [_] _ [x] => isGuard x
  | _ => false

/-- A guard as the whole input. -/
def typeSwitchGuard : Parser Stmt := do
  allowGuard true
  let draft ← parse (.simpleStmt .plain)
  allowGuard false
  if isGuardStmt draft.form then
    let stmt ← keep draft
    let _ ← eat .semi
    let _ ← expect .eof
    pure stmt
  else unexpectedAt draft.span "type switch guard" "statement"

end GoSource.Grammar
