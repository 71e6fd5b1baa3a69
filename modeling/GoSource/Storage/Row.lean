/-
What a node is where it is stored: a row of numbers, ranges and spans.

A row has the fields of the form it stands for. But what the form contains,
the row refers to: another node by its number, a list by its range, a text
by its symbol. Parts of a form that are no nodes (a signature, a block, an
element of a composite literal) are part of the row as well, and refer in
the same way.
-/
import GoSource.Storage.Table
import GoSource.Syntax.Operator

namespace GoSource.Stored

-- =============================================================== numbers

/-- The number of a text that has been interned. -/
abbrev Symbol := Nat

abbrev DeclId := Nat
abbrev StmtId := Nat
abbrev ExprId := Nat
abbrev TypeId := Nat
abbrev FieldId := Nat
abbrev ParamId := Nat
abbrev LitId := Nat

structure Ident where
  symbol : Symbol
  span : Span
deriving DecidableEq, Repr

-- ================================================ expressions and types

inductive Expr where
  | ident (name : Ident)
  | literal (lit : LitId)
  | composite (type : Option TypeId) (elements : ListRef) (lBrace rBrace : Span)
  | index (x : ExprId) (lBrack : Span) (i : ExprId) (rBrack : Span)
  | slice (x : ExprId) (lBrack : Span) (low high max : Option ExprId) (rBrack : Span)
  | typeAssert (x : ExprId) (type : Option TypeId) (rParen : Span)
  | selector (x : ExprId) (name : Ident)
  | call (f : ExprId) (lParen : Span) (args : ListRef) (dots : Option Span) (rParen : Span)
  | binary (op : BinaryOp) (opSpan : Span) (left right : ExprId)
  | unary (op : UnaryOp) (opSpan : Span) (operand : ExprId)
  | type (type : TypeId)

structure Element where
  key : Option ExprId
  value : ExprId

structure ParamList where
  params : ListRef
  span : Span

inductive FuncResult where
  | params (list : ParamList)
  | type (type : TypeId)

structure Signature where
  params : ParamList
  result : Option FuncResult
  span : Span

inductive InterfaceElement where
  | method (name : Ident) (signature : Signature)
  | embedded (type : TypeId)

inductive ArrayLength where
  | expr (length : ExprId)
  | dots (span : Span)

inductive TypeExpr where
  | name (pkg : Option Ident) (name : Ident)
  | array (length : ArrayLength) (elem : TypeId)
  | slice (elem : TypeId)
  | pointer (elem : TypeId)
  | map (key value : TypeId)
  | chan (dir : ChanDir) (elem : TypeId)
  | func (signature : Signature)
  | struct (fields : ListRef)
  | interface (elements : ListRef)

structure Field where
  names : ListRef
  type : TypeId
  tag : Option LitId

structure Param where
  names : ListRef
  dots : Option Span
  type : TypeId

-- =============================================== declarations and files

inductive ImportName where
  | dot (span : Span)
  | name (name : Ident)

structure ImportSpec where
  name : Option ImportName
  path : Symbol
  pathSpan : Span

structure ImportDecl where
  doc : ListRef
  importSpan : Span
  specs : ListRef

structure ConstSpec where
  doc : ListRef
  names : ListRef
  type : Option TypeId
  values : ListRef
  iota : Nat

structure VarSpec where
  doc : ListRef
  names : ListRef
  type : Option TypeId
  values : ListRef

structure TypeSpec where
  doc : ListRef
  name : Ident
  assign : Option Span
  type : TypeId

structure Block where
  stmts : ListRef
  span : Span

structure FunctionDecl where
  doc : ListRef
  funcSpan : Span
  name : Ident
  signature : Signature
  body : Option Block

structure MethodDecl where
  doc : ListRef
  funcSpan : Span
  receiver : ParamList
  name : Ident
  signature : Signature
  body : Option Block

inductive Decl where
  | imports (decl : ImportDecl)
  | const (spec : ConstSpec)
  | var (spec : VarSpec)
  | type (spec : TypeSpec)
  | func (decl : FunctionDecl)
  | method (decl : MethodDecl)

/-- A file is returned and not stored. -/
structure File where
  packageSpan : Span
  name : Ident
  imports : ListRef
  decls : ListRef
  span : Span

-- ============================================================ statements

inductive ForHeader where
  | infinite
  | cond (cond : ExprId)
  | clause (init : Option StmtId) (cond : Option ExprId) (post : Option StmtId)
  | range (stmt : StmtId)

inductive Stmt where
  | empty
  | decl (decls : ListRef)
  | expr (x : ExprId)
  | assign (left : ListRef) (op : AssignOp) (opSpan : Span) (right : ListRef)
  | shortVar (names : ListRef) (opSpan : Span) (values : ListRef)
  | range (left : ListRef) (define : Bool) (x : ExprId)
  | send (chan value : ExprId)
  | step (x : ExprId) (op : StepOp)
  | labeled (label : Ident) (stmt : StmtId)
  | block (block : Block)
  | ifStmt (init : Option StmtId) (cond : ExprId) (body : Block) (otherwise : Option StmtId)
  | forStmt (header : ForHeader) (body : Block)
  | goStmt (call : ExprId)
  | deferStmt (call : ExprId)
  | returnStmt (results : ListRef)
  | breakStmt (label : Option Ident)
  | continueStmt (label : Option Ident)
  | gotoStmt (label : Ident)
  | fallthroughStmt

/-- A statement that is not stored yet, with its span. -/
structure Draft where
  stmt : Stmt
  span : Span

end GoSource.Stored
