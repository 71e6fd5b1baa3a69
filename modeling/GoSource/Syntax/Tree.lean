/-
Syntax trees.

A tree is what a source text says, with the place of everything in it.
Parentheses around an operand or a type leave no trace, comments only
where they document a declaration.

# Nodes

Seven kinds of things are *nodes*: declarations, statements, expressions,
types, fields, parameters and literals. A node is a form together with a
span and a number. The number counts the nodes of its kind in the order in
which they were completed, over everything parsed together, so it tells
two occurrences of the same form apart. What belongs to a node but is none
itself (a signature, a block, an element of a composite literal) is part
of the form.

# Two layers

Expressions and types contain each other; statements and declarations
contain each other and both of the former. Nothing leads back, since a
function literal is no expression here, so the trees come in two mutual
definitions, one on top of the other.
-/
import GoSource.Literal
import GoSource.Syntax.Operator

namespace GoSource

/-- A form with its number among the nodes of its kind, and its span. -/
structure Node (α : Type) where
  id : Nat
  span : Span
  form : α
deriving Repr

/-- A name where it occurs. -/
structure Ident where
  name : String
  span : Span
deriving DecidableEq, Repr

/-- A literal where it occurs. -/
abbrev Lit := Node Literal

-- ================================================ expressions and types

mutual

/-- Expressions. -/
inductive ExprForm where
  | ident (name : Ident)
  | literal (lit : Node Literal)
  /-- `T{...}`. A literal inside another may leave its type out. -/
  | composite (type : Option (Node TypeForm)) (elements : List Element) (lBrace rBrace : Span)
  /-- `x[i]` -/
  | index (x : Node ExprForm) (lBrack : Span) (i : Node ExprForm) (rBrack : Span)
  /-- `x[low:high:max]`, each of the three possibly missing. -/
  | slice (x : Node ExprForm) (lBrack : Span) (low high max : Option (Node ExprForm))
      (rBrack : Span)
  /-- `x.(T)`, or `x.(type)` where there is no type. -/
  | typeAssert (x : Node ExprForm) (type : Option (Node TypeForm)) (rParen : Span)
  /-- `x.name` -/
  | selector (x : Node ExprForm) (name : Ident)
  /-- `f(args)`, or `f(args...)` where the dots have a span. -/
  | call (f : Node ExprForm) (lParen : Span) (args : List (Node ExprForm))
      (dots : Option Span) (rParen : Span)
  | binary (op : BinaryOp) (opSpan : Span) (left right : Node ExprForm)
  | unary (op : UnaryOp) (opSpan : Span) (operand : Node ExprForm)
  /-- A type where an operand stands, as in a conversion. -/
  | type (type : Node TypeForm)

/-- An element of a composite literal. -/
structure Element where
  key : Option (Node ExprForm)
  value : Node ExprForm

/-- Types. -/
inductive TypeForm where
  /-- `T` or `pkg.T` -/
  | name (pkg : Option Ident) (name : Ident)
  | array (length : ArrayLength) (elem : Node TypeForm)
  | slice (elem : Node TypeForm)
  | pointer (elem : Node TypeForm)
  | map (key value : Node TypeForm)
  | chan (dir : ChanDir) (elem : Node TypeForm)
  | func (signature : Signature)
  | struct (fields : List (Node FieldForm))
  | interface (elements : List InterfaceElement)

/-- The length of an array type. -/
inductive ArrayLength where
  | expr (length : Node ExprForm)
  /-- `...`: the length is that of the composite literal. -/
  | dots (span : Span)

/-- Fields of one type, or an embedded field, which has no names. The tag
is a string. -/
structure FieldForm where
  names : List Ident
  type : Node TypeForm
  tag : Option (Node Literal)

/-- Parameters of one type; the names are missing if none of the list has
any. The dots belong to a variadic parameter. -/
structure ParamForm where
  names : List Ident
  dots : Option Span
  type : Node TypeForm

/-- A parameter list with its parentheses. -/
structure ParamList where
  params : List (Node ParamForm)
  span : Span

structure Signature where
  params : ParamList
  result : Option FuncResult
  span : Span

/-- What a function returns: a list in parentheses, or a single type. -/
inductive FuncResult where
  | params (list : ParamList)
  | type (type : Node TypeForm)

inductive InterfaceElement where
  | method (name : Ident) (signature : Signature)
  | embedded (type : Node TypeForm)

end

abbrev Expr := Node ExprForm
abbrev TypeExpr := Node TypeForm
abbrev Field := Node FieldForm
abbrev Param := Node ParamForm

/-- Where a message about the expression points: to its operator or its
opening bracket rather than to its first operand. -/
def Node.focus (e : Node ExprForm) : Location :=
  match e.form with
  | .binary _ op _ _ | .unary _ op _ => op.start
  | .index _ bracket _ _ | .slice _ bracket _ _ _ _ | .call _ bracket _ _ _ => bracket.start
  | _ => e.span.start

/-- An embedded field is named by its type. -/
def FieldForm.isEmbedded (f : FieldForm) : Bool := f.names.isEmpty

-- ============================================================== imports

/-- The name an import is given. -/
inductive ImportName where
  /-- `.`: everything the package exports is to be used unqualified. -/
  | dot (span : Span)
  | name (name : Ident)
deriving DecidableEq, Repr

/-- One imported package. The path is the text its literal denotes. -/
structure ImportSpec where
  name : Option ImportName
  path : String
  pathSpan : Span
deriving DecidableEq, Repr

/-- What stands after the last slash of a path. -/
def lastElement (path : String) : String :=
  .ofList (path.toList.reverse.takeWhile (· ≠ '/')).reverse

namespace ImportSpec

def span (s : ImportSpec) : Span :=
  match s.name with
  | some (.dot dot) => dot.through s.pathSpan
  | some (.name n) => n.span.through s.pathSpan
  | none => s.pathSpan

/-- The name the import binds in its file: the one it is given, or else
the last element of its path. A dot import binds none. -/
def bindingName (s : ImportSpec) : Option String :=
  match s.name with
  | some (.dot _) => none
  | some (.name n) => some n.name
  | none => some (lastElement s.path)

end ImportSpec

-- ========================================================= declarations

/-- `import "path"`, or a group of imports. -/
structure ImportDecl where
  doc : List String
  importSpan : Span
  specs : List ImportSpec
deriving DecidableEq, Repr

/-- Constants declared together. A spec without values repeats those of
the spec before it; `iota` is its position in the group. -/
structure ConstSpec where
  doc : List String
  names : List Ident
  type : Option TypeExpr
  values : List Expr
  iota : Nat

/-- Variables declared together. -/
structure VarSpec where
  doc : List String
  names : List Ident
  type : Option TypeExpr
  values : List Expr

/-- A named type, or an alias if there is an `=`. -/
structure TypeSpec where
  doc : List String
  name : Ident
  assign : Option Span
  type : TypeExpr

mutual

/-- Declarations. A group declares one for each of its specs. -/
inductive DeclForm where
  | imports (decl : ImportDecl)
  | const (spec : ConstSpec)
  | var (spec : VarSpec)
  | type (spec : TypeSpec)
  | func (decl : FunctionDecl)
  | method (decl : MethodDecl)

structure FunctionDecl where
  doc : List String
  funcSpan : Span
  name : Ident
  signature : Signature
  body : Option Block

/-- A function with a receiver, which is a list of one parameter. -/
structure MethodDecl where
  doc : List String
  funcSpan : Span
  receiver : ParamList
  name : Ident
  signature : Signature
  body : Option Block

/-- Statements in braces. -/
structure Block where
  stmts : List (Node StmtForm)
  span : Span

/-- Statements. -/
inductive StmtForm where
  | empty
  /-- Constants, variables and types declared within a body. -/
  | decl (decls : List (Node DeclForm))
  | expr (x : Expr)
  | assign (left : List Expr) (op : AssignOp) (opSpan : Span) (right : List Expr)
  /-- `x, y := a, b` -/
  | shortVar (names : List Ident) (opSpan : Span) (values : List Expr)
  /-- The header of a range loop, with `:=` if it defines. -/
  | range (left : List Expr) (define : Bool) (x : Expr)
  /-- `ch <- v` -/
  | send (chan value : Expr)
  | step (x : Expr) (op : StepOp)
  | labeled (label : Ident) (stmt : Node StmtForm)
  | block (block : Block)
  /-- The last part is an `if` statement or a block. -/
  | ifStmt (init : Option (Node StmtForm)) (cond : Expr) (body : Block)
      (otherwise : Option (Node StmtForm))
  | forStmt (header : ForHeader) (body : Block)
  | goStmt (call : Expr)
  | deferStmt (call : Expr)
  | returnStmt (results : List Expr)
  | breakStmt (label : Option Ident)
  | continueStmt (label : Option Ident)
  | gotoStmt (label : Ident)
  | fallthroughStmt

/-- What stands between `for` and the body. -/
inductive ForHeader where
  | infinite
  | cond (cond : Expr)
  | clause (init : Option (Node StmtForm)) (cond : Option Expr) (post : Option (Node StmtForm))
  /-- The statement is of the form `range`. -/
  | range (stmt : Node StmtForm)

end

abbrev Decl := Node DeclForm
abbrev Stmt := Node StmtForm

namespace DeclForm

/-- The names a declaration binds, in order. Imports bind theirs in the
file, not by a declared name. -/
def names : DeclForm → List Ident
  | imports _ => []
  | const c => c.names
  | var v => v.names
  | type t => [t.name]
  | func f => [f.name]
  | method m => [m.name]

/-- The lines of the comments that document the declaration. -/
def doc : DeclForm → List String
  | imports d => d.doc
  | const c => c.doc
  | var v => v.doc
  | type t => t.doc
  | func f => f.doc
  | method m => m.doc

def isImport : DeclForm → Bool
  | imports _ => true
  | _ => false

end DeclForm

-- ================================================================ files

/-- A source file: package clause, imports, and the rest. -/
structure File where
  packageSpan : Span
  name : Ident
  imports : List Decl
  decls : List Decl
  span : Span

end GoSource
