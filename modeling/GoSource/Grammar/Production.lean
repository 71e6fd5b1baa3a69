/-
The productions of the grammar, as data.

A production is a thing that can be active: it has a name for messages,
and it counts against the nesting limit. `Production α` lists them all,
indexed by what each returns. The grammar is then one function from
productions to parsers (`Production.body`), which refers to further
productions through a parameter only; tying the knot is the business of
`Grammar.parse`, and that is where the limit on nesting is spent. So
nothing in a body can recurse except by way of a counted production.
-/
import GoSource.Parsing.State

namespace GoSource

/-- Which extra forms a simple statement may take where it stands. -/
inductive SimpleMode where
  | plain
  /-- A label and the statement it labels. -/
  | statement
  /-- The range clause of a loop. -/
  | forHeader
deriving DecidableEq, Repr

namespace SimpleMode

def labelAllowed : SimpleMode → Bool
  | statement => true
  | _ => false

def rangeAllowed : SimpleMode → Bool
  | forHeader => true
  | _ => false

end SimpleMode

/-- Groups of declarations that may be parenthesized. -/
inductive GroupKind where
  | const | var | type
deriving DecidableEq, Repr

/-- The keyword of a group; any other token is none. -/
def GroupKind.ofKind : Token.Kind → Option GroupKind
  | .kwConst => some const
  | .kwVar => some var
  | .kwType => some type
  | _ => none

/-- A statement that has been read and not yet numbered, with its span:
what becomes of it may depend on its form. -/
structure Draft where
  form : StmtForm
  span : Span

/-- The productions, by what they return. Those with arguments continue
something that has been read. -/
inductive Production : Type → Type where
  | expression : Production Expr
  | unaryExpr : Production Expr
  | primaryExpr : Production Expr
  | operand : Production Expr
  | indexOrSlice (x : Expr) : Production Expr
  | call (f : Expr) : Production Expr
  /-- The braces of a literal whose type, if it has one, starts at the
  place given. -/
  | compositeLit (type : Option TypeExpr) (start : Location) : Production Expr
  | type : Production TypeExpr
  | signature : Production Signature
  | parameters : Production ParamList
  | structType : Production (List Field)
  | fieldDecl : Production Field
  | interfaceType : Production (List InterfaceElement)
  | block : Production Block
  | statement : Production Stmt
  | simpleStmt (mode : SimpleMode) : Production Draft
  | ifStmt : Production Stmt
  | forStmt : Production StmtForm
  | group (kind : GroupKind) : Production (List Decl)
  | functionDecl : Production Decl
  | importDecl : Production Decl
  | file : Production File
  | typeSwitchGuard : Production Stmt

/-- The name by which a trace refers to a production. -/
def Production.name {α : Type} : Production α → String
  | expression => "Expression"
  | unaryExpr => "UnaryExpr"
  | primaryExpr => "PrimaryExpr"
  | operand => "Operand"
  | indexOrSlice _ => "IndexOrSlice"
  | call _ => "Call"
  | compositeLit _ _ => "CompositeLit"
  | type => "Type"
  | signature => "Signature"
  | parameters => "Parameters"
  | structType => "StructType"
  | fieldDecl => "FieldDecl"
  | interfaceType => "InterfaceType"
  | block => "Block"
  | statement => "Statement"
  | simpleStmt _ => "SimpleStmt"
  | ifStmt => "IfStmt"
  | forStmt => "ForStmt"
  | group .const => "ConstDecl"
  | group .var => "VarDecl"
  | group .type => "TypeDecl"
  | functionDecl => "FunctionDecl"
  | importDecl => "ImportDecl"
  | file => "File"
  | typeSwitchGuard => "TypeSwitchGuard"

/-- How further productions are parsed, from the point of view of a body. -/
abbrev SubParser := ∀ {α : Type}, Production α → Parser α

end GoSource
