/-
Walking over a tree.

`walk` lists every node of a tree once, a node before those it contains,
with the number of nodes above it. Parts of a form that are no nodes of
their own (names, blocks, signatures, elements) are passed through: the
nodes within them are one level below the node whose form it is.

The order among the parts of a form is the order in which the form lists
them. It is the order of the source, but for a signature within a method,
which comes after the receiver.
-/
import GoSource.Syntax.Tree

namespace GoSource

/-- A stop on a walk. A file is no node, but it is where a walk over one
begins. -/
inductive Visit where
  | file (file : File)
  | decl (decl : Decl)
  | stmt (stmt : Stmt)
  | expr (expr : Expr)
  | type (type : TypeExpr)
  | field (field : Field)
  | param (param : Param)
  | literal (literal : Lit)

/-- A stop with the number of stops above it. -/
structure Step where
  depth : Nat
  visit : Visit

namespace Walk

-- ================================================ expressions and types

mutual

def expr (depth : Nat) : Node ExprForm → List Step
  | ⟨id, span, form⟩ => ⟨depth, .expr ⟨id, span, form⟩⟩ :: exprForm (depth + 1) form

def exprForm (depth : Nat) : ExprForm → List Step
  | .ident _ => []
  | .literal lit => [⟨depth, .literal lit⟩]
  | .composite t elements _ _ => optionalType depth t ++ elementList depth elements
  | .index x _ i _ => expr depth x ++ expr depth i
  | .slice x _ low high max _ =>
    expr depth x ++ optionalExpr depth low ++ optionalExpr depth high ++ optionalExpr depth max
  | .typeAssert x t _ => expr depth x ++ optionalType depth t
  | .selector x _ => expr depth x
  | .call f _ args _ _ => expr depth f ++ exprList depth args
  | .binary _ _ left right => expr depth left ++ expr depth right
  | .unary _ _ operand => expr depth operand
  | .type t => typeExpr depth t

def optionalExpr (depth : Nat) : Option (Node ExprForm) → List Step
  | none => []
  | some x => expr depth x

def exprList (depth : Nat) : List (Node ExprForm) → List Step
  | [] => []
  | x :: xs => expr depth x ++ exprList depth xs

def element (depth : Nat) : Element → List Step
  | ⟨key, value⟩ => optionalExpr depth key ++ expr depth value

def elementList (depth : Nat) : List Element → List Step
  | [] => []
  | e :: es => element depth e ++ elementList depth es

def typeExpr (depth : Nat) : Node TypeForm → List Step
  | ⟨id, span, form⟩ => ⟨depth, .type ⟨id, span, form⟩⟩ :: typeForm (depth + 1) form

def typeForm (depth : Nat) : TypeForm → List Step
  | .name _ _ => []
  | .array length elem => arrayLength depth length ++ typeExpr depth elem
  | .slice elem => typeExpr depth elem
  | .pointer elem => typeExpr depth elem
  | .map key value => typeExpr depth key ++ typeExpr depth value
  | .chan _ elem => typeExpr depth elem
  | .func sig => signature depth sig
  | .struct fields => fieldList depth fields
  | .interface elements => interfaceElements depth elements

def optionalType (depth : Nat) : Option (Node TypeForm) → List Step
  | none => []
  | some t => typeExpr depth t

def arrayLength (depth : Nat) : ArrayLength → List Step
  | .expr length => expr depth length
  | .dots _ => []

def field (depth : Nat) : Node FieldForm → List Step
  | ⟨id, span, form⟩ => ⟨depth, .field ⟨id, span, form⟩⟩ :: fieldForm (depth + 1) form

def fieldForm (depth : Nat) : FieldForm → List Step
  | ⟨_, t, tag⟩ => typeExpr depth t ++ tag.toList.map fun lit => ⟨depth, .literal lit⟩

def fieldList (depth : Nat) : List (Node FieldForm) → List Step
  | [] => []
  | f :: fs => field depth f ++ fieldList depth fs

def param (depth : Nat) : Node ParamForm → List Step
  | ⟨id, span, form⟩ => ⟨depth, .param ⟨id, span, form⟩⟩ :: paramForm (depth + 1) form

def paramForm (depth : Nat) : ParamForm → List Step
  | ⟨_, _, t⟩ => typeExpr depth t

def paramNodes (depth : Nat) : List (Node ParamForm) → List Step
  | [] => []
  | p :: ps => param depth p ++ paramNodes depth ps

def paramList (depth : Nat) : ParamList → List Step
  | ⟨params, _⟩ => paramNodes depth params

def signature (depth : Nat) : Signature → List Step
  | ⟨params, result, _⟩ => paramList depth params ++ optionalResult depth result

def optionalResult (depth : Nat) : Option FuncResult → List Step
  | none => []
  | some r => funcResult depth r

def funcResult (depth : Nat) : FuncResult → List Step
  | .params list => paramList depth list
  | .type t => typeExpr depth t

def interfaceElement (depth : Nat) : InterfaceElement → List Step
  | .method _ sig => signature depth sig
  | .embedded t => typeExpr depth t

def interfaceElements (depth : Nat) : List InterfaceElement → List Step
  | [] => []
  | e :: es => interfaceElement depth e ++ interfaceElements depth es

end

-- ========================================== declarations and statements

mutual

def decl (depth : Nat) : Node DeclForm → List Step
  | ⟨id, span, form⟩ => ⟨depth, .decl ⟨id, span, form⟩⟩ :: declForm (depth + 1) form

def declForm (depth : Nat) : DeclForm → List Step
  | .imports _ => []
  | .const spec => optionalType depth spec.type ++ exprList depth spec.values
  | .var spec => optionalType depth spec.type ++ exprList depth spec.values
  | .type spec => typeExpr depth spec.type
  | .func d => functionDecl depth d
  | .method d => methodDecl depth d

def functionDecl (depth : Nat) : FunctionDecl → List Step
  | ⟨_, _, _, sig, body⟩ => signature depth sig ++ optionalBlock depth body

def methodDecl (depth : Nat) : MethodDecl → List Step
  | ⟨_, _, receiver, _, sig, body⟩ =>
    paramList depth receiver ++ signature depth sig ++ optionalBlock depth body

def declList (depth : Nat) : List (Node DeclForm) → List Step
  | [] => []
  | d :: ds => decl depth d ++ declList depth ds

def block (depth : Nat) : Block → List Step
  | ⟨stmts, _⟩ => stmtList depth stmts

def optionalBlock (depth : Nat) : Option Block → List Step
  | none => []
  | some b => block depth b

def stmt (depth : Nat) : Node StmtForm → List Step
  | ⟨id, span, form⟩ => ⟨depth, .stmt ⟨id, span, form⟩⟩ :: stmtForm (depth + 1) form

def stmtForm (depth : Nat) : StmtForm → List Step
  | .empty => []
  | .decl decls => declList depth decls
  | .expr x => expr depth x
  | .assign left _ _ right => exprList depth left ++ exprList depth right
  | .shortVar _ _ values => exprList depth values
  | .range left _ x => exprList depth left ++ expr depth x
  | .send chan value => expr depth chan ++ expr depth value
  | .step x _ => expr depth x
  | .labeled _ s => stmt depth s
  | .block b => block depth b
  | .ifStmt init cond body otherwise =>
    optionalStmt depth init ++ expr depth cond ++ block depth body ++
      optionalStmt depth otherwise
  | .forStmt header body => forHeader depth header ++ block depth body
  | .goStmt call => expr depth call
  | .deferStmt call => expr depth call
  | .returnStmt results => exprList depth results
  | .breakStmt _ => []
  | .continueStmt _ => []
  | .gotoStmt _ => []
  | .fallthroughStmt => []

def optionalStmt (depth : Nat) : Option (Node StmtForm) → List Step
  | none => []
  | some s => stmt depth s

def stmtList (depth : Nat) : List (Node StmtForm) → List Step
  | [] => []
  | s :: ss => stmt depth s ++ stmtList depth ss

def forHeader (depth : Nat) : ForHeader → List Step
  | .infinite => []
  | .cond cond => expr depth cond
  | .clause init cond post =>
    optionalStmt depth init ++ optionalExpr depth cond ++ optionalStmt depth post
  | .range s => stmt depth s

end

-- ================================================================ files

/-- A file, its imports and its other declarations. -/
def file (depth : Nat) (f : File) : List Step :=
  ⟨depth, .file f⟩ :: declList (depth + 1) f.imports ++ declList (depth + 1) f.decls

end Walk

end GoSource
