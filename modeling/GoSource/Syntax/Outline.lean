/-
Trees as text.

An outline shows a tree for people to read: a line for each node, with
what it contains indented below it. Some lines are labels for a part of
the form above them (`Cond:`), so that a missing part can be told from a
present one; and a block or a signature, which is no node, has lines of
its own.

An outline is built as a list of items: the lines, and between them a
mark for each declaration, statement, expression and type at the moment
its printing begins. Only the lines are rendered. The marks say which
nodes an outline shows, which is what makes it comparable with a walk.
-/
import GoSource.Syntax.Walk

namespace GoSource

/-- A part of an outline. -/
inductive OutlineItem where
  | visit (visit : Visit)
  | line (level : Nat) (text : String)

namespace Outline

-- =============================================================== pieces

/-- Names with commas between them. -/
def names (ids : List Ident) : String :=
  ", ".intercalate (ids.map (·.name))

/-- A label before a part, or what stands for a missing one. -/
def labeled (level : Nat) (label : String) (part : Option (List OutlineItem)) :
    List OutlineItem :=
  match part with
  | some items => .line level (label ++ ":") :: items
  | none => [.line level (label ++ ": nil")]

/-- The lines that document a declaration. -/
def doc (level : Nat) (lines : List String) : List OutlineItem :=
  lines.map (.line level ·)

/-- What shows that a parameter or a call has dots. -/
def dotsSuffix (dots : Option Span) : String :=
  if dots.isSome then " ..." else ""

/-- What an outline calls a literal. -/
def literalName : Literal → String
  | .integer _ => "Integer"
  | .float _ => "Float"
  | .imaginary _ => "Imaginary"
  | .rune _ => "Rune"
  | .string _ => "String"

-- ================================================ expressions and types

mutual

def expr (level : Nat) : Node ExprForm → List OutlineItem
  | ⟨id, span, form⟩ => .visit (.expr ⟨id, span, form⟩) :: exprForm level form

def exprForm (level : Nat) : ExprForm → List OutlineItem
  | .ident name => [.line level ("Ident " ++ name.name)]
  | .literal lit => [.line level (literalName lit.form ++ " " ++ lit.form.text)]
  | .composite t elements _ _ =>
    .line level "CompositeLit" :: optionalType (level + 1) t ++ elementList (level + 1) elements
  | .index x _ i _ => .line level "Index" :: expr (level + 1) x ++ expr (level + 1) i
  | .slice x _ low high max _ =>
    .line level "Slice" :: expr (level + 1) x
      ++ labeled (level + 1) "Low" (optionalExpr (level + 2) low)
      ++ labeled (level + 1) "High" (optionalExpr (level + 2) high)
      ++ labeled (level + 1) "Max" (optionalExpr (level + 2) max)
  | .typeAssert x t _ =>
    .line level "TypeAssert" :: expr (level + 1) x ++
      (match t with
       | some t => typeExpr (level + 1) t
       | none => [.line (level + 1) "type"])
  | .selector x name => .line level ("Selector ." ++ name.name) :: expr (level + 1) x
  | .call f _ args dots _ =>
    .line level ("Call" ++ dotsSuffix dots) :: expr (level + 1) f ++ exprList (level + 1) args
  | .binary op _ left right =>
    .line level ("Binary " ++ op.spelling) :: expr (level + 1) left ++ expr (level + 1) right
  | .unary op _ operand => .line level ("Unary " ++ op.spelling) :: expr (level + 1) operand
  | .type t => typeExpr level t

def optionalExpr (level : Nat) : Option (Node ExprForm) → Option (List OutlineItem)
  | none => none
  | some x => some (expr level x)

def exprList (level : Nat) : List (Node ExprForm) → List OutlineItem
  | [] => []
  | x :: xs => expr level x ++ exprList level xs

def element (level : Nat) : Element → List OutlineItem
  | ⟨none, value⟩ => .line level "Element" :: expr (level + 1) value
  | ⟨some key, value⟩ =>
    .line level "Element" :: labeled (level + 1) "Key" (some (expr (level + 2) key))
      ++ labeled (level + 1) "Value" (some (expr (level + 2) value))

def elementList (level : Nat) : List Element → List OutlineItem
  | [] => []
  | e :: es => element level e ++ elementList level es

def typeExpr (level : Nat) : Node TypeForm → List OutlineItem
  | ⟨id, span, form⟩ => .visit (.type ⟨id, span, form⟩) :: typeForm level form

def typeForm (level : Nat) : TypeForm → List OutlineItem
  | .name (some pkg) name => [.line level ("TypeName " ++ pkg.name ++ "." ++ name.name)]
  | .name none name => [.line level ("TypeName " ++ name.name)]
  | .array length elem =>
    .line level "ArrayType" :: arrayLength (level + 1) length ++ typeExpr (level + 1) elem
  | .slice elem => .line level "SliceType" :: typeExpr (level + 1) elem
  | .pointer elem => .line level "PointerType" :: typeExpr (level + 1) elem
  | .map key value =>
    .line level "MapType" :: typeExpr (level + 1) key ++ typeExpr (level + 1) value
  | .chan dir elem => .line level ("ChanType " ++ dir.spelling) :: typeExpr (level + 1) elem
  | .func sig => .line level "FuncType" :: signature (level + 1) sig
  | .struct fields => .line level "StructType" :: fieldList (level + 1) fields
  | .interface elements =>
    .line level "InterfaceType" :: interfaceElements (level + 1) elements

def optionalType (level : Nat) : Option (Node TypeForm) → List OutlineItem
  | none => []
  | some t => typeExpr level t

def arrayLength (level : Nat) : ArrayLength → List OutlineItem
  | .expr length => expr level length
  | .dots _ => [.line level "..."]

def field (level : Nat) : Node FieldForm → List OutlineItem
  | ⟨_, _, form⟩ => fieldForm level form

def fieldForm (level : Nat) : FieldForm → List OutlineItem
  | ⟨ids, t, tag⟩ =>
    .line level (if ids.isEmpty then "Field (embedded)" else "Field " ++ names ids)
      :: typeExpr (level + 1) t
      ++ tag.toList.map fun lit => .line (level + 1) ("Tag " ++ lit.form.text)

def fieldList (level : Nat) : List (Node FieldForm) → List OutlineItem
  | [] => []
  | f :: fs => field level f ++ fieldList level fs

def param (level : Nat) : Node ParamForm → List OutlineItem
  | ⟨_, _, form⟩ => paramForm level form

def paramForm (level : Nat) : ParamForm → List OutlineItem
  | ⟨ids, dots, t⟩ =>
    .line level ((if ids.isEmpty then "Param" else "Param " ++ names ids) ++ dotsSuffix dots)
      :: typeExpr (level + 1) t

def paramNodes (level : Nat) : List (Node ParamForm) → List OutlineItem
  | [] => []
  | p :: ps => param level p ++ paramNodes level ps

def paramList (level : Nat) : ParamList → List OutlineItem
  | ⟨params, _⟩ => paramNodes level params

def signature (level : Nat) : Signature → List OutlineItem
  | ⟨params, result, _⟩ =>
    .line level "Parameters" :: paramList (level + 1) params ++ optionalResult level result

def optionalResult (level : Nat) : Option FuncResult → List OutlineItem
  | none => []
  | some r => funcResult level r

def funcResult (level : Nat) : FuncResult → List OutlineItem
  | .params list => .line level "Results" :: paramList (level + 1) list
  | .type t => .line level "Result" :: typeExpr (level + 1) t

def interfaceElement (level : Nat) : InterfaceElement → List OutlineItem
  | .method name sig => .line level ("Method " ++ name.name) :: signature (level + 1) sig
  | .embedded t => .line level "Embedded" :: typeExpr (level + 1) t

def interfaceElements (level : Nat) : List InterfaceElement → List OutlineItem
  | [] => []
  | e :: es => interfaceElement level e ++ interfaceElements level es

end

-- ============================================================== imports

/-- An import with the name it is given, its path in quotes. -/
def importSpec (level : Nat) (s : ImportSpec) : OutlineItem :=
  let path := Text.quoteString s.path
  match s.name with
  | some (.dot _) => .line level ("Import . " ++ path)
  | some (.name n) => .line level ("Import " ++ n.name ++ " " ++ path)
  | none => .line level ("Import " ++ path)

-- ========================================== declarations and statements

/-- A statement that jumps, with the label it may have. -/
def jump (level : Nat) (word : String) (label : Option Ident) : OutlineItem :=
  match label with
  | some l => .line level (word ++ " " ++ l.name)
  | none => .line level word

/-- What shows how a range clause gets its left side, if it has one. -/
def rangeSuffix (left : List Expr) (define : Bool) : String :=
  if left.isEmpty then "" else if define then " :=" else " ="

mutual

def decl (level : Nat) : Node DeclForm → List OutlineItem
  | ⟨id, span, form⟩ => .visit (.decl ⟨id, span, form⟩) :: declForm level form

def declForm (level : Nat) : DeclForm → List OutlineItem
  | .imports d =>
    doc level d.doc ++ .line level "ImportDecl" :: d.specs.map (importSpec (level + 1))
  | .const s =>
    doc level s.doc
      ++ .line level ("ConstSpec " ++ names s.names ++ " (iota " ++ toString s.iota ++ ")")
      :: optionalType (level + 1) s.type ++ exprList (level + 1) s.values
  | .var s =>
    doc level s.doc ++ .line level ("VarSpec " ++ names s.names)
      :: optionalType (level + 1) s.type ++ exprList (level + 1) s.values
  | .type s =>
    doc level s.doc
      ++ .line level ("TypeSpec " ++ s.name.name ++ if s.assign.isSome then " =" else "")
      :: typeExpr (level + 1) s.type
  | .func d => functionDecl level d
  | .method d => methodDecl level d

def functionDecl (level : Nat) : FunctionDecl → List OutlineItem
  | ⟨lines, _, name, sig, body⟩ =>
    doc level lines ++ .line level ("FunctionDecl " ++ name.name)
      :: signature (level + 1) sig ++ optionalBlock (level + 1) body

def methodDecl (level : Nat) : MethodDecl → List OutlineItem
  | ⟨lines, _, receiver, name, sig, body⟩ =>
    doc level lines ++ .line level ("MethodDecl " ++ name.name)
      :: .line (level + 1) "Receiver" :: paramList (level + 2) receiver
      ++ signature (level + 1) sig ++ optionalBlock (level + 1) body

def declList (level : Nat) : List (Node DeclForm) → List OutlineItem
  | [] => []
  | d :: ds => decl level d ++ declList level ds

def block (level : Nat) : Block → List OutlineItem
  | ⟨stmts, _⟩ => .line level "Block" :: stmtList (level + 1) stmts

def optionalBlock (level : Nat) : Option Block → List OutlineItem
  | none => []
  | some b => block level b

def stmt (level : Nat) : Node StmtForm → List OutlineItem
  | ⟨id, span, form⟩ => .visit (.stmt ⟨id, span, form⟩) :: stmtForm level form

def stmtForm (level : Nat) : StmtForm → List OutlineItem
  | .empty => [.line level "Empty"]
  | .decl decls => .line level "DeclStmt" :: declList (level + 1) decls
  | .expr x => .line level "ExprStmt" :: expr (level + 1) x
  | .assign left op _ right =>
    .line level ("Assign " ++ op.spelling) :: exprList (level + 1) left
      ++ exprList (level + 1) right
  | .shortVar ids _ values =>
    .line level ("ShortVarDecl " ++ names ids) :: exprList (level + 1) values
  | .range left define x =>
    .line level ("Range" ++ rangeSuffix left define) :: exprList (level + 1) left
      ++ expr (level + 1) x
  | .send chan value => .line level "Send" :: expr (level + 1) chan ++ expr (level + 1) value
  | .step x op => .line level ("IncDec " ++ op.spelling) :: expr (level + 1) x
  | .labeled label s => .line level ("Labeled " ++ label.name) :: stmt (level + 1) s
  | .block b => block level b
  | .ifStmt init cond body otherwise =>
    .line level "If" :: labeled (level + 1) "Init" (optionalStmt (level + 2) init)
      ++ labeled (level + 1) "Cond" (some (expr (level + 2) cond))
      ++ block (level + 1) body
      ++ labeled (level + 1) "Else" (optionalStmt (level + 2) otherwise)
  | .forStmt header body =>
    .line level "For" :: forHeader (level + 1) header ++ block (level + 1) body
  | .goStmt call => .line level "Go" :: expr (level + 1) call
  | .deferStmt call => .line level "Defer" :: expr (level + 1) call
  | .returnStmt results => .line level "Return" :: exprList (level + 1) results
  | .breakStmt label => [jump level "Break" label]
  | .continueStmt label => [jump level "Continue" label]
  | .gotoStmt label => [jump level "Goto" (some label)]
  | .fallthroughStmt => [.line level "Fallthrough"]

def optionalStmt (level : Nat) : Option (Node StmtForm) → Option (List OutlineItem)
  | none => none
  | some s => some (stmt level s)

def stmtList (level : Nat) : List (Node StmtForm) → List OutlineItem
  | [] => []
  | s :: ss => stmt level s ++ stmtList level ss

def forHeader (level : Nat) : ForHeader → List OutlineItem
  | .infinite => []
  | .cond cond => labeled level "Cond" (some (expr (level + 1) cond))
  | .clause init cond post =>
    labeled level "Init" (optionalStmt (level + 1) init)
      ++ labeled level "Cond" (optionalExpr (level + 1) cond)
      ++ labeled level "Post" (optionalStmt (level + 1) post)
  | .range s => stmt level s

end

def file (level : Nat) (f : File) : List OutlineItem :=
  .line level ("File " ++ f.name.name) :: declList (level + 1) f.imports
    ++ declList (level + 1) f.decls

-- =============================================================== render

/-- The nodes an outline shows, in order. -/
def visits (items : List OutlineItem) : List Visit :=
  items.filterMap fun
    | .visit v => some v
    | .line _ _ => none

/-- The text of an item: its line with its indentation, which is two
spaces for each level. -/
def itemText : OutlineItem → String
  | .visit _ => ""
  | .line level text => .ofList (List.replicate (2 * level) ' ') ++ text ++ "\n"

/-- The text of an outline. -/
def render (items : List OutlineItem) : String :=
  String.join (items.map itemText)

end Outline

end GoSource
