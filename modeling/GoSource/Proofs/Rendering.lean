/-
Trees written out as tokens again.

A rendering is a list of slots, one for each token. A slot says what the
token has to be and leaves open what the tree does not know: where the
token stands, and how a literal is spelled, as long as it has the value.

# Parentheses

The rendering does not depend on precedence, or on what a token might be
attached to. Every expression and every type within another is put in
parentheses, which leave no trace when they are read. Four things are
written without, because there the grammar has no parentheses: a literal
whose type is left out, the type of a composite literal, embedded types,
and names that are read as expressions first (labels, and what stands
before `:=`). The single result of a function is written without them
because with them it is a list.

# Declarations

Each spec is a declaration in the tree. Written out they stand in groups:
the constants of a group are those from one with position zero up to the
next such, and other specs are groups of their own. Semicolons end
everything that may be ended by one.
-/
import GoSource.Parse

namespace GoSource

-- ================================================================ slots

/-- What a token of a rendering has to be. -/
inductive Slot where
  | kind (k : Token.Kind)
  | name (text : String)
  | literal (value : Literal)
  /-- A string that denotes a text. -/
  | path (text : String)

/-- A token of a kind, or one that is written as some name, value or
path is. -/
def Slot.Fits (t : Token) : Slot → Prop
  | kind k => t.kind = k
  | name text => t.kind = .ident ∧ t.text = text
  | literal value => Literal.decode t.kind t.text = some value
  | path text => ∃ bytes, Literal.decode t.kind t.text = some (.string bytes) ∧
      Text.lossyText bytes = text

/-- A token that may stand in the slot. The end of the input never
may. -/
def Slot.Accepts (slot : Slot) (t : Token) : Prop :=
  t.kind ≠ .eof ∧ slot.Fits t

-- ============================================================ operators

def UnaryOp.kind : UnaryOp → Token.Kind
  | plus => .plus
  | negate => .minus
  | not => .bang
  | complement => .caret
  | deref => .star
  | address => .amp
  | receive => .arrow

def BinaryOp.kind : BinaryOp → Token.Kind
  | add => .plus
  | sub => .minus
  | mul => .star
  | div => .slash
  | mod => .percent
  | and => .amp
  | or => .pipe
  | xor => .caret
  | shl => .shl
  | shr => .shr
  | andNot => .andNot
  | logicalAnd => .logicalAnd
  | logicalOr => .logicalOr
  | equal => .equal
  | notEqual => .notEqual
  | less => .less
  | lessEqual => .lessEqual
  | greater => .greater
  | greaterEqual => .greaterEqual

def AssignOp.kind : AssignOp → Token.Kind
  | assign => .assign
  | add => .addAssign
  | sub => .subAssign
  | mul => .mulAssign
  | div => .divAssign
  | mod => .modAssign
  | and => .andAssign
  | or => .orAssign
  | xor => .xorAssign
  | shl => .shlAssign
  | shr => .shrAssign
  | andNot => .andNotAssign

def StepOp.kind : StepOp → Token.Kind
  | increment => .increment
  | decrement => .decrement

theorem UnaryOp.ofKind_kind (op : UnaryOp) : UnaryOp.ofKind op.kind = some op := by
  cases op <;> rfl

theorem BinaryOp.ofKind_kind (op : BinaryOp) : BinaryOp.ofKind op.kind = some op := by
  cases op <;> rfl

namespace Render

-- ============================================================ sequences

def parens (ss : List Slot) : List Slot :=
  .kind .lParen :: (ss ++ [.kind .rParen])

def braces (ss : List Slot) : List Slot :=
  .kind .lBrace :: (ss ++ [.kind .rBrace])

/-- Items with commas between them. -/
def commas : List (List Slot) → List Slot
  | [] => []
  | ss :: rest => ss ++ rest.flatMap (.kind .comma :: ·)

@[simp] theorem commas_singleton (ss : List Slot) : commas [ss] = ss := List.append_nil ss

theorem commas_cons_cons (ss us : List Slot) (rest : List (List Slot)) :
    commas (ss :: us :: rest) = ss ++ .kind .comma :: commas (us :: rest) := rfl

/-- Items with a separator after each. -/
def ended (sep : Token.Kind) (items : List (List Slot)) : List Slot :=
  items.flatMap (· ++ [.kind sep])

def names (ns : List Ident) : List Slot :=
  commas (ns.map fun n => [.name n.name])

def dots : Option Span → List Slot
  | none => []
  | some _ => [.kind .ellipsis]

-- ================================================ expressions and types

/-- A literal that leaves its type out. -/
def isElided : ExprForm → Bool
  | .composite none _ _ _ => true
  | _ => false

mutual

def expr : Node ExprForm → List Slot
  | ⟨_, _, form⟩ => exprForm form

def exprForm : ExprForm → List Slot
  | .ident n => [.name n.name]
  | .literal lit => [.literal lit.form]
  | .composite t elements _ _ =>
    optionalType t ++ braces (ended .comma (elementList elements))
  | .index x _ i _ => parens (expr x) ++ .kind .lBrack :: (parens (expr i) ++ [.kind .rBrack])
  | .slice x _ low high top _ =>
    parens (expr x) ++ .kind .lBrack ::
      (bound low ++ .kind .colon :: (bound high ++ (lastBound top ++ [.kind .rBrack])))
  | .typeAssert x t _ =>
    parens (expr x) ++ .kind .dot :: .kind .lParen :: (asserted t ++ [.kind .rParen])
  | .selector x n => parens (expr x) ++ [.kind .dot, .name n.name]
  | .call f _ args ds _ =>
    parens (expr f) ++ .kind .lParen :: (commas (exprList args) ++ (dots ds ++ [.kind .rParen]))
  | .binary op _ left right => parens (expr left) ++ .kind op.kind :: parens (expr right)
  | .unary op _ x => .kind op.kind :: parens (expr x)
  | .type t => typeExpr t

/-- Expressions in parentheses. -/
def exprList : List (Node ExprForm) → List (List Slot)
  | [] => []
  | x :: xs => parens (expr x) :: exprList xs

def bound : Option (Node ExprForm) → List Slot
  | none => []
  | some x => parens (expr x)

def lastBound : Option (Node ExprForm) → List Slot
  | none => []
  | some x => .kind .colon :: parens (expr x)

/-- The key or the value of an element. -/
def part : Node ExprForm → List Slot
  | ⟨_, _, form⟩ => if isElided form then exprForm form else parens (exprForm form)

def element : Element → List Slot
  | ⟨none, value⟩ => part value
  | ⟨some key, value⟩ => part key ++ .kind .colon :: part value

def elementList : List Element → List (List Slot)
  | [] => []
  | e :: es => element e :: elementList es

def typeExpr : Node TypeForm → List Slot
  | ⟨_, _, form⟩ => typeForm form

def typeForm : TypeForm → List Slot
  | .name none n => [.name n.name]
  | .name (some pkg) n => [.name pkg.name, .kind .dot, .name n.name]
  | .array len t => .kind .lBrack :: (arrayLength len ++ .kind .rBrack :: parens (typeExpr t))
  | .slice t => .kind .lBrack :: .kind .rBrack :: parens (typeExpr t)
  | .pointer t => .kind .star :: parens (typeExpr t)
  | .map key t =>
    .kind .kwMap :: .kind .lBrack :: (parens (typeExpr key) ++ .kind .rBrack :: parens (typeExpr t))
  | .chan .both t => .kind .kwChan :: parens (typeExpr t)
  | .chan .send t => .kind .kwChan :: .kind .arrow :: parens (typeExpr t)
  | .chan .receive t => .kind .arrow :: .kind .kwChan :: parens (typeExpr t)
  | .func sig => .kind .kwFunc :: signature sig
  | .struct fields => .kind .kwStruct :: braces (ended .semi (fieldList fields))
  | .interface elements => .kind .kwInterface :: braces (ended .semi (interfaceElements elements))

def optionalType : Option (Node TypeForm) → List Slot
  | none => []
  | some t => typeExpr t

/-- The type of an assertion, or the word for it. -/
def asserted : Option (Node TypeForm) → List Slot
  | none => [.kind .kwType]
  | some t => parens (typeExpr t)

def arrayLength : ArrayLength → List Slot
  | .expr x => parens (expr x)
  | .dots _ => [.kind .ellipsis]

/-- An embedded type is a name, or a star and a name. -/
def embedded : Node TypeForm → List Slot
  | ⟨_, _, .pointer t⟩ => .kind .star :: typeExpr t
  | ⟨_, _, form⟩ => typeForm form

def field : Node FieldForm → List Slot
  | ⟨_, _, ⟨ns, t, tag⟩⟩ =>
    (if ns.isEmpty then embedded t else names ns ++ parens (typeExpr t)) ++
      tag.toList.map (.literal ·.form)

def fieldList : List (Node FieldForm) → List (List Slot)
  | [] => []
  | f :: fs => field f :: fieldList fs

def param : Node ParamForm → List Slot
  | ⟨_, _, ⟨ns, ds, t⟩⟩ => names ns ++ (dots ds ++ parens (typeExpr t))

def paramNodes : List (Node ParamForm) → List (List Slot)
  | [] => []
  | p :: ps => param p :: paramNodes ps

def paramList : ParamList → List Slot
  | ⟨params, _⟩ => parens (commas (paramNodes params))

def signature : Signature → List Slot
  | ⟨params, result, _⟩ => paramList params ++ optionalResult result

def optionalResult : Option FuncResult → List Slot
  | none => []
  | some r => funcResult r

def funcResult : FuncResult → List Slot
  | .params list => paramList list
  | .type t => typeExpr t

def interfaceElement : InterfaceElement → List Slot
  | .method n sig => .name n.name :: signature sig
  | .embedded t => typeExpr t

def interfaceElements : List InterfaceElement → List (List Slot)
  | [] => []
  | e :: es => interfaceElement e :: interfaceElements es

end

theorem exprList_eq (xs : List Expr) : exprList xs = xs.map fun x => parens (expr x) := by
  induction xs with
  | nil => rfl
  | cons x xs ih => rw [exprList, ih, List.map_cons]

theorem elementList_eq (es : List Element) : elementList es = es.map element := by
  induction es with
  | nil => rfl
  | cons e es ih => rw [elementList, ih, List.map_cons]

theorem fieldList_eq (fs : List Field) : fieldList fs = fs.map field := by
  induction fs with
  | nil => rfl
  | cons f fs ih => rw [fieldList, ih, List.map_cons]

theorem paramNodes_eq (ps : List Param) : paramNodes ps = ps.map param := by
  induction ps with
  | nil => rfl
  | cons p ps ih => rw [paramNodes, ih, List.map_cons]

theorem interfaceElements_eq (es : List InterfaceElement) :
    interfaceElements es = es.map interfaceElement := by
  induction es with
  | nil => rfl
  | cons e es ih => rw [interfaceElements, ih, List.map_cons]

/-- Expressions in parentheses, with commas between them. -/
def exprs (xs : List Expr) : List Slot :=
  commas (exprList xs)

-- ================================================================ specs

/-- The values after an `=`, if there are any. -/
def values : List Expr → List Slot
  | [] => []
  | x :: xs => .kind .assign :: exprs (x :: xs)

def optionalParens (t : Option TypeExpr) : List Slot :=
  t.toList.flatMap fun t => parens (typeExpr t)

/-- A declaration as it stands in a group. -/
def spec : DeclForm → List Slot
  | .const s => names s.names ++ (optionalParens s.type ++ values s.values)
  | .var s => names s.names ++ (optionalParens s.type ++ values s.values)
  | .type s =>
    .name s.name.name :: (s.assign.toList.map (fun _ => .kind .assign) ++ parens (typeExpr s.type))
  | _ => []

/-- The keyword of the group that a declaration belongs to. Any will do
for a group of none. -/
def keyword : List Decl → Token.Kind
  | ⟨_, _, .const _⟩ :: _ => .kwConst
  | ⟨_, _, .type _⟩ :: _ => .kwType
  | _ => .kwVar

def group (ds : List Decl) : List Slot :=
  .kind (keyword ds) :: parens (ended .semi (ds.map (spec ·.form)))

def importSpec (s : ImportSpec) : List Slot :=
  match s.name with
  | none => [.path s.path]
  | some (.dot _) => [.kind .dot, .path s.path]
  | some (.name n) => [.name n.name, .path s.path]

-- =========================================================== statements

mutual

def block : Block → List Slot
  | ⟨stmts, _⟩ => braces (ended .semi (stmtList stmts))

def stmt : Node StmtForm → List Slot
  | ⟨_, _, form⟩ => stmtForm form

def stmtForm : StmtForm → List Slot
  | .empty => []
  | .decl ds => group ds
  | .expr x => parens (expr x)
  | .assign left op _ right => exprs left ++ .kind op.kind :: exprs right
  | .shortVar ns _ xs => names ns ++ .kind .define :: exprs xs
  | .range [] _ x => .kind .kwRange :: parens (expr x)
  | .range left true x =>
    commas (left.map expr) ++ .kind .define :: .kind .kwRange :: parens (expr x)
  | .range left false x => exprs left ++ .kind .assign :: .kind .kwRange :: parens (expr x)
  | .send chan x => parens (expr chan) ++ .kind .arrow :: parens (expr x)
  | .step x op => parens (expr x) ++ [.kind op.kind]
  | .labeled n s => .name n.name :: .kind .colon :: stmt s
  | .block b => block b
  | .ifStmt init cond body other =>
    .kind .kwIf :: (header init ++ (parens (expr cond) ++ (block body ++ otherwise other)))
  | .forStmt h body => .kind .kwFor :: (forHeader h ++ block body)
  | .goStmt x => .kind .kwGo :: parens (expr x)
  | .deferStmt x => .kind .kwDefer :: parens (expr x)
  | .returnStmt xs => .kind .kwReturn :: exprs xs
  | .breakStmt label => .kind .kwBreak :: label.toList.map (.name ·.name)
  | .continueStmt label => .kind .kwContinue :: label.toList.map (.name ·.name)
  | .gotoStmt label => [.kind .kwGoto, .name label.name]
  | .fallthroughStmt => [.kind .kwFallthrough]

/-- The statement before a condition. -/
def header : Option (Node StmtForm) → List Slot
  | none => []
  | some s => stmt s ++ [.kind .semi]

def otherwise : Option (Node StmtForm) → List Slot
  | none => []
  | some s => .kind .kwElse :: stmt s

def optionalStmt : Option (Node StmtForm) → List Slot
  | none => []
  | some s => stmt s

def stmtList : List (Node StmtForm) → List (List Slot)
  | [] => []
  | s :: ss => stmt s :: stmtList ss

def forHeader : ForHeader → List Slot
  | .infinite => []
  | .cond x => parens (expr x)
  | .clause init cond post =>
    optionalStmt init ++ .kind .semi :: (bound cond ++ .kind .semi :: optionalStmt post)
  | .range s => stmt s

end

theorem stmtList_eq (ss : List Stmt) : stmtList ss = ss.map stmt := by
  induction ss with
  | nil => rfl
  | cons s ss ih => rw [stmtList, ih, List.map_cons]

-- ================================================================ files

def optionalBlock (b : Option Block) : List Slot :=
  b.toList.flatMap block

/-- What stands at top level between two semicolons: an import, a
function, or a group. -/
def topLevel : List Decl → List Slot
  | [⟨_, _, .imports d⟩] => .kind .kwImport :: parens (ended .semi (d.specs.map importSpec))
  | [⟨_, _, .func d⟩] =>
    .kind .kwFunc :: .name d.name.name :: (signature d.signature ++ optionalBlock d.body)
  | [⟨_, _, .method d⟩] =>
    .kind .kwFunc :: (paramList d.receiver ++
      .name d.name.name :: (signature d.signature ++ optionalBlock d.body))
  | ds => group ds

/-- Whether a declaration belongs to the group of the one before it. -/
def continuesGroup (d : Decl) : Bool :=
  match d.form with
  | .const s => s.iota ≠ 0
  | _ => false

/-- Declarations in the groups in which they are written. -/
def groups (ds : List Decl) : List (List Decl) :=
  ds.splitBy fun _ d => continuesGroup d

def decls (ds : List Decl) : List Slot :=
  ended .semi ((groups ds).map topLevel)

def file (f : File) : List Slot :=
  .kind .kwPackage :: .name f.name.name :: .kind .semi :: (decls f.imports ++ decls f.decls)

end Render

/-- A whole tree, written out. -/
def Root.render : Root → List Slot
  | expr x => Render.expr x
  | decls ds => Render.decls ds
  | file f => Render.file f
  | stmts ss => Render.ended .semi (Render.stmtList ss)
  | stmt s => Render.stmt s

end GoSource
