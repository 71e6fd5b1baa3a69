/-
The same tree with other numbers.

What an arena holds before a parse shifts the numbers of the nodes that
the parse adds, those of each kind by as many as there were of it.
`Renumber` is this shift on everything that contains nodes; nothing else
of a tree is changed. A walk stops at the same nodes, renumbered, and an
outline has the same lines, because neither shows a number.
-/
import GoSource.Proofs.Arena.Entry
import GoSource.Proofs.Contents.Placement
import GoSource.Syntax.Outline

namespace GoSource

namespace Renumber

variable (δ : NodeKind → Nat)

def lit (l : Lit) : Lit := ⟨l.id + δ .literal, l.span, l.form⟩

-- ================================================ expressions and types

mutual

def expr : Node ExprForm → Node ExprForm
  | ⟨i, sp, form⟩ => ⟨i + δ .expr, sp, exprForm form⟩

def exprForm : ExprForm → ExprForm
  | .ident n => .ident n
  | .literal l => .literal (lit δ l)
  | .composite t elements lBrace rBrace =>
    .composite (optionalType t) (elementList elements) lBrace rBrace
  | .index x lBrack i rBrack => .index (expr x) lBrack (expr i) rBrack
  | .slice x lBrack low high top rBrack =>
    .slice (expr x) lBrack (optionalExpr low) (optionalExpr high) (optionalExpr top) rBrack
  | .typeAssert x t rParen => .typeAssert (expr x) (optionalType t) rParen
  | .selector x n => .selector (expr x) n
  | .call f lParen args dots rParen => .call (expr f) lParen (exprList args) dots rParen
  | .binary op opSpan left right => .binary op opSpan (expr left) (expr right)
  | .unary op opSpan x => .unary op opSpan (expr x)
  | .type t => .type (typeExpr t)

def exprList : List (Node ExprForm) → List (Node ExprForm)
  | [] => []
  | x :: xs => expr x :: exprList xs

def optionalExpr : Option (Node ExprForm) → Option (Node ExprForm)
  | none => none
  | some x => some (expr x)

def element : Element → Element
  | ⟨key, value⟩ => ⟨optionalExpr key, expr value⟩

def elementList : List Element → List Element
  | [] => []
  | e :: es => element e :: elementList es

def typeExpr : Node TypeForm → Node TypeForm
  | ⟨i, sp, form⟩ => ⟨i + δ .type, sp, typeForm form⟩

def typeForm : TypeForm → TypeForm
  | .name pkg n => .name pkg n
  | .array len t => .array (arrayLength len) (typeExpr t)
  | .slice t => .slice (typeExpr t)
  | .pointer t => .pointer (typeExpr t)
  | .map key t => .map (typeExpr key) (typeExpr t)
  | .chan dir t => .chan dir (typeExpr t)
  | .func sig => .func (signature sig)
  | .struct fields => .struct (fieldList fields)
  | .interface elements => .interface (interfaceElements elements)

def optionalType : Option (Node TypeForm) → Option (Node TypeForm)
  | none => none
  | some t => some (typeExpr t)

def arrayLength : ArrayLength → ArrayLength
  | .expr x => .expr (expr x)
  | .dots sp => .dots sp

def field : Node FieldForm → Node FieldForm
  | ⟨i, sp, form⟩ => ⟨i + δ .field, sp, fieldForm form⟩

def fieldForm : FieldForm → FieldForm
  | ⟨names, t, tag⟩ => ⟨names, typeExpr t, tag.map (lit δ)⟩

def fieldList : List (Node FieldForm) → List (Node FieldForm)
  | [] => []
  | f :: fs => field f :: fieldList fs

def param : Node ParamForm → Node ParamForm
  | ⟨i, sp, form⟩ => ⟨i + δ .param, sp, paramForm form⟩

def paramForm : ParamForm → ParamForm
  | ⟨names, dots, t⟩ => ⟨names, dots, typeExpr t⟩

def paramNodes : List (Node ParamForm) → List (Node ParamForm)
  | [] => []
  | p :: ps => param p :: paramNodes ps

def paramList : ParamList → ParamList
  | ⟨params, sp⟩ => ⟨paramNodes params, sp⟩

def signature : Signature → Signature
  | ⟨params, result, sp⟩ => ⟨paramList params, optionalResult result, sp⟩

def optionalResult : Option FuncResult → Option FuncResult
  | none => none
  | some r => some (funcResult r)

def funcResult : FuncResult → FuncResult
  | .params list => .params (paramList list)
  | .type t => .type (typeExpr t)

def interfaceElement : InterfaceElement → InterfaceElement
  | .method n sig => .method n (signature sig)
  | .embedded t => .embedded (typeExpr t)

def interfaceElements : List InterfaceElement → List InterfaceElement
  | [] => []
  | e :: es => interfaceElement e :: interfaceElements es

end

-- ========================================== declarations and statements

def constSpec (c : ConstSpec) : ConstSpec :=
  { c with type := c.type.map (typeExpr δ), values := c.values.map (expr δ) }

def varSpec (v : VarSpec) : VarSpec :=
  { v with type := v.type.map (typeExpr δ), values := v.values.map (expr δ) }

def typeSpec (t : TypeSpec) : TypeSpec := { t with type := typeExpr δ t.type }

mutual

def decl : Node DeclForm → Node DeclForm
  | ⟨i, sp, form⟩ => ⟨i + δ .decl, sp, declForm form⟩

def declForm : DeclForm → DeclForm
  | .imports d => .imports d
  | .const c => .const (constSpec δ c)
  | .var v => .var (varSpec δ v)
  | .type t => .type (typeSpec δ t)
  | .func d => .func (functionDecl d)
  | .method d => .method (methodDecl d)

def functionDecl : FunctionDecl → FunctionDecl
  | ⟨doc, funcSpan, n, sig, body⟩ => ⟨doc, funcSpan, n, signature δ sig, optionalBlock body⟩

def methodDecl : MethodDecl → MethodDecl
  | ⟨doc, funcSpan, receiver, n, sig, body⟩ =>
    ⟨doc, funcSpan, paramList δ receiver, n, signature δ sig, optionalBlock body⟩

def declList : List (Node DeclForm) → List (Node DeclForm)
  | [] => []
  | d :: ds => decl d :: declList ds

def block : Block → Block
  | ⟨stmts, sp⟩ => ⟨stmtList stmts, sp⟩

def optionalBlock : Option Block → Option Block
  | none => none
  | some b => some (block b)

def stmt : Node StmtForm → Node StmtForm
  | ⟨i, sp, form⟩ => ⟨i + δ .stmt, sp, stmtForm form⟩

def stmtForm : StmtForm → StmtForm
  | .empty => .empty
  | .decl ds => .decl (declList ds)
  | .expr x => .expr (expr δ x)
  | .assign left op opSpan right => .assign (left.map (expr δ)) op opSpan (right.map (expr δ))
  | .shortVar names opSpan values => .shortVar names opSpan (values.map (expr δ))
  | .range left define x => .range (left.map (expr δ)) define (expr δ x)
  | .send chan x => .send (expr δ chan) (expr δ x)
  | .step x op => .step (expr δ x) op
  | .labeled label s => .labeled label (stmt s)
  | .block b => .block (block b)
  | .ifStmt init cond body other =>
    .ifStmt (optionalStmt init) (expr δ cond) (block body) (optionalStmt other)
  | .forStmt header body => .forStmt (forHeader header) (block body)
  | .goStmt x => .goStmt (expr δ x)
  | .deferStmt x => .deferStmt (expr δ x)
  | .returnStmt xs => .returnStmt (xs.map (expr δ))
  | .breakStmt label => .breakStmt label
  | .continueStmt label => .continueStmt label
  | .gotoStmt label => .gotoStmt label
  | .fallthroughStmt => .fallthroughStmt

def optionalStmt : Option (Node StmtForm) → Option (Node StmtForm)
  | none => none
  | some s => some (stmt s)

def stmtList : List (Node StmtForm) → List (Node StmtForm)
  | [] => []
  | s :: ss => stmt s :: stmtList ss

def forHeader : ForHeader → ForHeader
  | .infinite => .infinite
  | .cond x => .cond (expr δ x)
  | .clause init cond post =>
    .clause (optionalStmt init) (cond.map (expr δ)) (optionalStmt post)
  | .range s => .range (stmt s)

end

def file (f : File) : File :=
  { f with imports := f.imports.map (decl δ), decls := f.decls.map (decl δ) }

def draft (d : Draft) : Draft := ⟨stmtForm δ d.form, d.span⟩

def root : Root → Root
  | .expr x => .expr (expr δ x)
  | .decls ds => .decls (ds.map (decl δ))
  | .file f => .file (file δ f)
  | .stmts ss => .stmts (ss.map (stmt δ))
  | .stmt s => .stmt (stmt δ s)

def visit : Visit → Visit
  | .file f => .file (file δ f)
  | .decl d => .decl (decl δ d)
  | .stmt s => .stmt (stmt δ s)
  | .expr x => .expr (expr δ x)
  | .type t => .type (typeExpr δ t)
  | .field f => .field (field δ f)
  | .param p => .param (param δ p)
  | .literal l => .literal (lit δ l)

def part : Part → Part
  | .node v => .node (visit δ v)
  | p => p

-- ====================================================== lists and options

@[simp] theorem exprList_eq (xs : List Expr) : exprList δ xs = xs.map (expr δ) := by
  induction xs with
  | nil => rfl
  | cons x xs ih => rw [exprList, ih, List.map_cons]

@[simp] theorem elementList_eq (es : List Element) : elementList δ es = es.map (element δ) := by
  induction es with
  | nil => rfl
  | cons e es ih => rw [elementList, ih, List.map_cons]

@[simp] theorem fieldList_eq (fs : List Field) : fieldList δ fs = fs.map (field δ) := by
  induction fs with
  | nil => rfl
  | cons f fs ih => rw [fieldList, ih, List.map_cons]

@[simp] theorem paramNodes_eq (ps : List Param) : paramNodes δ ps = ps.map (param δ) := by
  induction ps with
  | nil => rfl
  | cons p ps ih => rw [paramNodes, ih, List.map_cons]

@[simp] theorem interfaceElements_eq (es : List InterfaceElement) :
    interfaceElements δ es = es.map (interfaceElement δ) := by
  induction es with
  | nil => rfl
  | cons e es ih => rw [interfaceElements, ih, List.map_cons]

@[simp] theorem declList_eq (ds : List Decl) : declList δ ds = ds.map (decl δ) := by
  induction ds with
  | nil => rfl
  | cons d ds ih => rw [declList, ih, List.map_cons]

@[simp] theorem stmtList_eq (ss : List Stmt) : stmtList δ ss = ss.map (stmt δ) := by
  induction ss with
  | nil => rfl
  | cons s ss ih => rw [stmtList, ih, List.map_cons]

@[simp] theorem optionalExpr_eq (x : Option Expr) : optionalExpr δ x = x.map (expr δ) := by
  cases x <;> rfl

@[simp] theorem optionalType_eq (t : Option TypeExpr) : optionalType δ t = t.map (typeExpr δ) := by
  cases t <;> rfl

@[simp] theorem optionalResult_eq (r : Option FuncResult) :
    optionalResult δ r = r.map (funcResult δ) := by
  cases r <;> rfl

@[simp] theorem optionalBlock_eq (b : Option Block) : optionalBlock δ b = b.map (block δ) := by
  cases b <;> rfl

@[simp] theorem optionalStmt_eq (s : Option Stmt) : optionalStmt δ s = s.map (stmt δ) := by
  cases s <;> rfl

-- ================================================================ spans

@[simp] theorem span_expr (x : Expr) : (expr δ x).span = x.span := by cases x; rfl

@[simp] theorem span_type (t : TypeExpr) : (typeExpr δ t).span = t.span := by cases t; rfl

@[simp] theorem span_stmt (s : Stmt) : (stmt δ s).span = s.span := by cases s; rfl

@[simp] theorem span_decl (d : Decl) : (decl δ d).span = d.span := by cases d; rfl

@[simp] theorem span_paramList (ps : ParamList) : (paramList δ ps).span = ps.span := by
  cases ps
  rfl

@[simp] theorem span_signature (sig : Signature) : (signature δ sig).span = sig.span := by
  cases sig
  rfl

@[simp] theorem span_block (b : Block) : (block δ b).span = b.span := by
  cases b
  rfl

@[simp] theorem span_visit (v : Visit) : (visit δ v).span = v.span := by
  cases v with
  | field f => obtain ⟨i, sp, names, t, tag⟩ := f; rfl
  | param p => obtain ⟨i, sp, names, dots, t⟩ := p; rfl
  | _ => simp [visit, Visit.span, file, lit]

-- ======================================================== declarations

@[simp] theorem names_declForm (form : DeclForm) : (declForm δ form).names = form.names := by
  cases form with
  | func d =>
    cases d
    rfl
  | method d =>
    cases d
    rfl
  | _ => rfl

@[simp] theorem doc_declForm (form : DeclForm) : (declForm δ form).doc = form.doc := by
  cases form with
  | func d =>
    cases d
    rfl
  | method d =>
    cases d
    rfl
  | _ => rfl

-- ================================================================ parts

@[simp] theorem part_expr (x : Expr) : part δ (.expr x) = .expr (expr δ x) := rfl

@[simp] theorem part_type (t : TypeExpr) : part δ (.type t) = .type (typeExpr δ t) := rfl

@[simp] theorem part_stmt (s : Stmt) : part δ (.stmt s) = .stmt (stmt δ s) := rfl

@[simp] theorem part_decl (d : Decl) : part δ (.decl d) = .decl (decl δ d) := rfl

@[simp] theorem part_field (f : Field) : part δ (.field f) = .field (field δ f) := rfl

@[simp] theorem part_param (p : Param) : part δ (.param p) = .param (param δ p) := rfl

@[simp] theorem part_literal (l : Lit) : part δ (.literal l) = .literal (lit δ l) := rfl

@[simp] theorem part_name (n : Ident) : part δ (.name n) = .name n := rfl

@[simp] theorem part_path (text : String) (sp : Span) :
    part δ (.path text sp) = .path text sp := rfl

@[simp] theorem part_mark (sp : Span) : part δ (.mark sp) = .mark sp := rfl

theorem parts_element (e : Element) : (element δ e).parts = e.parts.map (part δ) := by
  obtain ⟨key, value⟩ := e
  cases key <;> rfl

theorem parts_paramList (ps : ParamList) : (paramList δ ps).parts = ps.parts.map (part δ) := by
  obtain ⟨ps, sp⟩ := ps
  simp [paramList, ParamList.parts]

theorem parts_funcResult (r : FuncResult) : (funcResult δ r).parts = r.parts.map (part δ) := by
  cases r with
  | params list => exact parts_paramList δ list
  | type t => rfl

theorem parts_signature (sig : Signature) :
    (signature δ sig).parts = sig.parts.map (part δ) := by
  obtain ⟨ps, result, sp⟩ := sig
  cases result <;> simp [signature, Signature.parts, parts_paramList, parts_funcResult]

theorem parts_interfaceElement (e : InterfaceElement) :
    (interfaceElement δ e).parts = e.parts.map (part δ) := by
  cases e <;> simp [interfaceElement, InterfaceElement.parts, parts_signature]

theorem parts_block (b : Block) : (block δ b).parts = b.parts.map (part δ) := by
  obtain ⟨ss, sp⟩ := b
  simp [block, Block.parts]

theorem parts_forHeader (h : ForHeader) : (forHeader δ h).parts = h.parts.map (part δ) := by
  cases h with
  | clause init test post => cases init <;> cases test <;> cases post <;> rfl
  | _ => rfl

/-- No node stands in an import. -/
theorem parts_importSpec (spec : ImportSpec) : spec.parts.map (part δ) = spec.parts := by
  obtain ⟨n, path, sp⟩ := spec
  cases n with
  | none => rfl
  | some n => cases n <;> rfl

section

attribute [local simp] parts_element parts_paramList parts_signature parts_interfaceElement
  parts_block parts_forHeader constSpec varSpec typeSpec List.flatMap_map List.map_flatMap
  Option.toList_map Function.comp_def

theorem parts_exprForm (form : ExprForm) : (exprForm δ form).parts = form.parts.map (part δ) := by
  cases form <;> simp [exprForm, ExprForm.parts]

theorem parts_typeForm (form : TypeForm) : (typeForm δ form).parts = form.parts.map (part δ) := by
  cases form with
  | array len t => cases len <;> simp [typeForm, arrayLength, TypeForm.parts, ArrayLength.parts]
  | _ => simp [typeForm, TypeForm.parts]

theorem parts_declForm (form : DeclForm) : (declForm δ form).parts = form.parts.map (part δ) := by
  cases form with
  | imports d => simp [declForm, DeclForm.parts, parts_importSpec]
  | func d =>
    obtain ⟨doc, sp, n, sig, body⟩ := d
    simp [declForm, functionDecl, DeclForm.parts]
  | method d =>
    obtain ⟨doc, sp, receiver, n, sig, body⟩ := d
    simp [declForm, methodDecl, DeclForm.parts]
  | _ => simp [declForm, DeclForm.parts]

theorem parts_stmtForm (form : StmtForm) : (stmtForm δ form).parts = form.parts.map (part δ) := by
  cases form <;> simp [stmtForm, StmtForm.parts]

/-- What stands in a node stands in the renumbered node, renumbered. -/
theorem parts_visit (v : Visit) : (visit δ v).parts = v.parts.map (part δ) := by
  cases v with
  | file f => simp [visit, file, Visit.parts, File.parts]
  | decl d =>
    obtain ⟨i, sp, form⟩ := d
    exact parts_declForm δ form
  | stmt s =>
    obtain ⟨i, sp, form⟩ := s
    exact parts_stmtForm δ form
  | expr x =>
    obtain ⟨i, sp, form⟩ := x
    exact parts_exprForm δ form
  | type t =>
    obtain ⟨i, sp, form⟩ := t
    exact parts_typeForm δ form
  | field f =>
    obtain ⟨i, sp, names, t, tag⟩ := f
    simp [visit, field, fieldForm, Visit.parts, FieldForm.parts]
  | param p =>
    obtain ⟨i, sp, names, dots, t⟩ := p
    simp [visit, param, paramForm, Visit.parts, ParamForm.parts]
  | literal l => rfl

end

theorem children_visit (v : Visit) : (visit δ v).children = v.children.map (visit δ) := by
  rw [Visit.children, parts_visit, Visit.children, List.filterMap_map, List.map_filterMap]
  refine List.filterMap_congr fun p _ => ?_
  cases p <;> rfl

/-- A step of a walk. -/
def step (s : Step) : Step := ⟨s.depth, visit δ s.visit⟩

/-- A walk goes the same way. -/
theorem walk_visit (v : Visit) (depth : Nat) :
    (visit δ v).walk depth = (v.walk depth).map (step δ) := by
  induction v using Visit.from_children generalizing depth with
  | step v ih =>
    rw [Visit.walk_eq, Visit.walk_eq, children_visit, List.map_cons, List.map_flatMap,
      List.flatMap_map]
    rw [List.flatMap_congr fun c hc => ih c hc (depth + 1)]
    rfl

-- ============================================================= outlines

/-- An item of an outline. -/
def item : OutlineItem → OutlineItem
  | .visit v => .visit (visit δ v)
  | .line level text => .line level text

@[simp] theorem item_visit (v : Visit) : item δ (.visit v) = .visit (visit δ v) := rfl

@[simp] theorem item_line (level : Nat) (text : String) :
    item δ (.line level text) = .line level text := rfl

section

open GoSource.Outline (labeled)

attribute [local simp] Outline.expr Outline.exprForm Outline.element Outline.elementList
  Outline.typeExpr Outline.typeForm Outline.arrayLength Outline.field Outline.fieldForm
  Outline.param Outline.paramForm Outline.paramList Outline.signature Outline.funcResult
  Outline.interfaceElement visit expr exprForm element typeExpr typeForm arrayLength field
  fieldForm param paramForm paramList signature funcResult interfaceElement

@[simp] theorem map_labeled (level : Nat) (label : String) (part : Option (List OutlineItem)) :
    (labeled level label part).map (item δ) = labeled level label (part.map (·.map (item δ))) := by
  cases part <;> rfl

mutual

theorem outline_expr (level : Nat) :
    ∀ x : Node ExprForm, Outline.expr level (expr δ x) = (Outline.expr level x).map (item δ)
  | ⟨i, sp, form⟩ => by simp [outline_exprForm level form]

theorem outline_exprForm (level : Nat) :
    ∀ form : ExprForm,
      Outline.exprForm level (exprForm δ form) = (Outline.exprForm level form).map (item δ)
  | .ident n => by simp
  | .literal l => by simp [lit]
  | .composite t elements _ _ => by
    simp [-optionalType_eq, -elementList_eq, outline_optionalType (level + 1) t,
      outline_elementList (level + 1) elements]
  | .index x _ i _ => by simp [outline_expr (level + 1) x, outline_expr (level + 1) i]
  | .slice x _ low high top _ => by
    simp [-optionalExpr_eq, outline_expr (level + 1) x, outline_optionalExpr (level + 2) low,
      outline_optionalExpr (level + 2) high, outline_optionalExpr (level + 2) top]
  | .typeAssert x none _ => by simp [outline_expr (level + 1) x]
  | .typeAssert x (some t) _ => by
    simp [outline_expr (level + 1) x, outline_typeExpr (level + 1) t]
  | .selector x n => by simp [outline_expr (level + 1) x]
  | .call f _ args dots _ => by
    simp [-exprList_eq, outline_expr (level + 1) f, outline_exprList (level + 1) args]
  | .binary op _ left right => by
    simp [outline_expr (level + 1) left, outline_expr (level + 1) right]
  | .unary op _ x => by simp [outline_expr (level + 1) x]
  | .type t => by simp [outline_typeExpr level t]

theorem outline_exprList (level : Nat) :
    ∀ xs : List (Node ExprForm),
      Outline.exprList level (exprList δ xs) = (Outline.exprList level xs).map (item δ)
  | [] => rfl
  | x :: xs => by
    simp [-exprList_eq, exprList, Outline.exprList, outline_expr level x,
      outline_exprList level xs]

theorem outline_optionalExpr (level : Nat) :
    ∀ x : Option (Node ExprForm), Outline.optionalExpr level (optionalExpr δ x) =
      (Outline.optionalExpr level x).map (·.map (item δ))
  | none => rfl
  | some x => by simp [Outline.optionalExpr, outline_expr level x]

theorem outline_element (level : Nat) :
    ∀ e : Element, Outline.element level (element δ e) = (Outline.element level e).map (item δ)
  | ⟨none, value⟩ => by simp [outline_expr (level + 1) value]
  | ⟨some key, value⟩ => by
    simp [outline_expr (level + 2) key, outline_expr (level + 2) value]

theorem outline_elementList (level : Nat) :
    ∀ es : List Element,
      Outline.elementList level (elementList δ es) = (Outline.elementList level es).map (item δ)
  | [] => rfl
  | e :: es => by
    simp [-elementList_eq, elementList, Outline.elementList, outline_element level e,
      outline_elementList level es]

theorem outline_typeExpr (level : Nat) :
    ∀ t : Node TypeForm,
      Outline.typeExpr level (typeExpr δ t) = (Outline.typeExpr level t).map (item δ)
  | ⟨i, sp, form⟩ => by simp [outline_typeForm level form]

theorem outline_typeForm (level : Nat) :
    ∀ form : TypeForm,
      Outline.typeForm level (typeForm δ form) = (Outline.typeForm level form).map (item δ)
  | .name none n => by simp
  | .name (some pkg) n => by simp
  | .array len t => by
    simp [outline_arrayLength (level + 1) len, outline_typeExpr (level + 1) t]
  | .slice t => by simp [outline_typeExpr (level + 1) t]
  | .pointer t => by simp [outline_typeExpr (level + 1) t]
  | .map key t => by simp [outline_typeExpr (level + 1) key, outline_typeExpr (level + 1) t]
  | .chan dir t => by simp [outline_typeExpr (level + 1) t]
  | .func sig => by simp [outline_signature (level + 1) sig]
  | .struct fields => by simp [-fieldList_eq, outline_fieldList (level + 1) fields]
  | .interface elements => by
    simp [-interfaceElements_eq, outline_interfaceElements (level + 1) elements]

theorem outline_optionalType (level : Nat) :
    ∀ t : Option (Node TypeForm),
      Outline.optionalType level (optionalType δ t) = (Outline.optionalType level t).map (item δ)
  | none => rfl
  | some t => by simp [Outline.optionalType, outline_typeExpr level t]

theorem outline_arrayLength (level : Nat) :
    ∀ len : ArrayLength,
      Outline.arrayLength level (arrayLength δ len) = (Outline.arrayLength level len).map (item δ)
  | .expr x => by simp [outline_expr level x]
  | .dots sp => by simp

theorem outline_field (level : Nat) :
    ∀ f : Node FieldForm, Outline.field level (field δ f) = (Outline.field level f).map (item δ)
  | ⟨i, sp, ⟨names, t, tag⟩⟩ => by
    cases tag <;> simp [outline_typeExpr (level + 1) t, lit]

theorem outline_fieldList (level : Nat) :
    ∀ fs : List (Node FieldForm),
      Outline.fieldList level (fieldList δ fs) = (Outline.fieldList level fs).map (item δ)
  | [] => rfl
  | f :: fs => by
    simp [-fieldList_eq, fieldList, Outline.fieldList, outline_field level f,
      outline_fieldList level fs]

theorem outline_param (level : Nat) :
    ∀ p : Node ParamForm, Outline.param level (param δ p) = (Outline.param level p).map (item δ)
  | ⟨i, sp, ⟨names, dots, t⟩⟩ => by simp [outline_typeExpr (level + 1) t]

theorem outline_paramNodes (level : Nat) :
    ∀ ps : List (Node ParamForm),
      Outline.paramNodes level (paramNodes δ ps) = (Outline.paramNodes level ps).map (item δ)
  | [] => rfl
  | p :: ps => by
    simp [-paramNodes_eq, paramNodes, Outline.paramNodes, outline_param level p,
      outline_paramNodes level ps]

theorem outline_paramList (level : Nat) :
    ∀ ps : ParamList,
      Outline.paramList level (paramList δ ps) = (Outline.paramList level ps).map (item δ)
  | ⟨ps, sp⟩ => by simp [-paramNodes_eq, outline_paramNodes level ps]

theorem outline_signature (level : Nat) :
    ∀ sig : Signature,
      Outline.signature level (signature δ sig) = (Outline.signature level sig).map (item δ)
  | ⟨ps, result, sp⟩ => by
    simp [-optionalResult_eq, -paramList, outline_paramList (level + 1) ps,
      outline_optionalResult level result]

theorem outline_optionalResult (level : Nat) :
    ∀ r : Option FuncResult, Outline.optionalResult level (optionalResult δ r) =
      (Outline.optionalResult level r).map (item δ)
  | none => rfl
  | some r => by simp [Outline.optionalResult, outline_funcResult level r]

theorem outline_funcResult (level : Nat) :
    ∀ r : FuncResult,
      Outline.funcResult level (funcResult δ r) = (Outline.funcResult level r).map (item δ)
  | .params list => by simp [outline_paramList (level + 1) list]
  | .type t => by simp [outline_typeExpr (level + 1) t]

theorem outline_interfaceElement (level : Nat) :
    ∀ e : InterfaceElement, Outline.interfaceElement level (interfaceElement δ e) =
      (Outline.interfaceElement level e).map (item δ)
  | .method n sig => by simp [outline_signature (level + 1) sig]
  | .embedded t => by simp [outline_typeExpr (level + 1) t]

theorem outline_interfaceElements (level : Nat) :
    ∀ es : List InterfaceElement, Outline.interfaceElements level (interfaceElements δ es) =
      (Outline.interfaceElements level es).map (item δ)
  | [] => rfl
  | e :: es => by
    simp [-interfaceElements_eq, interfaceElements, Outline.interfaceElements,
      outline_interfaceElement level e, outline_interfaceElements level es]

end

attribute [local simp] Outline.decl Outline.declForm Outline.functionDecl Outline.methodDecl
  Outline.block Outline.stmt Outline.stmtForm Outline.forHeader constSpec varSpec typeSpec decl
  declForm functionDecl methodDecl block stmt stmtForm forHeader

@[simp] theorem outline_exprs (level : Nat) (xs : List Expr) :
    Outline.exprList level (xs.map (expr δ)) = (Outline.exprList level xs).map (item δ) := by
  rw [← exprList_eq, outline_exprList]

@[simp] theorem outline_type? (level : Nat) (t : Option TypeExpr) :
    Outline.optionalType level (t.map (typeExpr δ)) =
      (Outline.optionalType level t).map (item δ) := by
  rw [← optionalType_eq, outline_optionalType]

@[simp] theorem outline_expr? (level : Nat) (x : Option Expr) :
    Outline.optionalExpr level (x.map (expr δ)) =
      (Outline.optionalExpr level x).map (·.map (item δ)) := by
  rw [← optionalExpr_eq, outline_optionalExpr]

@[simp] theorem map_doc (level : Nat) (lines : List String) :
    (Outline.doc level lines).map (item δ) = Outline.doc level lines := by
  simp [Outline.doc]

theorem map_importSpec (level : Nat) (spec : ImportSpec) :
    item δ (Outline.importSpec level spec) = Outline.importSpec level spec := by
  obtain ⟨_ | _ | _, path, sp⟩ := spec <;> rfl

@[simp] theorem map_jump (level : Nat) (word : String) (label : Option Ident) :
    item δ (Outline.jump level word label) = Outline.jump level word label := by
  cases label <;> rfl

mutual

theorem outline_decl (level : Nat) :
    ∀ d : Node DeclForm, Outline.decl level (decl δ d) = (Outline.decl level d).map (item δ)
  | ⟨i, sp, form⟩ => by simp [outline_declForm level form]

theorem outline_declForm (level : Nat) :
    ∀ form : DeclForm,
      Outline.declForm level (declForm δ form) = (Outline.declForm level form).map (item δ)
  | .imports d => by simp [map_importSpec]
  | .const c => by simp
  | .var v => by simp
  | .type t => by simp [-typeExpr, outline_typeExpr]
  | .func ⟨lines, sp, n, sig, body⟩ => by
    simp [-signature, -optionalBlock_eq, outline_signature,
      outline_optionalBlock (level + 1) body]
  | .method ⟨lines, sp, receiver, n, sig, body⟩ => by
    simp [-signature, -paramList, -optionalBlock_eq, outline_signature, outline_paramList,
      outline_optionalBlock (level + 1) body]

theorem outline_declList (level : Nat) :
    ∀ ds : List (Node DeclForm),
      Outline.declList level (declList δ ds) = (Outline.declList level ds).map (item δ)
  | [] => rfl
  | d :: ds => by
    simp [-declList_eq, declList, Outline.declList, outline_decl level d,
      outline_declList level ds]

theorem outline_block (level : Nat) :
    ∀ b : Block, Outline.block level (block δ b) = (Outline.block level b).map (item δ)
  | ⟨ss, sp⟩ => by simp [-stmtList_eq, outline_stmtList (level + 1) ss]

theorem outline_optionalBlock (level : Nat) :
    ∀ b : Option Block, Outline.optionalBlock level (optionalBlock δ b) =
      (Outline.optionalBlock level b).map (item δ)
  | none => rfl
  | some b => by simp [Outline.optionalBlock, outline_block level b]

theorem outline_stmt (level : Nat) :
    ∀ s : Node StmtForm, Outline.stmt level (stmt δ s) = (Outline.stmt level s).map (item δ)
  | ⟨i, sp, form⟩ => by simp [outline_stmtForm level form]

theorem outline_stmtForm (level : Nat) :
    ∀ form : StmtForm,
      Outline.stmtForm level (stmtForm δ form) = (Outline.stmtForm level form).map (item δ)
  | .empty => by simp
  | .decl ds => by simp [-declList_eq, outline_declList (level + 1) ds]
  | .expr x => by simp [-expr, outline_expr]
  | .assign left op _ right => by simp
  | .shortVar names _ values => by simp
  | .range left define x => by simp [-expr, outline_expr, Outline.rangeSuffix]
  | .send chan x => by simp [-expr, outline_expr]
  | .step x op => by simp [-expr, outline_expr]
  | .labeled label s => by simp [outline_stmt (level + 1) s]
  | .block b => by simp [outline_block level b]
  | .ifStmt init cond body other => by
    simp [-expr, -optionalStmt_eq, outline_expr, outline_optionalStmt (level + 2) init,
      outline_block (level + 1) body, outline_optionalStmt (level + 2) other]
  | .forStmt header body => by
    simp [outline_forHeader (level + 1) header, outline_block (level + 1) body]
  | .goStmt x => by simp [-expr, outline_expr]
  | .deferStmt x => by simp [-expr, outline_expr]
  | .returnStmt xs => by simp
  | .breakStmt label => by simp
  | .continueStmt label => by simp
  | .gotoStmt label => by simp
  | .fallthroughStmt => by simp

theorem outline_optionalStmt (level : Nat) :
    ∀ s : Option (Node StmtForm), Outline.optionalStmt level (optionalStmt δ s) =
      (Outline.optionalStmt level s).map (·.map (item δ))
  | none => rfl
  | some s => by simp [Outline.optionalStmt, outline_stmt level s]

theorem outline_stmtList (level : Nat) :
    ∀ ss : List (Node StmtForm),
      Outline.stmtList level (stmtList δ ss) = (Outline.stmtList level ss).map (item δ)
  | [] => rfl
  | s :: ss => by
    simp [-stmtList_eq, stmtList, Outline.stmtList, outline_stmt level s,
      outline_stmtList level ss]

theorem outline_forHeader (level : Nat) :
    ∀ h : ForHeader,
      Outline.forHeader level (forHeader δ h) = (Outline.forHeader level h).map (item δ)
  | .infinite => by simp
  | .cond x => by simp [-expr, outline_expr]
  | .clause init cond post => by
    simp [-optionalStmt_eq, outline_optionalStmt (level + 1) init,
      outline_optionalStmt (level + 1) post]
  | .range s => by simp [outline_stmt level s]

end

end

-- ================================================================ roots

/-- The outline has the same lines. -/
theorem render_items (items : List OutlineItem) :
    Outline.render (items.map (item δ)) = Outline.render items := by
  rw [Outline.render, Outline.render, List.map_map]
  congr 2
  funext it
  cases it <;> rfl

end Renumber

namespace Root

/-- The outline of what a root consists of. -/
def outline : Root → List OutlineItem
  | expr x => Outline.expr 0 x
  | decls ds => Outline.declList 0 ds
  | file f => Outline.file 0 f
  | stmts ss => Outline.stmtList 0 ss
  | stmt s => Outline.stmt 0 s

/-- The printed tree. -/
def text (root : Root) : String := Outline.render root.outline

end Root

namespace Renumber

variable (δ : NodeKind → Nat)

theorem visits_root (root : Root) : (Renumber.root δ root).visits = root.visits.map (visit δ) := by
  cases root <;> simp [Renumber.root, Root.visits, visit, Function.comp_def]

theorem walk_root (root : Root) : (Renumber.root δ root).walk = root.walk.map (step δ) := by
  rw [Root.walk, Root.walk, visits_root, List.flatMap_map, List.map_flatMap]
  exact List.flatMap_congr fun v _ => walk_visit δ v 0

theorem outline_decls (level : Nat) (ds : List Decl) :
    Outline.declList level (ds.map (decl δ)) = (Outline.declList level ds).map (item δ) := by
  rw [← declList_eq, outline_declList]

theorem outline_root (root : Root) :
    (Renumber.root δ root).outline = root.outline.map (item δ) := by
  cases root with
  | expr x => exact outline_expr δ 0 x
  | decls ds => exact outline_decls δ 0 ds
  | file f => simp [Renumber.root, Root.outline, Outline.file, file, outline_decls]
  | stmts ss =>
    show Outline.stmtList 0 (ss.map (stmt δ)) = _
    rw [← stmtList_eq]
    exact outline_stmtList δ 0 ss
  | stmt s => exact outline_stmt δ 0 s

theorem text_root (root : Root) : (Renumber.root δ root).text = root.text := by
  rw [Root.text, outline_root, render_items, Root.text]

end Renumber

end GoSource
