/-
What a tree says, apart from where and when it was read.

A tree read from other tokens has other spans and other numbers, and no
comments. `Bare` takes all of these out of a tree: two trees are equal up
to them if they are equal when bare. Whether a mark has a place at all is
kept, because it says whether the mark was there.

What the parser asks of an expression that it has read already does not
depend on the parts taken out (`opensComposite_bare` and what follows it).
-/
import GoSource.Parse

namespace GoSource

namespace Bare

def ident (n : Ident) : Ident := ⟨n.name, .nowhere⟩

def lit (l : Lit) : Lit := ⟨0, .nowhere, l.form⟩

def mark (sp : Option Span) : Option Span := sp.map fun _ => .nowhere

-- ================================================ expressions and types

mutual

def expr : Node ExprForm → Node ExprForm
  | ⟨_, _, form⟩ => ⟨0, .nowhere, exprForm form⟩

def exprForm : ExprForm → ExprForm
  | .ident n => .ident (ident n)
  | .literal l => .literal (lit l)
  | .composite t elements _ _ =>
    .composite (optionalType t) (elementList elements) .nowhere .nowhere
  | .index x _ i _ => .index (expr x) .nowhere (expr i) .nowhere
  | .slice x _ low high top _ =>
    .slice (expr x) .nowhere (optionalExpr low) (optionalExpr high) (optionalExpr top) .nowhere
  | .typeAssert x t _ => .typeAssert (expr x) (optionalType t) .nowhere
  | .selector x n => .selector (expr x) (ident n)
  | .call f _ args ds _ => .call (expr f) .nowhere (exprList args) (mark ds) .nowhere
  | .binary op _ left right => .binary op .nowhere (expr left) (expr right)
  | .unary op _ x => .unary op .nowhere (expr x)
  | .type t => .type (typeExpr t)

def exprList : List (Node ExprForm) → List (Node ExprForm)
  | [] => []
  | x :: xs => expr x :: exprList xs

def optionalExpr : Option (Node ExprForm) → Option (Node ExprForm)
  | none => none
  | some x => some (expr x)

def element : Element → Element
  | ⟨key, value⟩ => ⟨optionalExpr key, expr value⟩

def elementList : List Element → List Element
  | [] => []
  | e :: es => element e :: elementList es

def typeExpr : Node TypeForm → Node TypeForm
  | ⟨_, _, form⟩ => ⟨0, .nowhere, typeForm form⟩

def typeForm : TypeForm → TypeForm
  | .name pkg n => .name (pkg.map ident) (ident n)
  | .array len t => .array (arrayLength len) (typeExpr t)
  | .slice t => .slice (typeExpr t)
  | .pointer t => .pointer (typeExpr t)
  | .map key t => .map (typeExpr key) (typeExpr t)
  | .chan dir t => .chan dir (typeExpr t)
  | .func sig => .func (signature sig)
  | .struct fields => .struct (fieldList fields)
  | .interface elements => .interface (interfaceElements elements)

def optionalType : Option (Node TypeForm) → Option (Node TypeForm)
  | none => none
  | some t => some (typeExpr t)

def arrayLength : ArrayLength → ArrayLength
  | .expr x => .expr (expr x)
  | .dots _ => .dots .nowhere

def field : Node FieldForm → Node FieldForm
  | ⟨_, _, ⟨ns, t, tag⟩⟩ => ⟨0, .nowhere, ⟨ns.map ident, typeExpr t, tag.map lit⟩⟩

def fieldList : List (Node FieldForm) → List (Node FieldForm)
  | [] => []
  | f :: fs => field f :: fieldList fs

def param : Node ParamForm → Node ParamForm
  | ⟨_, _, ⟨ns, ds, t⟩⟩ => ⟨0, .nowhere, ⟨ns.map ident, mark ds, typeExpr t⟩⟩

def paramNodes : List (Node ParamForm) → List (Node ParamForm)
  | [] => []
  | p :: ps => param p :: paramNodes ps

def paramList : ParamList → ParamList
  | ⟨params, _⟩ => ⟨paramNodes params, .nowhere⟩

def signature : Signature → Signature
  | ⟨params, result, _⟩ => ⟨paramList params, optionalResult result, .nowhere⟩

def optionalResult : Option FuncResult → Option FuncResult
  | none => none
  | some r => some (funcResult r)

def funcResult : FuncResult → FuncResult
  | .params list => .params (paramList list)
  | .type t => .type (typeExpr t)

def interfaceElement : InterfaceElement → InterfaceElement
  | .method n sig => .method (ident n) (signature sig)
  | .embedded t => .embedded (typeExpr t)

def interfaceElements : List InterfaceElement → List InterfaceElement
  | [] => []
  | e :: es => interfaceElement e :: interfaceElements es

end

-- ========================================== declarations and statements

def importName : ImportName → ImportName
  | .dot _ => .dot .nowhere
  | .name n => .name (ident n)

def importSpec (s : ImportSpec) : ImportSpec :=
  ⟨s.name.map importName, s.path, .nowhere⟩

mutual

def decl : Node DeclForm → Node DeclForm
  | ⟨_, _, form⟩ => ⟨0, .nowhere, declForm form⟩

def declForm : DeclForm → DeclForm
  | .imports d => .imports ⟨[], .nowhere, d.specs.map importSpec⟩
  | .const s => .const ⟨[], s.names.map ident, s.type.map typeExpr, s.values.map expr, s.iota⟩
  | .var s => .var ⟨[], s.names.map ident, s.type.map typeExpr, s.values.map expr⟩
  | .type s => .type ⟨[], ident s.name, mark s.assign, typeExpr s.type⟩
  | .func d => .func (functionDecl d)
  | .method d => .method (methodDecl d)

def functionDecl : FunctionDecl → FunctionDecl
  | ⟨_, _, n, sig, body⟩ => ⟨[], .nowhere, ident n, signature sig, optionalBlock body⟩

def methodDecl : MethodDecl → MethodDecl
  | ⟨_, _, receiver, n, sig, body⟩ =>
    ⟨[], .nowhere, paramList receiver, ident n, signature sig, optionalBlock body⟩

def declList : List (Node DeclForm) → List (Node DeclForm)
  | [] => []
  | d :: ds => decl d :: declList ds

def block : Block → Block
  | ⟨stmts, _⟩ => ⟨stmtList stmts, .nowhere⟩

def optionalBlock : Option Block → Option Block
  | none => none
  | some b => some (block b)

def stmt : Node StmtForm → Node StmtForm
  | ⟨_, _, form⟩ => ⟨0, .nowhere, stmtForm form⟩

def stmtForm : StmtForm → StmtForm
  | .empty => .empty
  | .decl ds => .decl (declList ds)
  | .expr x => .expr (expr x)
  | .assign left op _ right => .assign (left.map expr) op .nowhere (right.map expr)
  | .shortVar ns _ xs => .shortVar (ns.map ident) .nowhere (xs.map expr)
  | .range left define x => .range (left.map expr) define (expr x)
  | .send chan x => .send (expr chan) (expr x)
  | .step x op => .step (expr x) op
  | .labeled n s => .labeled (ident n) (stmt s)
  | .block b => .block (block b)
  | .ifStmt init cond body other =>
    .ifStmt (optionalStmt init) (expr cond) (block body) (optionalStmt other)
  | .forStmt h body => .forStmt (forHeader h) (block body)
  | .goStmt x => .goStmt (expr x)
  | .deferStmt x => .deferStmt (expr x)
  | .returnStmt xs => .returnStmt (xs.map expr)
  | .breakStmt label => .breakStmt (label.map ident)
  | .continueStmt label => .continueStmt (label.map ident)
  | .gotoStmt label => .gotoStmt (ident label)
  | .fallthroughStmt => .fallthroughStmt

def optionalStmt : Option (Node StmtForm) → Option (Node StmtForm)
  | none => none
  | some s => some (stmt s)

def stmtList : List (Node StmtForm) → List (Node StmtForm)
  | [] => []
  | s :: ss => stmt s :: stmtList ss

def forHeader : ForHeader → ForHeader
  | .infinite => .infinite
  | .cond x => .cond (expr x)
  | .clause init cond post => .clause (optionalStmt init) (cond.map expr) (optionalStmt post)
  | .range s => .range (stmt s)

end

def file (f : File) : File :=
  ⟨.nowhere, ident f.name, f.imports.map decl, f.decls.map decl, .nowhere⟩

-- ================================================================ lists

theorem exprList_eq (xs : List Expr) : exprList xs = xs.map expr := by
  induction xs with
  | nil => rfl
  | cons x xs ih => rw [exprList, ih, List.map_cons]

theorem elementList_eq (es : List Element) : elementList es = es.map element := by
  induction es with
  | nil => rfl
  | cons e es ih => rw [elementList, ih, List.map_cons]

theorem fieldList_eq (fs : List Field) : fieldList fs = fs.map field := by
  induction fs with
  | nil => rfl
  | cons f fs ih => rw [fieldList, ih, List.map_cons]

theorem paramNodes_eq (ps : List Param) : paramNodes ps = ps.map param := by
  induction ps with
  | nil => rfl
  | cons p ps ih => rw [paramNodes, ih, List.map_cons]

theorem interfaceElements_eq (es : List InterfaceElement) :
    interfaceElements es = es.map interfaceElement := by
  induction es with
  | nil => rfl
  | cons e es ih => rw [interfaceElements, ih, List.map_cons]

theorem declList_eq (ds : List Decl) : declList ds = ds.map decl := by
  induction ds with
  | nil => rfl
  | cons d ds ih => rw [declList, ih, List.map_cons]

theorem stmtList_eq (ss : List Stmt) : stmtList ss = ss.map stmt := by
  induction ss with
  | nil => rfl
  | cons s ss ih => rw [stmtList, ih, List.map_cons]

end Bare

/-- A whole tree without spans, numbers and comments. -/
def Root.bare : Root → Root
  | expr x => .expr (Bare.expr x)
  | decls ds => .decls (ds.map Bare.decl)
  | file f => .file (Bare.file f)
  | stmts ss => .stmts (ss.map Bare.stmt)
  | stmt s => .stmt (Bare.stmt s)

-- ======================================================== what is asked

section

attribute [local simp] Bare.expr Bare.exprForm Bare.typeExpr Bare.typeForm Bare.stmtForm

theorem Bare.expr_form (x : Expr) : (Bare.expr x).form = Bare.exprForm x.form := by
  cases x
  simp

/-- Expressions that are equal when bare have forms that are. -/
theorem exprForm_of_bare {x y : Expr} (h : Bare.expr y = Bare.expr x) :
    Bare.exprForm y.form = Bare.exprForm x.form := by
  rw [← Bare.expr_form, ← Bare.expr_form, h]

theorem Bare.type_of_eq {form : ExprForm} {t : TypeExpr} (h : Bare.exprForm form = .type t) :
    ∃ u, form = .type u ∧ Bare.typeExpr u = t := by
  cases form with
  | type u => simpa using h
  | _ => simp at h

theorem Bare.ident_of_eq {form : ExprForm} {n : Ident} (h : Bare.exprForm form = .ident n) :
    ∃ m, form = .ident m ∧ Bare.ident m = n := by
  cases form with
  | ident m => simpa using h
  | _ => simp at h

theorem Bare.selector_of_eq {form : ExprForm} {x : Expr} {n : Ident}
    (h : Bare.exprForm form = .selector x n) :
    ∃ y m, form = .selector y m ∧ Bare.expr y = x ∧ Bare.ident m = n := by
  cases form with
  | selector y m => exact ⟨y, m, rfl, by simpa using h⟩
  | _ => simp at h

theorem Bare.call_of_eq {form : ExprForm} {f : Expr} {l r : Span} {args : List Expr}
    {dots : Option Span} (h : Bare.exprForm form = .call f l args dots r) :
    ∃ g l' args' dots' r', form = .call g l' args' dots' r' := by
  cases form with
  | call g l' args' dots' r' => exact ⟨g, l', args', dots', r', rfl⟩
  | _ => simp at h

theorem Bare.stmtExpr_of_eq {form : StmtForm} {x : Expr} (h : Bare.stmtForm form = .expr x) :
    ∃ y, form = .expr y ∧ Bare.expr y = x := by
  cases form with
  | expr y => simpa using h
  | _ => simp at h

/-- A list of which nothing is known but one bare expression. -/
theorem Bare.singleton_of_eq {ys : List Expr} {x : Expr}
    (h : ys.map Bare.expr = [x].map Bare.expr) :
    ∃ y, ys = [y] ∧ Bare.expr y = Bare.expr x :=
  List.map_eq_singleton_iff.mp h

theorem opensComposite_bare (inHeader : Bool) (x : Expr) :
    Grammar.opensComposite inHeader (Bare.expr x) = Grammar.opensComposite inHeader x := by
  obtain ⟨i, sp, form⟩ := x
  cases form with
  | selector x n =>
    obtain ⟨j, sp', form⟩ := x
    cases form <;> simp [Grammar.opensComposite]
  | type t =>
    obtain ⟨j, sp', form⟩ := t
    cases form <;> simp [Grammar.opensComposite]
  | _ => simp [Grammar.opensComposite]

end

theorem opensComposite_of_bare {x y : Expr} (h : Bare.expr y = Bare.expr x) (inHeader : Bool) :
    Grammar.opensComposite inHeader y = Grammar.opensComposite inHeader x := by
  rw [← opensComposite_bare inHeader y, h, opensComposite_bare]

end GoSource
