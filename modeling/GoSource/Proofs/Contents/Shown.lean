/-
What an outline shows.

An outline marks where the printing of a declaration, a statement, an
expression or a type begins. These marks are the stops of a walk, in the
same order: an outline passes over the other stops (fields, parameters,
literals and the file), whose lines belong to the form they are part of.
-/
import GoSource.Proofs.Contents.Placement
import GoSource.Syntax.Outline

namespace GoSource

/-- An outline has a mark for it. -/
def Visit.isShown : Visit → Bool
  | decl _ | stmt _ | expr _ | type _ => true
  | file _ | field _ | param _ | literal _ => false

/-- The stops of a walk for which an outline has marks. -/
def Walk.shown (steps : List Step) : List Visit :=
  (steps.map (·.visit)).filter Visit.isShown

namespace Outline

section

variable (items more : List OutlineItem) (steps rest : List Step)

@[simp] theorem visits_nil : visits [] = [] := rfl

@[simp] theorem visits_visit (v : Visit) : visits (.visit v :: items) = v :: visits items := rfl

@[simp] theorem visits_line (level : Nat) (text : String) :
    visits (.line level text :: items) = visits items := rfl

@[simp] theorem visits_append : visits (items ++ more) = visits items ++ visits more :=
  List.filterMap_append

@[simp] theorem visits_labeled (level : Nat) (label : String) (part : Option (List OutlineItem)) :
    visits (labeled level label part) = visits (part.getD []) := by
  cases part <;> rfl

@[simp] theorem visits_doc (level : Nat) (lines : List String) : visits (doc level lines) = [] := by
  induction lines with
  | nil => rfl
  | cons line lines ih => exact ih

@[simp] theorem shown_nil : Walk.shown [] = [] := rfl

@[simp] theorem shown_append :
    Walk.shown (steps ++ rest) = Walk.shown steps ++ Walk.shown rest := by
  simp [Walk.shown]

@[simp] theorem shown_cons (s : Step) :
    Walk.shown (s :: steps) =
      if s.visit.isShown then s.visit :: Walk.shown steps else Walk.shown steps := by
  simp [Walk.shown, List.filter_cons]

end

-- ================================================ expressions and types

section

attribute [local simp] expr exprForm element elementList typeExpr typeForm arrayLength field
  fieldForm param paramForm paramList signature funcResult interfaceElement Visit.isShown
  Walk.expr Walk.exprForm Walk.element Walk.elementList Walk.typeExpr Walk.typeForm
  Walk.arrayLength Walk.field Walk.fieldForm Walk.param Walk.paramForm Walk.paramList
  Walk.signature Walk.funcResult Walk.interfaceElement

variable (depth : Nat)

mutual

theorem visits_expr (level depth : Nat) :
    ∀ x : Node ExprForm, visits (expr level x) = Walk.shown (Walk.expr depth x)
  | ⟨i, sp, form⟩ => by simp [visits_exprForm level (depth + 1) form]

theorem visits_exprForm (level depth : Nat) :
    ∀ form : ExprForm, visits (exprForm level form) = Walk.shown (Walk.exprForm depth form)
  | .ident n => by simp
  | .literal l => by simp
  | .composite t elements _ _ => by
    simp [visits_optionalType (level + 1) depth t, visits_elementList (level + 1) depth elements]
  | .index x _ i _ => by simp [visits_expr (level + 1) depth x, visits_expr (level + 1) depth i]
  | .slice x _ low high top _ => by
    simp [visits_expr (level + 1) depth x, visits_optionalExpr (level + 2) depth low,
      visits_optionalExpr (level + 2) depth high, visits_optionalExpr (level + 2) depth top]
  | .typeAssert x none _ => by simp [visits_expr (level + 1) depth x, Walk.optionalType]
  | .typeAssert x (some t) _ => by
    simp [visits_expr (level + 1) depth x, visits_typeExpr (level + 1) depth t, Walk.optionalType]
  | .selector x n => by simp [visits_expr (level + 1) depth x]
  | .call f _ args dots _ => by
    simp [visits_expr (level + 1) depth f, visits_exprList (level + 1) depth args]
  | .binary op _ left right => by
    simp [visits_expr (level + 1) depth left, visits_expr (level + 1) depth right]
  | .unary op _ x => by simp [visits_expr (level + 1) depth x]
  | .type t => by simp [visits_typeExpr level depth t]

theorem visits_exprList (level depth : Nat) :
    ∀ xs : List (Node ExprForm), visits (exprList level xs) = Walk.shown (Walk.exprList depth xs)
  | [] => rfl
  | x :: xs => by
    simp [exprList, Walk.exprList, visits_expr level depth x, visits_exprList level depth xs]

theorem visits_optionalExpr (level depth : Nat) :
    ∀ x : Option (Node ExprForm),
      visits ((optionalExpr level x).getD []) = Walk.shown (Walk.optionalExpr depth x)
  | none => rfl
  | some x => by simp [optionalExpr, Walk.optionalExpr, visits_expr level depth x]

theorem visits_element (level depth : Nat) :
    ∀ e : Element, visits (element level e) = Walk.shown (Walk.element depth e)
  | ⟨none, value⟩ => by simp [Walk.optionalExpr, visits_expr (level + 1) depth value]
  | ⟨some key, value⟩ => by
    simp [Walk.optionalExpr, visits_expr (level + 2) depth key,
      visits_expr (level + 2) depth value]

theorem visits_elementList (level depth : Nat) :
    ∀ es : List Element, visits (elementList level es) = Walk.shown (Walk.elementList depth es)
  | [] => rfl
  | e :: es => by simp [visits_element level depth e, visits_elementList level depth es]

theorem visits_typeExpr (level depth : Nat) :
    ∀ t : Node TypeForm, visits (typeExpr level t) = Walk.shown (Walk.typeExpr depth t)
  | ⟨i, sp, form⟩ => by simp [visits_typeForm level (depth + 1) form]

theorem visits_typeForm (level depth : Nat) :
    ∀ form : TypeForm, visits (typeForm level form) = Walk.shown (Walk.typeForm depth form)
  | .name none n => by simp
  | .name (some pkg) n => by simp
  | .array len t => by
    simp [visits_arrayLength (level + 1) depth len, visits_typeExpr (level + 1) depth t]
  | .slice t => by simp [visits_typeExpr (level + 1) depth t]
  | .pointer t => by simp [visits_typeExpr (level + 1) depth t]
  | .map key t => by
    simp [visits_typeExpr (level + 1) depth key, visits_typeExpr (level + 1) depth t]
  | .chan dir t => by simp [visits_typeExpr (level + 1) depth t]
  | .func sig => by simp [-signature, -Walk.signature, visits_signature (level + 1) depth sig]
  | .struct fields => by simp [visits_fieldList (level + 1) depth fields]
  | .interface elements => by simp [visits_interfaceElements (level + 1) depth elements]

theorem visits_optionalType (level depth : Nat) :
    ∀ t : Option (Node TypeForm),
      visits (optionalType level t) = Walk.shown (Walk.optionalType depth t)
  | none => rfl
  | some t => by simp [optionalType, Walk.optionalType, visits_typeExpr level depth t]

theorem visits_arrayLength (level depth : Nat) :
    ∀ len : ArrayLength, visits (arrayLength level len) = Walk.shown (Walk.arrayLength depth len)
  | .expr x => by simp [visits_expr level depth x]
  | .dots sp => by simp

theorem visits_field (level depth : Nat) :
    ∀ f : Node FieldForm, visits (field level f) = Walk.shown (Walk.field depth f)
  | ⟨i, sp, ⟨names, t, tag⟩⟩ => by
    cases tag <;> simp [visits_typeExpr (level + 1) (depth + 1) t]

theorem visits_fieldList (level depth : Nat) :
    ∀ fs : List (Node FieldForm),
      visits (fieldList level fs) = Walk.shown (Walk.fieldList depth fs)
  | [] => rfl
  | f :: fs => by
    simp [-field, -Walk.field, fieldList, Walk.fieldList, visits_field level depth f,
      visits_fieldList level depth fs]

theorem visits_param (level depth : Nat) :
    ∀ p : Node ParamForm, visits (param level p) = Walk.shown (Walk.param depth p)
  | ⟨i, sp, ⟨names, dots, t⟩⟩ => by simp [visits_typeExpr (level + 1) (depth + 1) t]

theorem visits_paramNodes (level depth : Nat) :
    ∀ ps : List (Node ParamForm),
      visits (paramNodes level ps) = Walk.shown (Walk.paramNodes depth ps)
  | [] => rfl
  | p :: ps => by
    simp [-param, -Walk.param, paramNodes, Walk.paramNodes, visits_param level depth p,
      visits_paramNodes level depth ps]

theorem visits_paramList (level depth : Nat) :
    ∀ ps : ParamList, visits (paramList level ps) = Walk.shown (Walk.paramList depth ps)
  | ⟨ps, sp⟩ => by simp [visits_paramNodes level depth ps]

theorem visits_signature (level depth : Nat) :
    ∀ sig : Signature, visits (signature level sig) = Walk.shown (Walk.signature depth sig)
  | ⟨ps, result, sp⟩ => by
    simp [-paramList, -Walk.paramList, visits_paramList (level + 1) depth ps,
      visits_optionalResult level depth result]

theorem visits_optionalResult (level depth : Nat) :
    ∀ r : Option FuncResult,
      visits (optionalResult level r) = Walk.shown (Walk.optionalResult depth r)
  | none => rfl
  | some r => by
    simp [-funcResult, -Walk.funcResult, optionalResult, Walk.optionalResult,
      visits_funcResult level depth r]

theorem visits_funcResult (level depth : Nat) :
    ∀ r : FuncResult, visits (funcResult level r) = Walk.shown (Walk.funcResult depth r)
  | .params list => by simp [-paramList, -Walk.paramList, visits_paramList (level + 1) depth list]
  | .type t => by simp [visits_typeExpr (level + 1) depth t]

theorem visits_interfaceElement (level depth : Nat) :
    ∀ e : InterfaceElement,
      visits (interfaceElement level e) = Walk.shown (Walk.interfaceElement depth e)
  | .method n sig => by simp [-signature, -Walk.signature, visits_signature (level + 1) depth sig]
  | .embedded t => by simp [visits_typeExpr (level + 1) depth t]

theorem visits_interfaceElements (level depth : Nat) :
    ∀ es : List InterfaceElement,
      visits (interfaceElements level es) = Walk.shown (Walk.interfaceElements depth es)
  | [] => rfl
  | e :: es => by
    simp [-interfaceElement, -Walk.interfaceElement, interfaceElements, Walk.interfaceElements,
      visits_interfaceElement level depth e, visits_interfaceElements level depth es]

end

end

-- ========================================== declarations and statements

@[simp] theorem visits_imports (level : Nat) (specs : List ImportSpec) :
    visits (specs.map (importSpec level)) = [] := by
  induction specs with
  | nil => rfl
  | cons spec specs ih => obtain ⟨_ | _ | _, path, sp⟩ := spec <;> exact ih

@[simp] theorem visits_jump (level : Nat) (word : String) (label : Option Ident)
    (items : List OutlineItem) : visits (jump level word label :: items) = visits items := by
  cases label <;> rfl

section

attribute [local simp] decl declForm functionDecl methodDecl block stmt stmtForm forHeader
  Visit.isShown Walk.decl Walk.declForm Walk.functionDecl Walk.methodDecl Walk.block Walk.stmt
  Walk.stmtForm Walk.forHeader

variable (depth : Nat)

mutual

theorem visits_decl (level depth : Nat) :
    ∀ d : Node DeclForm, visits (decl level d) = Walk.shown (Walk.decl depth d)
  | ⟨i, sp, form⟩ => by simp [visits_declForm level (depth + 1) form]

theorem visits_declForm (level depth : Nat) :
    ∀ form : DeclForm, visits (declForm level form) = Walk.shown (Walk.declForm depth form)
  | .imports d => by simp
  | .const c => by simp [visits_optionalType _ depth, visits_exprList _ depth]
  | .var v => by simp [visits_optionalType _ depth, visits_exprList _ depth]
  | .type t => by simp [visits_typeExpr _ depth]
  | .func ⟨lines, sp, n, sig, body⟩ => by
    simp [visits_signature _ depth, visits_optionalBlock (level + 1) depth body]
  | .method ⟨lines, sp, receiver, n, sig, body⟩ => by
    simp [visits_paramList _ depth, visits_signature _ depth,
      visits_optionalBlock (level + 1) depth body]

theorem visits_declList (level depth : Nat) :
    ∀ ds : List (Node DeclForm), visits (declList level ds) = Walk.shown (Walk.declList depth ds)
  | [] => rfl
  | d :: ds => by
    simp [-decl, -Walk.decl, declList, Walk.declList, visits_decl level depth d,
      visits_declList level depth ds]

theorem visits_block (level depth : Nat) :
    ∀ b : Block, visits (block level b) = Walk.shown (Walk.block depth b)
  | ⟨ss, sp⟩ => by simp [visits_stmtList (level + 1) depth ss]

theorem visits_optionalBlock (level depth : Nat) :
    ∀ b : Option Block, visits (optionalBlock level b) = Walk.shown (Walk.optionalBlock depth b)
  | none => rfl
  | some b => by
    simp [-block, -Walk.block, optionalBlock, Walk.optionalBlock, visits_block level depth b]

theorem visits_stmt (level depth : Nat) :
    ∀ s : Node StmtForm, visits (stmt level s) = Walk.shown (Walk.stmt depth s)
  | ⟨i, sp, form⟩ => by simp [visits_stmtForm level (depth + 1) form]

theorem visits_stmtForm (level depth : Nat) :
    ∀ form : StmtForm, visits (stmtForm level form) = Walk.shown (Walk.stmtForm depth form)
  | .empty => by simp
  | .decl ds => by simp [visits_declList (level + 1) depth ds]
  | .expr x => by simp [visits_expr _ depth]
  | .assign left op _ right => by simp [visits_exprList _ depth]
  | .shortVar names _ values => by simp [visits_exprList _ depth]
  | .range left define x => by simp [visits_exprList _ depth, visits_expr _ depth]
  | .send chan x => by simp [visits_expr _ depth]
  | .step x op => by simp [visits_expr _ depth]
  | .labeled label s => by
    simp [-stmt, -Walk.stmt, visits_stmt (level + 1) depth s]
  | .block b => by simp [-block, -Walk.block, visits_block level depth b]
  | .ifStmt init cond body other => by
    simp [-block, -Walk.block, visits_expr _ depth, visits_optionalStmt (level + 2) depth init,
      visits_block (level + 1) depth body, visits_optionalStmt (level + 2) depth other]
  | .forStmt header body => by
    simp [-block, -Walk.block, -forHeader, -Walk.forHeader,
      visits_forHeader (level + 1) depth header, visits_block (level + 1) depth body]
  | .goStmt x => by simp [visits_expr _ depth]
  | .deferStmt x => by simp [visits_expr _ depth]
  | .returnStmt xs => by simp [visits_exprList _ depth]
  | .breakStmt label => by simp
  | .continueStmt label => by simp
  | .gotoStmt label => by simp
  | .fallthroughStmt => by simp

theorem visits_optionalStmt (level depth : Nat) :
    ∀ s : Option (Node StmtForm),
      visits ((optionalStmt level s).getD []) = Walk.shown (Walk.optionalStmt depth s)
  | none => rfl
  | some s => by
    simp [-stmt, -Walk.stmt, optionalStmt, Walk.optionalStmt, visits_stmt level depth s]

theorem visits_stmtList (level depth : Nat) :
    ∀ ss : List (Node StmtForm), visits (stmtList level ss) = Walk.shown (Walk.stmtList depth ss)
  | [] => rfl
  | s :: ss => by
    simp [-stmt, -Walk.stmt, stmtList, Walk.stmtList, visits_stmt level depth s,
      visits_stmtList level depth ss]

theorem visits_forHeader (level depth : Nat) :
    ∀ h : ForHeader, visits (forHeader level h) = Walk.shown (Walk.forHeader depth h)
  | .infinite => by simp
  | .cond x => by simp [visits_expr _ depth]
  | .clause init cond post => by
    simp [visits_optionalStmt (level + 1) depth init, visits_optionalExpr _ depth,
      visits_optionalStmt (level + 1) depth post]
  | .range s => by simp [-stmt, -Walk.stmt, visits_stmt level depth s]

end

end

theorem visits_file (level depth : Nat) (f : File) :
    visits (file level f) = Walk.shown (Walk.file depth f) := by
  simp [file, Walk.file, Visit.isShown, visits_declList _ (depth + 1)]

end Outline

end GoSource
