/-
What stands in a node, one level deep.

A part of a node is whatever of it has a place in the source: a node, a
name, the path of an import, or a mark, which is an operator, a bracket, an
ellipsis, an assignment sign or a keyword that the tree keeps. `Visit.parts`
lists them in the order of the source. Blocks, signatures and whatever else
is no node is taken apart, so that the nodes among the parts are exactly
the next stops of a walk (`Visit.walk_eq`).

Properties of all nodes of a tree are stated over the walk
(`Visit.Everywhere`) and shown part by part (`Visit.Everywhere.of_parts`).
-/
import GoSource.Syntax.Walk
import Mathlib.Data.List.Basic

namespace GoSource

/-- Something that has a place in the source. -/
inductive Part where
  | node (v : Visit)
  | name (n : Ident)
  | path (text : String) (span : Span)
  | mark (span : Span)

/-- Where a stop of a walk stands. -/
def Visit.span : Visit → Span
  | file f => f.span
  | decl d => d.span
  | stmt s => s.span
  | expr x => x.span
  | type t => t.span
  | field f => f.span
  | param p => p.span
  | literal l => l.span

namespace Part

def span : Part → Span
  | node v => v.span
  | name n => n.span
  | path _ sp => sp
  | mark sp => sp

def node? : Part → Option Visit
  | node v => some v
  | _ => none

abbrev decl (d : Decl) : Part := node (.decl d)
abbrev stmt (s : Stmt) : Part := node (.stmt s)
abbrev expr (x : Expr) : Part := node (.expr x)
abbrev type (t : TypeExpr) : Part := node (.type t)
abbrev field (f : Field) : Part := node (.field f)
abbrev param (p : Param) : Part := node (.param p)
abbrev literal (l : Lit) : Part := node (.literal l)

end Part

-- ================================================================ parts

def Element.parts (e : Element) : List Part :=
  e.key.toList.map .expr ++ [.expr e.value]

def ParamList.parts (ps : ParamList) : List Part :=
  ps.params.map .param

def FuncResult.parts : FuncResult → List Part
  | params list => list.parts
  | type t => [.type t]

def Signature.parts (sig : Signature) : List Part :=
  sig.params.parts ++ sig.result.toList.flatMap FuncResult.parts

def InterfaceElement.parts : InterfaceElement → List Part
  | method n sig => .name n :: sig.parts
  | embedded t => [.type t]

def ArrayLength.parts : ArrayLength → List Part
  | expr x => [.expr x]
  | dots sp => [.mark sp]

def ExprForm.parts : ExprForm → List Part
  | ident n => [.name n]
  | literal lit => [.literal lit]
  | composite t elements lBrace rBrace =>
    t.toList.map .type ++ .mark lBrace :: (elements.flatMap Element.parts ++ [.mark rBrace])
  | index x lBrack i rBrack => [.expr x, .mark lBrack, .expr i, .mark rBrack]
  | slice x lBrack low high top rBrack =>
    .expr x :: .mark lBrack ::
      (low.toList.map .expr ++ (high.toList.map .expr ++ (top.toList.map .expr ++ [.mark rBrack])))
  | typeAssert x t rParen => .expr x :: (t.toList.map .type ++ [.mark rParen])
  | selector x n => [.expr x, .name n]
  | call f lParen args dots rParen =>
    .expr f :: .mark lParen :: (args.map .expr ++ (dots.toList.map .mark ++ [.mark rParen]))
  | binary _ op left right => [.expr left, .mark op, .expr right]
  | unary _ op x => [.mark op, .expr x]
  | type t => [.type t]

def TypeForm.parts : TypeForm → List Part
  | name pkg n => pkg.toList.map .name ++ [.name n]
  | array len t => len.parts ++ [.type t]
  | slice t | pointer t | chan _ t => [.type t]
  | map key t => [.type key, .type t]
  | func sig => sig.parts
  | struct fields => fields.map .field
  | interface elements => elements.flatMap InterfaceElement.parts

def FieldForm.parts (f : FieldForm) : List Part :=
  f.names.map .name ++ .type f.type :: f.tag.toList.map .literal

def ParamForm.parts (p : ParamForm) : List Part :=
  p.names.map .name ++ (p.dots.toList.map .mark ++ [.type p.type])

def ImportName.parts : ImportName → List Part
  | dot sp => [.mark sp]
  | name n => [.name n]

def ImportSpec.parts (spec : ImportSpec) : List Part :=
  spec.name.toList.flatMap ImportName.parts ++ [.path spec.path spec.pathSpan]

def Block.parts (b : Block) : List Part :=
  b.stmts.map .stmt

def ForHeader.parts : ForHeader → List Part
  | infinite => []
  | cond x => [.expr x]
  | clause init test post =>
    init.toList.map .stmt ++ (test.toList.map .expr ++ post.toList.map .stmt)
  | range s => [.stmt s]

def DeclForm.parts : DeclForm → List Part
  | imports d => .mark d.importSpan :: d.specs.flatMap ImportSpec.parts
  | const c => c.names.map .name ++ (c.type.toList.map .type ++ c.values.map .expr)
  | var v => v.names.map .name ++ (v.type.toList.map .type ++ v.values.map .expr)
  | type t => .name t.name :: (t.assign.toList.map .mark ++ [.type t.type])
  | func f =>
    .mark f.funcSpan :: .name f.name :: (f.signature.parts ++ f.body.toList.flatMap Block.parts)
  | method f =>
    .mark f.funcSpan :: (f.receiver.parts ++
      .name f.name :: (f.signature.parts ++ f.body.toList.flatMap Block.parts))

def StmtForm.parts : StmtForm → List Part
  | empty | fallthroughStmt => []
  | decl ds => ds.map .decl
  | expr x | step x _ | goStmt x | deferStmt x => [.expr x]
  | assign left _ op right => left.map .expr ++ .mark op :: right.map .expr
  | shortVar names op values => names.map .name ++ .mark op :: values.map .expr
  | range left _ x => left.map .expr ++ [.expr x]
  | send x y => [.expr x, .expr y]
  | labeled label s => [.name label, .stmt s]
  | block b => b.parts
  | ifStmt init x body other =>
    init.toList.map .stmt ++ .expr x :: (body.parts ++ other.toList.map .stmt)
  | forStmt header body => header.parts ++ body.parts
  | returnStmt xs => xs.map .expr
  | breakStmt label | continueStmt label => label.toList.map .name
  | gotoStmt label => [.name label]

def File.parts (f : File) : List Part :=
  .mark f.packageSpan :: .name f.name :: (f.imports.map .decl ++ f.decls.map .decl)

/-- What stands in a node, in the order of the source. -/
def Visit.parts : Visit → List Part
  | file f => f.parts
  | decl d => d.form.parts
  | stmt s => s.form.parts
  | expr x => x.form.parts
  | type t => t.form.parts
  | field f => f.form.parts
  | param p => p.form.parts
  | literal _ => []

/-- The nodes directly below a node. -/
def Visit.children (v : Visit) : List Visit := v.parts.filterMap Part.node?

-- ================================================================= walk

/-- A walk that begins at a stop. -/
def Visit.walk (depth : Nat) : Visit → List Step
  | file f => Walk.file depth f
  | decl d => Walk.decl depth d
  | stmt s => Walk.stmt depth s
  | expr x => Walk.expr depth x
  | type t => Walk.typeExpr depth t
  | field f => Walk.field depth f
  | param p => Walk.param depth p
  | literal l => [⟨depth, .literal l⟩]

/-- The walks over all nodes of some parts, one after the other. -/
def Part.walks (depth : Nat) (ps : List Part) : List Step :=
  (ps.filterMap node?).flatMap (·.walk depth)

namespace Part

variable {α : Type} {depth : Nat}

@[simp] theorem walks_nil : walks depth [] = [] := rfl

@[simp] theorem walks_node (v : Visit) (ps : List Part) :
    walks depth (.node v :: ps) = v.walk depth ++ walks depth ps := rfl

@[simp] theorem walks_name (n : Ident) (ps : List Part) :
    walks depth (.name n :: ps) = walks depth ps := rfl

@[simp] theorem walks_path (text : String) (sp : Span) (ps : List Part) :
    walks depth (.path text sp :: ps) = walks depth ps := rfl

@[simp] theorem walks_mark (sp : Span) (ps : List Part) :
    walks depth (.mark sp :: ps) = walks depth ps := rfl

@[simp] theorem walks_append (ps qs : List Part) :
    walks depth (ps ++ qs) = walks depth ps ++ walks depth qs := by
  simp [walks]

@[simp] theorem walks_names (ns : List Ident) : walks depth (ns.map .name) = [] := by
  induction ns with
  | nil => rfl
  | cons n ns ih => simpa using ih

@[simp] theorem walks_marks (sps : List Span) : walks depth (sps.map .mark) = [] := by
  induction sps with
  | nil => rfl
  | cons sp sps ih => simpa using ih

end Part

namespace Walk

variable {depth : Nat}

@[simp] theorem walks_exprs (xs : List Expr) :
    Part.walks depth (xs.map .expr) = exprList depth xs := by
  induction xs with
  | nil => rfl
  | cons x xs ih => simp [exprList, ih, Visit.walk]

@[simp] theorem exprList_toList (x : Option Expr) :
    exprList depth x.toList = optionalExpr depth x := by
  cases x <;> simp [optionalExpr, exprList]

@[simp] theorem walks_type (t : Option TypeExpr) :
    Part.walks depth (t.toList.map .type) = optionalType depth t := by
  cases t <;> simp [optionalType, Visit.walk]

@[simp] theorem walks_elements (es : List Element) :
    Part.walks depth (es.flatMap Element.parts) = elementList depth es := by
  induction es with
  | nil => rfl
  | cons e es ih =>
    obtain ⟨key, value⟩ := e
    simp [elementList, element, Element.parts, ih, Visit.walk]

@[simp] theorem walks_params (ps : ParamList) :
    Part.walks depth ps.parts = paramList depth ps := by
  obtain ⟨ps, sp⟩ := ps
  unfold ParamList.parts paramList
  induction ps with
  | nil => rfl
  | cons p ps ih => simpa [paramNodes, Visit.walk] using ih

@[simp] theorem walks_signature (sig : Signature) :
    Part.walks depth sig.parts = signature depth sig := by
  obtain ⟨ps, result, sp⟩ := sig
  obtain _ | _ | _ := result <;>
    simp [Signature.parts, signature, optionalResult, funcResult, FuncResult.parts, Visit.walk]

@[simp] theorem walks_fields (fs : List Field) :
    Part.walks depth (fs.map .field) = fieldList depth fs := by
  induction fs with
  | nil => rfl
  | cons f fs ih => simp [fieldList, ih, Visit.walk]

@[simp] theorem walks_interface (es : List InterfaceElement) :
    Part.walks depth (es.flatMap InterfaceElement.parts) = interfaceElements depth es := by
  induction es with
  | nil => rfl
  | cons e es ih =>
    cases e <;> simp [interfaceElements, interfaceElement, InterfaceElement.parts, ih, Visit.walk]

@[simp] theorem walks_tag (lit : Option Lit) :
    Part.walks depth (lit.toList.map .literal) = lit.toList.map fun l => ⟨depth, .literal l⟩ := by
  cases lit <;> simp [Visit.walk]

@[simp] theorem walks_stmts (ss : List Stmt) :
    Part.walks depth (ss.map .stmt) = stmtList depth ss := by
  induction ss with
  | nil => rfl
  | cons s ss ih => simp [stmtList, ih, Visit.walk]

@[simp] theorem stmtList_toList (s : Option Stmt) :
    stmtList depth s.toList = optionalStmt depth s := by
  cases s <;> simp [optionalStmt, stmtList]

@[simp] theorem walks_block (b : Block) : Part.walks depth b.parts = block depth b := by
  obtain ⟨ss, sp⟩ := b
  rw [block]
  exact walks_stmts ss

@[simp] theorem walks_body (b : Option Block) :
    Part.walks depth (b.toList.flatMap Block.parts) = optionalBlock depth b := by
  cases b <;> simp [optionalBlock]

@[simp] theorem walks_header (h : ForHeader) :
    Part.walks depth h.parts = forHeader depth h := by
  cases h <;> simp [ForHeader.parts, forHeader, Visit.walk]

@[simp] theorem walks_decls (ds : List Decl) :
    Part.walks depth (ds.map .decl) = declList depth ds := by
  induction ds with
  | nil => rfl
  | cons d ds ih => simp [declList, ih, Visit.walk]

@[simp] theorem walks_imports (specs : List ImportSpec) :
    Part.walks depth (specs.flatMap ImportSpec.parts) = [] := by
  induction specs with
  | nil => rfl
  | cons spec specs ih =>
    obtain ⟨_ | _ | _, path, sp⟩ := spec <;> simpa [ImportSpec.parts, ImportName.parts] using ih

@[simp] theorem walks_exprForm (form : ExprForm) :
    Part.walks depth form.parts = exprForm depth form := by
  cases form <;> simp [ExprForm.parts, exprForm, Visit.walk]

@[simp] theorem walks_typeForm (form : TypeForm) :
    Part.walks depth form.parts = typeForm depth form := by
  cases form with
  | array len t => cases len <;> simp [TypeForm.parts, typeForm, ArrayLength.parts, arrayLength,
      Visit.walk]
  | name pkg n => simp [TypeForm.parts, typeForm]
  | _ => simp [TypeForm.parts, typeForm, Visit.walk]

@[simp] theorem walks_declForm (form : DeclForm) :
    Part.walks depth form.parts = declForm depth form := by
  cases form with
  | func f =>
    obtain ⟨doc, sp, n, sig, body⟩ := f
    simp [DeclForm.parts, declForm, functionDecl]
  | method f =>
    obtain ⟨doc, sp, receiver, n, sig, body⟩ := f
    simp [DeclForm.parts, declForm, methodDecl]
  | _ => simp [DeclForm.parts, declForm, Visit.walk]

@[simp] theorem walks_stmtForm (form : StmtForm) :
    Part.walks depth form.parts = stmtForm depth form := by
  cases form <;> simp [StmtForm.parts, stmtForm, Visit.walk]

end Walk

/-- A walk stops at a node and goes on to the nodes among its parts. -/
theorem Visit.walk_eq (depth : Nat) (v : Visit) :
    v.walk depth = ⟨depth, v⟩ :: v.children.flatMap (·.walk (depth + 1)) := by
  change v.walk depth = ⟨depth, v⟩ :: Part.walks (depth + 1) v.parts
  cases v with
  | file f => simp [walk, Walk.file, parts, File.parts]
  | field f =>
    obtain ⟨i, sp, names, t, tag⟩ := f
    simp [walk, Walk.field, Walk.fieldForm, parts, FieldForm.parts]
  | param p =>
    obtain ⟨i, sp, names, dots, t⟩ := p
    simp [walk, Walk.param, Walk.paramForm, parts, ParamForm.parts]
  | literal l => rfl
  | decl d =>
    obtain ⟨i, sp, form⟩ := d
    simp [walk, Walk.decl, parts]
  | stmt s =>
    obtain ⟨i, sp, form⟩ := s
    simp [walk, Walk.stmt, parts]
  | expr x =>
    obtain ⟨i, sp, form⟩ := x
    simp [walk, Walk.expr, parts]
  | type t =>
    obtain ⟨i, sp, form⟩ := t
    simp [walk, Walk.typeExpr, parts]

-- ======================================================== all of some parts

namespace Part

/-- A property of all nodes among some parts. -/
def All (P : Visit → Prop) (ps : List Part) : Prop := ∀ v, .node v ∈ ps → P v

variable {P Q : Visit → Prop} {ps qs : List Part}

theorem All.imp (h : All P ps) (hPQ : ∀ v, P v → Q v) : All Q ps := fun v hv => hPQ v (h v hv)

@[simp] theorem all_nil : All P [] := nofun

@[simp] theorem all_node {v : Visit} : All P (.node v :: ps) ↔ P v ∧ All P ps := by
  simp only [All, List.mem_cons, node.injEq]
  grind

@[simp] theorem all_name {i : Ident} : All P (.name i :: ps) ↔ All P ps := by
  simp [All]

@[simp] theorem all_path {text : String} {sp : Span} :
    All P (.path text sp :: ps) ↔ All P ps := by
  simp [All]

@[simp] theorem all_mark {sp : Span} : All P (.mark sp :: ps) ↔ All P ps := by
  simp [All]

@[simp] theorem all_append : All P (ps ++ qs) ↔ All P ps ∧ All P qs := by
  simp only [All, List.mem_append]
  grind

@[simp] theorem all_map {α : Type} {f : α → Part} {xs : List α} :
    All P (xs.map f) ↔ ∀ x ∈ xs, All P [f x] := by
  simp only [All, List.mem_map, List.mem_singleton]
  grind

@[simp] theorem all_flatMap {α : Type} {f : α → List Part} {xs : List α} :
    All P (xs.flatMap f) ↔ ∀ x ∈ xs, All P (f x) := by
  simp only [All, List.mem_flatMap]
  grind

end Part

-- ============================================================ everywhere

/-- A property of the node and of all nodes below it. -/
def Visit.Everywhere (P : Visit → Prop) (v : Visit) : Prop :=
  ∀ depth, ∀ step ∈ v.walk depth, P step.visit

theorem Visit.Everywhere.of_parts {P : Visit → Prop} {v : Visit} (hv : P v)
    (h : ∀ c, .node c ∈ v.parts → c.Everywhere P) : v.Everywhere P := by
  intro depth step hstep
  rw [walk_eq, List.mem_cons, List.mem_flatMap] at hstep
  obtain rfl | ⟨c, hc, hstep⟩ := hstep
  · exact hv
  · obtain ⟨p, hp, hnode⟩ := List.mem_filterMap.mp hc
    cases p with
    | node w =>
      obtain rfl : w = c := by simpa [Part.node?] using hnode
      exact h w hp (depth + 1) step hstep
    | _ => simp [Part.node?] at hnode

-- ============================================================ descent

namespace Visit

variable {v c : Visit} {P : Visit → Prop}

/-- The walk from a child is part of the walk from above. -/
theorem walk_child_sublist (hc : c ∈ v.children) (depth : Nat) :
    (c.walk (depth + 1)).Sublist (v.walk depth).tail := by
  rw [walk_eq depth v, List.tail_cons, List.flatMap_def]
  exact List.sublist_flatten_of_mem (List.mem_map_of_mem hc)

/-- The nodes that a walk stops at do not depend on where it begins to
count. -/
theorem walk_visits (v : Visit) (d e : Nat) :
    (v.walk d).map (·.visit) = (v.walk e).map (·.visit) := by
  -- A walk goes on with shorter walks, so the induction is on its length.
  induction hn : (v.walk d).length using Nat.strongRecOn generalizing v d e with
  | _ n ih =>
    have hchild : ∀ c ∈ v.children,
        (c.walk (d + 1)).map (·.visit) = (c.walk (e + 1)).map (·.visit) := by
      intro c hc
      have hle := (walk_child_sublist hc d).length_le
      rw [List.length_tail, hn] at hle
      have hpos : 0 < n := by
        rw [← hn, walk_eq]
        exact Nat.zero_lt_succ _
      exact ih _ (by omega) c (d + 1) (e + 1) rfl
    rw [walk_eq d, walk_eq e, List.map_cons, List.map_cons, List.map_flatMap, List.map_flatMap,
      List.flatMap_congr hchild]

/-- The node and all nodes below it, in the order of a walk. -/
def below (v : Visit) : List Visit := (v.walk 0).map (·.visit)

theorem below_eq (v : Visit) : v.below = v :: v.children.flatMap below := by
  rw [below, walk_eq, List.map_cons, List.map_flatMap]
  exact congrArg _ (List.flatMap_congr fun c _ => walk_visits c 1 0)

theorem everywhere_iff : v.Everywhere P ↔ ∀ w ∈ v.below, P w := by
  constructor
  · intro h w hw
    obtain ⟨step, hstep, rfl⟩ := List.mem_map.mp hw
    exact h 0 step hstep
  · intro h depth step hstep
    have hw : step.visit ∈ v.below := by
      rw [below, walk_visits v 0 depth]
      exact List.mem_map_of_mem hstep
    exact h _ hw

/-- What holds everywhere in a node holds everywhere in its children. -/
theorem Everywhere.child (h : v.Everywhere P) (hc : c ∈ v.children) : c.Everywhere P := by
  rw [everywhere_iff] at h ⊢
  intro w hw
  rw [below_eq] at h
  exact h w (List.mem_cons_of_mem _ (List.mem_flatMap.mpr ⟨c, hc, hw⟩))

/-- There are fewer nodes below a child. -/
theorem length_below_lt (hc : c ∈ v.children) : c.below.length < v.below.length := by
  have hle := (walk_child_sublist hc 0).length_le
  have hlen : (c.walk 1).length = c.below.length := by
    rw [below, ← walk_visits c 1 0, List.length_map]
  rw [List.length_tail, hlen] at hle
  have hpos : 0 < (v.walk 0).length := by
    rw [walk_eq]
    exact Nat.zero_lt_succ _
  rw [below.eq_1 v, List.length_map]
  omega

/-- Induction from the children of a node to the node. -/
theorem from_children (v : Visit) (step : ∀ v : Visit, (∀ c ∈ v.children, P c) → P v) : P v := by
  induction hn : v.below.length using Nat.strongRecOn generalizing v with
  | _ n ih => exact step v fun c hc => ih _ (hn ▸ length_below_lt hc) c rfl

end Visit

end GoSource
