/-
Nothing is lost, doubled or moved.

The leaves of a tree are the names, the literals and the import paths in
it, in the order of the source. Much of a tree is read twice, as an
expression first and then as a type, a label or the name of a variable;
and parameters are names before they are types. That the tree nevertheless
has one leaf for each token that is a name or a literal, and in the same
order, is what is shown here (`parseSource_leaves`).

A leaf is more than its place: a name has the text of its token, a literal
the value that the text denotes, and a path the text that this value
encodes, with bytes that encode nothing replaced (`Leaf.Stands`).
-/
import GoSource.Proofs.Contents.Holds
import GoSource.Proofs.Derivation.Parse

namespace GoSource

-- =============================================================== leaves

/-- What a tree keeps of the text of a source. -/
inductive Leaf where
  | ident (name : Ident)
  | literal (lit : Lit)
  | path (text : String) (span : Span)

namespace Leaf

def ident? : Leaf → Option Ident
  | ident n => some n
  | _ => none

/-- A leaf that stands for a literal in the source. -/
def isLiteral : Leaf → Bool
  | ident _ => false
  | _ => true

/-- The leaf stands for the token. -/
def Stands : Leaf → Token → Prop
  | ident n, t => t.kind = .ident ∧ n = ⟨t.text, t.span⟩
  | literal lit, t => Literal.decode t.kind t.text = some lit.form ∧ lit.span = t.span
  | path text sp, t => ∃ bytes, Literal.decode t.kind t.text = some (.string bytes) ∧
      text = Text.lossyText bytes ∧ sp = t.span

end Leaf

namespace Leaves

def idents (names : List Ident) : List Leaf := names.map .ident

mutual

def expr : Node ExprForm → List Leaf
  | ⟨_, _, form⟩ => exprForm form

def exprForm : ExprForm → List Leaf
  | .ident n => [.ident n]
  | .literal lit => [.literal lit]
  | .composite t elements _ _ => optionalType t ++ elementList elements
  | .index x _ i _ => expr x ++ expr i
  | .slice x _ low high top _ =>
    expr x ++ (optionalExpr low ++ (optionalExpr high ++ optionalExpr top))
  | .typeAssert x t _ => expr x ++ optionalType t
  | .selector x n => expr x ++ [.ident n]
  | .call f _ args _ _ => expr f ++ exprList args
  | .binary _ _ left right => expr left ++ expr right
  | .unary _ _ x => expr x
  | .type t => typeExpr t

def optionalExpr : Option (Node ExprForm) → List Leaf
  | none => []
  | some x => expr x

def exprList : List (Node ExprForm) → List Leaf
  | [] => []
  | x :: xs => expr x ++ exprList xs

def element : Element → List Leaf
  | ⟨key, value⟩ => optionalExpr key ++ expr value

def elementList : List Element → List Leaf
  | [] => []
  | e :: es => element e ++ elementList es

def typeExpr : Node TypeForm → List Leaf
  | ⟨_, _, form⟩ => typeForm form

def typeForm : TypeForm → List Leaf
  | .name pkg n => idents pkg.toList ++ [.ident n]
  | .array length t => arrayLength length ++ typeExpr t
  | .slice t => typeExpr t
  | .pointer t => typeExpr t
  | .map key t => typeExpr key ++ typeExpr t
  | .chan _ t => typeExpr t
  | .func sig => signature sig
  | .struct fields => fieldList fields
  | .interface elements => interfaceElements elements

def optionalType : Option (Node TypeForm) → List Leaf
  | none => []
  | some t => typeExpr t

def arrayLength : ArrayLength → List Leaf
  | .expr x => expr x
  | .dots _ => []

def field : Node FieldForm → List Leaf
  | ⟨_, _, ⟨names, t, tag⟩⟩ => idents names ++ (typeExpr t ++ tag.toList.map .literal)

def fieldList : List (Node FieldForm) → List Leaf
  | [] => []
  | f :: fs => field f ++ fieldList fs

def param : Node ParamForm → List Leaf
  | ⟨_, _, ⟨names, _, t⟩⟩ => idents names ++ typeExpr t

def paramNodes : List (Node ParamForm) → List Leaf
  | [] => []
  | p :: ps => param p ++ paramNodes ps

def paramList : ParamList → List Leaf
  | ⟨params, _⟩ => paramNodes params

def signature : Signature → List Leaf
  | ⟨params, result, _⟩ => paramList params ++ optionalResult result

def optionalResult : Option FuncResult → List Leaf
  | none => []
  | some r => funcResult r

def funcResult : FuncResult → List Leaf
  | .params list => paramList list
  | .type t => typeExpr t

def interfaceElement : InterfaceElement → List Leaf
  | .method n sig => .ident n :: signature sig
  | .embedded t => typeExpr t

def interfaceElements : List InterfaceElement → List Leaf
  | [] => []
  | e :: es => interfaceElement e ++ interfaceElements es

end

def importName : ImportName → List Leaf
  | .dot _ => []
  | .name n => [.ident n]

def importSpec (spec : ImportSpec) : List Leaf :=
  spec.name.toList.flatMap importName ++ [.path spec.path spec.pathSpan]

mutual

def decl : Node DeclForm → List Leaf
  | ⟨_, _, form⟩ => declForm form

def declForm : DeclForm → List Leaf
  | .imports d => d.specs.flatMap importSpec
  | .const c => idents c.names ++ (optionalType c.type ++ exprList c.values)
  | .var v => idents v.names ++ (optionalType v.type ++ exprList v.values)
  | .type t => .ident t.name :: typeExpr t.type
  | .func d => functionDecl d
  | .method d => methodDecl d

def functionDecl : FunctionDecl → List Leaf
  | ⟨_, _, n, sig, body⟩ => .ident n :: (signature sig ++ optionalBlock body)

def methodDecl : MethodDecl → List Leaf
  | ⟨_, _, receiver, n, sig, body⟩ =>
    paramList receiver ++ .ident n :: (signature sig ++ optionalBlock body)

def declList : List (Node DeclForm) → List Leaf
  | [] => []
  | d :: ds => decl d ++ declList ds

def block : Block → List Leaf
  | ⟨stmts, _⟩ => stmtList stmts

def optionalBlock : Option Block → List Leaf
  | none => []
  | some b => block b

def stmt : Node StmtForm → List Leaf
  | ⟨_, _, form⟩ => stmtForm form

def stmtForm : StmtForm → List Leaf
  | .empty => []
  | .decl decls => declList decls
  | .expr x => expr x
  | .assign left _ _ right => exprList left ++ exprList right
  | .shortVar names _ values => idents names ++ exprList values
  | .range left _ x => exprList left ++ expr x
  | .send x y => expr x ++ expr y
  | .step x _ => expr x
  | .labeled label s => .ident label :: stmt s
  | .block b => block b
  | .ifStmt init x body other => optionalStmt init ++ (expr x ++ (block body ++ optionalStmt other))
  | .forStmt header body => forHeader header ++ block body
  | .goStmt x => expr x
  | .deferStmt x => expr x
  | .returnStmt xs => exprList xs
  | .breakStmt label => idents label.toList
  | .continueStmt label => idents label.toList
  | .gotoStmt label => [.ident label]
  | .fallthroughStmt => []

def optionalStmt : Option (Node StmtForm) → List Leaf
  | none => []
  | some s => stmt s

def stmtList : List (Node StmtForm) → List Leaf
  | [] => []
  | s :: ss => stmt s ++ stmtList ss

def forHeader : ForHeader → List Leaf
  | .infinite => []
  | .cond x => expr x
  | .clause init test post => optionalStmt init ++ (optionalExpr test ++ optionalStmt post)
  | .range s => stmt s

end

def file (f : File) : List Leaf :=
  .ident f.name :: (declList f.imports ++ declList f.decls)

end Leaves

/-- The leaves of a node and of everything below it. -/
def Visit.leaves : Visit → List Leaf
  | file f => Leaves.file f
  | decl d => Leaves.decl d
  | stmt s => Leaves.stmt s
  | expr x => Leaves.expr x
  | type t => Leaves.typeExpr t
  | field f => Leaves.field f
  | param p => Leaves.param p
  | literal lit => [.literal lit]

-- ================================================================ parts

def Part.leaves : Part → List Leaf
  | node v => v.leaves
  | name n => [.ident n]
  | path text sp => [.path text sp]
  | mark _ => []

namespace Leaves

@[simp] theorem parts_names (ns : List Ident) :
    (ns.map .name).flatMap Part.leaves = idents ns := by
  induction ns with
  | nil => rfl
  | cons n ns ih => simp [idents, Part.leaves, ih]

@[simp] theorem parts_marks (sps : List Span) : (sps.map .mark).flatMap Part.leaves = [] := by
  induction sps with
  | nil => rfl
  | cons sp sps ih => simp [Part.leaves]

@[simp] theorem parts_exprs (xs : List Expr) :
    (xs.map .expr).flatMap Part.leaves = exprList xs := by
  induction xs with
  | nil => rfl
  | cons x xs ih => simp [exprList, Part.leaves, Visit.leaves, ih]

@[simp] theorem exprList_toList (x : Option Expr) : exprList x.toList = optionalExpr x := by
  cases x <;> simp [optionalExpr, exprList]

@[simp] theorem parts_type (t : Option TypeExpr) :
    (t.toList.map .type).flatMap Part.leaves = optionalType t := by
  cases t <;> simp [optionalType, Part.leaves, Visit.leaves]

@[simp] theorem parts_elements (es : List Element) :
    (es.flatMap Element.parts).flatMap Part.leaves = elementList es := by
  induction es with
  | nil => rfl
  | cons e es ih =>
    obtain ⟨key, value⟩ := e
    simp only [List.flatMap_cons, List.flatMap_append, ih]
    simp [elementList, element, Element.parts, Part.leaves, Visit.leaves]

@[simp] theorem parts_params (ps : ParamList) :
    ps.parts.flatMap Part.leaves = paramList ps := by
  obtain ⟨ps, sp⟩ := ps
  unfold ParamList.parts paramList
  induction ps with
  | nil => rfl
  | cons p ps ih => simpa [paramNodes, Part.leaves, Visit.leaves] using ih

@[simp] theorem parts_signature (sig : Signature) :
    sig.parts.flatMap Part.leaves = signature sig := by
  obtain ⟨ps, result, sp⟩ := sig
  obtain _ | _ | _ := result <;>
    simp [Signature.parts, signature, optionalResult, funcResult, FuncResult.parts, Part.leaves,
      Visit.leaves]

@[simp] theorem parts_fields (fs : List Field) :
    (fs.map .field).flatMap Part.leaves = fieldList fs := by
  induction fs with
  | nil => rfl
  | cons f fs ih => simp [fieldList, Part.leaves, Visit.leaves, ih]

@[simp] theorem parts_interface (es : List InterfaceElement) :
    (es.flatMap InterfaceElement.parts).flatMap Part.leaves = interfaceElements es := by
  induction es with
  | nil => rfl
  | cons e es ih =>
    simp only [List.flatMap_cons, List.flatMap_append, ih]
    cases e <;> simp [interfaceElements, interfaceElement, InterfaceElement.parts, Part.leaves,
      Visit.leaves]

@[simp] theorem parts_literals (lits : List Lit) :
    (lits.map .literal).flatMap Part.leaves = lits.map .literal := by
  induction lits with
  | nil => rfl
  | cons lit lits ih => simp [Part.leaves, Visit.leaves, ih]

@[simp] theorem parts_stmts (ss : List Stmt) :
    (ss.map .stmt).flatMap Part.leaves = stmtList ss := by
  induction ss with
  | nil => rfl
  | cons s ss ih => simp [stmtList, Part.leaves, Visit.leaves, ih]

@[simp] theorem stmtList_toList (s : Option Stmt) : stmtList s.toList = optionalStmt s := by
  cases s <;> simp [optionalStmt, stmtList]

@[simp] theorem parts_block (b : Block) : b.parts.flatMap Part.leaves = block b := by
  obtain ⟨ss, sp⟩ := b
  rw [block]
  exact parts_stmts ss

@[simp] theorem parts_body (b : Option Block) :
    (b.toList.flatMap Block.parts).flatMap Part.leaves = optionalBlock b := by
  cases b <;> simp [optionalBlock]

@[simp] theorem parts_header (h : ForHeader) : h.parts.flatMap Part.leaves = forHeader h := by
  cases h <;> simp [ForHeader.parts, forHeader, Part.leaves, Visit.leaves]

@[simp] theorem parts_decls (ds : List Decl) :
    (ds.map .decl).flatMap Part.leaves = declList ds := by
  induction ds with
  | nil => rfl
  | cons d ds ih => simp [declList, Part.leaves, Visit.leaves, ih]

@[simp] theorem parts_imports (specs : List ImportSpec) :
    (specs.flatMap ImportSpec.parts).flatMap Part.leaves = specs.flatMap importSpec := by
  induction specs with
  | nil => rfl
  | cons spec specs ih =>
    simp only [List.flatMap_cons, List.flatMap_append, ih]
    obtain ⟨_ | _ | _, path, sp⟩ := spec <;>
      simp [ImportSpec.parts, ImportName.parts, importSpec, importName, Part.leaves]

@[simp] theorem parts_exprForm (form : ExprForm) :
    form.parts.flatMap Part.leaves = exprForm form := by
  cases form <;> simp [ExprForm.parts, exprForm, Part.leaves, Visit.leaves]

@[simp] theorem parts_typeForm (form : TypeForm) :
    form.parts.flatMap Part.leaves = typeForm form := by
  cases form with
  | array len t =>
    cases len <;> simp [TypeForm.parts, typeForm, ArrayLength.parts, arrayLength, Part.leaves,
      Visit.leaves]
  | name pkg n => simp [TypeForm.parts, typeForm, Part.leaves]
  | _ => simp [TypeForm.parts, typeForm, Part.leaves, Visit.leaves]

@[simp] theorem parts_declForm (form : DeclForm) :
    form.parts.flatMap Part.leaves = declForm form := by
  cases form with
  | func f =>
    obtain ⟨doc, sp, n, sig, body⟩ := f
    simp [DeclForm.parts, declForm, functionDecl, Part.leaves]
  | method f =>
    obtain ⟨doc, sp, receiver, n, sig, body⟩ := f
    simp [DeclForm.parts, declForm, methodDecl, Part.leaves]
  | _ => simp [DeclForm.parts, declForm, Part.leaves, Visit.leaves]

@[simp] theorem parts_stmtForm (form : StmtForm) :
    form.parts.flatMap Part.leaves = stmtForm form := by
  cases form <;> simp [StmtForm.parts, stmtForm, Part.leaves, Visit.leaves]

end Leaves

/-- The leaves of a node are those of its parts, one after the other. A
literal is itself a leaf. -/
theorem Visit.leaves_eq {v : Visit} (hv : ∀ lit, v ≠ .literal lit) :
    v.leaves = v.parts.flatMap Part.leaves := by
  cases v with
  | file f => simp [leaves, Leaves.file, parts, File.parts, Part.leaves]
  | field f =>
    obtain ⟨i, sp, names, t, tag⟩ := f
    simp [leaves, Leaves.field, parts, FieldForm.parts, Part.leaves]
  | param p =>
    obtain ⟨i, sp, names, dots, t⟩ := p
    simp [leaves, Leaves.param, parts, ParamForm.parts, Part.leaves]
  | literal l => exact absurd rfl (hv l)
  | decl d =>
    obtain ⟨i, sp, form⟩ := d
    simp [leaves, Leaves.decl, parts]
  | stmt s =>
    obtain ⟨i, sp, form⟩ := s
    simp [leaves, Leaves.stmt, parts]
  | expr x =>
    obtain ⟨i, sp, form⟩ := x
    simp [leaves, Leaves.expr, parts]
  | type t =>
    obtain ⟨i, sp, form⟩ := t
    simp [leaves, Leaves.typeExpr, parts]

-- =============================================================== tokens

/-- The leaves stand for the names and literals among the tokens. -/
def Spells (ls : List Leaf) (ts : List Token) : Prop :=
  List.Forall₂ Leaf.Stands ls (ts.filter (·.kind.isLeaf))

namespace Spells

variable {ls ms : List Leaf} {ts us : List Token} {l : Leaf} {t : Token}

theorem append (h : Spells ls ts) (h' : Spells ms us) : Spells (ls ++ ms) (ts ++ us) := by
  unfold Spells
  rw [List.filter_append]
  exact List.rel_append h h'

theorem skip (ht : t.kind.isLeaf = false) : Spells [] [t] := by
  unfold Spells
  rw [List.filter_cons_of_neg (by simp [ht])]
  exact .nil

theorem isKind_of_decode {k : Token.Kind} {text : String} {v : Literal}
    (h : Literal.decode k text = some v) : Literal.isKind k = true := by
  cases k <;> first | rfl | cases h

/-- A leaf that stands for a token is a name if the token is one, and else
stands for a literal. -/
theorem cases_of_stands (h : l.Stands t) :
    l = .ident ⟨t.text, t.span⟩ ∧ t.kind = .ident ∨
      l.ident? = none ∧ l.isLiteral = true ∧ Literal.isKind t.kind = true := by
  cases l with
  | ident n =>
    obtain ⟨hk, rfl⟩ := h
    exact .inl ⟨rfl, hk⟩
  | literal lit => exact .inr ⟨rfl, rfl, isKind_of_decode h.1⟩
  | path text sp =>
    obtain ⟨bytes, hv, -⟩ := h
    exact .inr ⟨rfl, rfl, isKind_of_decode hv⟩

theorem isLeaf_of_stands (h : l.Stands t) : t.kind.isLeaf = true := by
  unfold Token.Kind.isLeaf
  obtain ⟨-, hk⟩ | ⟨-, -, hk⟩ := cases_of_stands h
  · simp [hk]
  · simp [hk]

theorem take (h : l.Stands t) : Spells [l] [t] := by
  have hfilter : [t].filter (·.kind.isLeaf) = [t] := by simp [isLeaf_of_stands h]
  unfold Spells
  rw [hfilter]
  exact .cons h .nil

end Spells

/-- The leaves of the parts that tokens hold stand for those tokens. -/
theorem Holds.spells {ts : List Token} {ps : List Part} (h : Holds ts ps) :
    Spells (ps.flatMap Part.leaves) ts := by
  induction h with
  | nil => exact .nil
  | append _ _ ih ih' =>
    rw [List.flatMap_append]
    exact ih.append ih'
  | skip ht | mark ht => exact .skip ht
  | name ht => exact .take ⟨ht, rfl⟩
  | literal hv => exact .take ⟨hv, rfl⟩
  | path hv => exact .take ⟨_, hv, rfl, rfl⟩
  | spanned _ _ _ hv ih => rwa [List.flatMap_singleton, Part.leaves, Visit.leaves_eq hv]
  | @joined _ v _ hne _ ih =>
    have hv : ∀ lit, v ≠ .literal lit := by
      rintro _ rfl
      exact hne rfl
    rwa [List.flatMap_singleton, Part.leaves, Visit.leaves_eq hv]
  | empty ht => exact .skip ht

-- ================================================================ roots

/-- What a root consists of. -/
def Root.visits : Root → List Visit
  | expr x => [.expr x]
  | decls ds => ds.map .decl
  | file f => [.file f]
  | stmts ss => ss.map .stmt
  | stmt s => [.stmt s]

/-- The names, literals and import paths of a whole tree. -/
def Root.leaves (root : Root) : List Leaf := root.visits.flatMap Visit.leaves

/-- The names that occur in a tree. -/
def Root.idents (root : Root) : List Ident := root.leaves.filterMap Leaf.ident?

/-- The literals and import paths of a tree. -/
def Root.literals (root : Root) : List Leaf := root.leaves.filter Leaf.isLiteral

/-- The tokens of a whole input hold the root that they are read as. -/
theorem ReadAs.holds {entry : Entry} {ts : List Token} {root : Root}
    (h : ReadAs entry ts root) : Holds ts (root.visits.map .node) := by
  have semi : ∀ {ts cs : List Token} {ps : List Part}, Holds ts ps → Possibly .semi cs →
      Holds (ts ++ cs) ps := by
    intro ts cs ps hts hcs
    have := hts.append (.possibly hcs rfl)
    rwa [List.append_nil] at this
  cases h with
  | expression hx hcs => exact semi hx.holds hcs
  | declarations h =>
    rw [Root.visits, List.map_map]
    exact h.holds
  | file h => exact h.holds
  | statements h =>
    rw [Root.visits, List.map_map]
    exact h.holds
  | typeSwitchGuard h _ hcs => exact semi (.draftNode h h.holds) hcs

theorem ReadAs.spells {entry : Entry} {ts : List Token} {root : Root}
    (h : ReadAs entry ts root) : Spells root.leaves ts := by
  have := h.holds.spells
  rwa [List.flatMap_map] at this

/-- What is left of the tokens if only leaves of one sort are kept. -/
theorem filter_isLeaf {p : Token → Bool} {ts : List Token}
    (hp : ∀ t, p t = true → t.kind.isLeaf = true) :
    ts.filter p = (ts.filter (·.kind.isLeaf)).filter p := by
  rw [List.filter_filter]
  refine List.filter_congr fun t _ => ?_
  cases h : p t with
  | false => rfl
  | true => rw [hp t h]; rfl

/-- The names are the identifiers. -/
theorem Spells.idents {ls : List Leaf} {ts : List Token} (h : Spells ls ts) :
    ls.filterMap Leaf.ident? = (ts.filter (·.kind = .ident)).map fun t => ⟨t.text, t.span⟩ := by
  rw [filter_isLeaf fun t ht => by simp_all [Token.Kind.isLeaf]]
  unfold Spells at h
  generalize ts.filter (·.kind.isLeaf) = us at h
  induction h with
  | nil => rfl
  | @cons l t ls us hl _ ih =>
    obtain ⟨rfl, hk⟩ | ⟨hl, -, hk⟩ := cases_of_stands hl
    · simp [Leaf.ident?, hk, ih]
    · have hne : t.kind ≠ .ident := fun heq => by simp [heq, Literal.isKind] at hk
      simp [hl, hne, ih]

/-- And the other leaves stand for the literals. -/
theorem Spells.literals {ls : List Leaf} {ts : List Token} (h : Spells ls ts) :
    List.Forall₂ Leaf.Stands (ls.filter Leaf.isLiteral)
      (ts.filter fun t => Literal.isKind t.kind) := by
  rw [filter_isLeaf fun t ht => by simp [Token.Kind.isLeaf, ht]]
  refine List.rel_filter (fun {l t} hl => ?_) h
  obtain ⟨rfl, hk⟩ | ⟨-, hl, hk⟩ := cases_of_stands hl
  · simp [Leaf.isLiteral, hk, Literal.isKind]
  · simp [hl, hk]

/-- A tree that is parsed from a source has the names of that source, and
its literals, each once and in the order in which they stand there. -/
theorem parseSource_leaves {source : String} {entry : Entry} {maxDepth : Nat} {arena : Arena}
    {root : Root} (h : (parseSource source entry maxDepth arena).1 = .ok root) :
    root.idents = ((Token.Stream.ofSource source).tokens.filter (·.kind = .ident)).map
        (fun t => ⟨t.text, t.span⟩) ∧
      List.Forall₂ Leaf.Stands root.literals
        ((Token.Stream.ofSource source).tokens.filter fun t => Literal.isKind t.kind) := by
  have hread := parseStream_reads (Token.Stream.ofSource_proper source) h
  exact ⟨hread.spells.idents, hread.spells.literals⟩

/-- A composite literal, whose type is a name read as an operand first. -/
theorem parseSource_leaves_composite :
    ∃ root, (parseSource "p.T\x7bx: 1, y\x7d" .expression 30 .empty).1 = .ok root ∧
      root.idents = ((Token.Stream.ofSource "p.T\x7bx: 1, y\x7d").tokens.filter
        (·.kind = .ident)).map (fun t => ⟨t.text, t.span⟩) ∧
      List.Forall₂ Leaf.Stands root.literals
        ((Token.Stream.ofSource "p.T\x7bx: 1, y\x7d").tokens.filter
          fun t => Literal.isKind t.kind) := by
  have hok : (parseSource "p.T\x7bx: 1, y\x7d" .expression 30 .empty).1.toOption.isSome = true := by
    decide +kernel
  cases h : (parseSource "p.T\x7bx: 1, y\x7d" .expression 30 .empty).1 with
  | error e =>
    rw [h] at hok
    exact nomatch hok
  | ok root => exact ⟨root, rfl, parseSource_leaves h⟩

end GoSource
