/-
What shape the nodes of a tree have.

The types of trees admit more than is ever parsed: a slice with a third
bound and no second one, a receiver list of two, a range clause among the
statements of a block. `Visit.WellShaped` says of a node what those who
read trees rely on: the form of the node itself, and which of its children
may be literals without a type, empty statements or range clauses.

Whatever can be derived has these shapes (`Derives.shaped`). A phrase is
read as something of which more can be said than that its nodes are well
shaped, such as that it is a call or that there is at least one
(`Phrase.Shaped`): the node around it needs this for its own shape.
-/
import GoSource.Proofs.Contents.Placement

namespace GoSource

open GoSource.Parser

-- ================================================================ forms

/-- `{...}`: a composite literal whose type is left out. -/
def ExprForm.isElided : ExprForm → Bool
  | composite none _ _ _ => true
  | _ => false

def ExprForm.isCall : ExprForm → Bool
  | call _ _ _ _ _ => true
  | _ => false

def TypeForm.isName : TypeForm → Bool
  | name _ _ => true
  | _ => false

/-- The type of a composite literal. -/
def TypeForm.isLiteralType : TypeForm → Bool
  | name _ _ | array _ _ | slice _ | map _ _ | struct _ => true
  | _ => false

/-- The type of an embedded field: a name, or a pointer to one. -/
def TypeForm.isEmbeddable : TypeForm → Bool
  | name _ _ => true
  | pointer t => t.form.isName
  | _ => false

def Literal.isString : Literal → Bool
  | string _ => true
  | _ => false

namespace StmtForm

def isEmpty : StmtForm → Bool
  | empty => true
  | _ => false

def isRange : StmtForm → Bool
  | range _ _ _ => true
  | _ => false

def isShortVar : StmtForm → Bool
  | shortVar _ _ _ => true
  | _ => false

/-- What may follow `else`. -/
def isBranch : StmtForm → Bool
  | ifStmt _ _ _ _ | block _ => true
  | _ => false

end StmtForm

namespace StmtForm

variable {form : StmtForm}

theorem isRange_eq_false (h : ∀ left define x, form ≠ range left define x) :
    form.isRange = false := by
  cases form <;> first | rfl | exact absurd rfl (h _ _ _)

theorem isShortVar_eq_false (h : ∀ names op xs, form ≠ shortVar names op xs) :
    form.isShortVar = false := by
  cases form <;> first | rfl | exact absurd rfl (h _ _ _)

theorem isEmpty_eq_false (h : form.isRange = true) : form.isEmpty = false := by
  cases form <;> first | rfl | exact nomatch h

end StmtForm

-- =============================================================== shapes

def ExprForm.WellShaped : ExprForm → Prop
  | slice _ _ _ high top _ => top.isSome = true → high.isSome = true
  | call _ _ args dots _ => dots.isSome = true → args ≠ []
  | composite t _ _ _ => ∀ u ∈ t, u.form.isLiteralType = true
  | _ => True

def FieldForm.WellShaped (f : FieldForm) : Prop :=
  (f.isEmbedded = true → f.type.form.isEmbeddable = true) ∧
    ∀ lit ∈ f.tag, lit.form.isString = true

def ForHeader.WellShaped : ForHeader → Prop
  | range s => s.form.isRange = true
  | clause _ _ post => ∀ s ∈ post, s.form.isShortVar = false
  | _ => True

def StmtForm.WellShaped : StmtForm → Prop
  | ifStmt _ _ _ other => ∀ s ∈ other, s.form.isBranch = true
  | forStmt header _ => header.WellShaped
  | goStmt x | deferStmt x => x.form.isCall = true
  | _ => True

def DeclForm.WellShaped : DeclForm → Prop
  | const c => c.names ≠ [] ∧ (c.values ≠ [] ∨ c.type = none ∧ 0 < c.iota)
  | var v => v.type ≠ none ∨ v.values ≠ []
  | method m => ∃ p, m.receiver.params = [p] ∧ p.form.names.length ≤ 1 ∧ p.form.dots = none
  | _ => True

def File.WellShaped (f : File) : Prop :=
  (∀ d ∈ f.imports, d.form.isImport = true) ∧ ∀ d ∈ f.decls, d.form.isImport = false

namespace Visit

/-- The form of the node itself. -/
def FormWellShaped : Visit → Prop
  | file f => f.WellShaped
  | decl d => d.form.WellShaped
  | stmt s => s.form.WellShaped
  | expr x => x.form.WellShaped
  | field f => f.form.WellShaped
  | type _ | param _ | literal _ => True

/-- The elements of a composite literal. -/
def elements : Visit → List Element
  | expr ⟨_, _, .composite _ es _ _⟩ => es
  | _ => []

/-- What a label labels. -/
def labeled : Visit → Option Stmt
  | stmt ⟨_, _, .labeled _ s⟩ => some s
  | _ => none

/-- The parts of a node, without the range clause of a loop. -/
def besidesClause : Visit → List Part
  | stmt ⟨_, _, .forStmt (.range _) body⟩ => body.parts
  | v => v.parts

/-- The shape of a node, and where among its children something may stand
that may not stand anywhere. -/
structure WellShaped (v : Visit) : Prop where
  form : v.FormWellShaped
  /-- A literal leaves its type out only as the key or the value of an
  element. -/
  elided : ∀ x, .expr x ∈ v.parts → x.form.isElided = true →
    ∃ e ∈ v.elements, e.key = some x ∨ e.value = x
  /-- Only a label labels nothing. -/
  empty : ∀ s, .stmt s ∈ v.parts → s.form.isEmpty = true → v.labeled = some s
  /-- Only the header of a loop is a range clause. -/
  range : ∀ s, .stmt s ∈ v.besidesClause → s.form.isRange = false

/-- None of the things that may not stand anywhere. -/
def IsPlain : Visit → Prop
  | expr x => x.form.isElided = false
  | stmt s => s.form.isEmpty = false ∧ s.form.isRange = false
  | _ => True

/-- A node whose children may stand anywhere. -/
theorem WellShaped.of_plain {v : Visit} (hform : v.FormWellShaped) (h : Part.All IsPlain v.parts) :
    v.WellShaped := by
  refine ⟨hform, fun x hx helided => ?_, fun s hs hempty => ?_, fun s hs => ?_⟩
  · have hplain : x.form.isElided = false := h _ hx
    exact absurd helided (by simp [hplain])
  · have hplain : s.form.isEmpty = false ∧ s.form.isRange = false := h _ hs
    exact absurd hempty (by simp [hplain.1])
  · have hmem : .stmt s ∈ v.parts := by
      unfold besidesClause at hs
      split at hs
      · exact List.mem_append_right _ hs
      · exact hs
    have hplain : s.form.isEmpty = false ∧ s.form.isRange = false := h _ hmem
    exact hplain.2

/-- The elements of a composite literal may leave out their types. -/
theorem wellShaped_composite {i : Nat} {sp l r : Span} {t : Option TypeExpr} {es : List Element}
    (ht : ∀ u ∈ t, u.form.isLiteralType = true) :
    (expr ⟨i, sp, .composite t es l r⟩).WellShaped := by
  refine ⟨ht, fun x hx _ => ?_, fun s hs => ?_, fun s hs => ?_⟩
  · have hmem : ∃ e ∈ es, .expr x ∈ e.parts := by
      simpa [parts, ExprForm.parts] using hx
    obtain ⟨e, he, hx⟩ := hmem
    refine ⟨e, he, ?_⟩
    simpa [Element.parts, eq_comm] using hx
  · simp [parts, ExprForm.parts, Element.parts] at hs
  · simp [besidesClause, parts, ExprForm.parts, Element.parts] at hs

theorem everywhere_composite {i : Nat} {sp l r : Span} {t : Option TypeExpr} {es : List Element}
    (ht : ∀ u ∈ t, u.form.isLiteralType = true ∧ (type u).Everywhere WellShaped)
    (hes : ∀ e ∈ es, Part.All (Everywhere WellShaped) e.parts) :
    (expr ⟨i, sp, .composite t es l r⟩).Everywhere WellShaped := by
  have hparts : Part.All (Everywhere WellShaped) (ExprForm.composite t es l r).parts := by
    simpa [ExprForm.parts] using And.intro (fun u hu => (ht u hu).2) hes
  exact .of_parts (wellShaped_composite fun u hu => (ht u hu).1) hparts

/-- A label may label nothing. -/
theorem wellShaped_labeled {i : Nat} {sp : Span} {label : Ident} {s : Stmt}
    (hs : s.form.isRange = false) : (stmt ⟨i, sp, .labeled label s⟩).WellShaped := by
  refine ⟨trivial, fun x hx => ?_, fun t ht _ => ?_, fun t ht => ?_⟩
  · simp [parts, StmtForm.parts] at hx
  · obtain rfl : t = s := by simpa [parts, StmtForm.parts] using ht
    rfl
  · obtain rfl : t = s := by simpa [besidesClause, parts, StmtForm.parts] using ht
    exact hs

/-- The header of a loop may be a range clause. -/
theorem wellShaped_for {i : Nat} {sp : Span} {header : ForHeader} {body : Block}
    (hform : header.WellShaped)
    (hheader : (∀ s, header ≠ .range s) → Part.All IsPlain header.parts)
    (hbody : Part.All IsPlain body.parts) : (stmt ⟨i, sp, .forStmt header body⟩).WellShaped := by
  cases header with
  | range s =>
    refine ⟨hform, fun x hx helided => ?_, fun t ht hempty => ?_, fun t ht => (hbody _ ht).2⟩
    · have hx : .expr x ∈ body.parts := by
        simpa [parts, StmtForm.parts, ForHeader.parts] using hx
      have hplain : x.form.isElided = false := hbody _ hx
      exact absurd helided (by simp [hplain])
    · have hplain : t.form.isEmpty = false := by
        obtain rfl | ht : t = s ∨ .stmt t ∈ body.parts := by
          simpa [parts, StmtForm.parts, ForHeader.parts] using ht
        · exact StmtForm.isEmpty_eq_false hform
        · exact (hbody _ ht).1
      exact absurd hempty (by simp [hplain])
  | infinite | cond | clause =>
    exact .of_plain hform (Part.all_append.mpr ⟨hheader (by simp), hbody⟩)

end Visit

-- ============================================================== derived

/-- The nodes among some parts may stand anywhere, and all that is below
them is well shaped. -/
abbrev Part.Regular (ps : List Part) : Prop :=
  All (fun v => v.IsPlain ∧ v.Everywhere Visit.WellShaped) ps

/-- Parts below which everything is well shaped. -/
abbrev Part.Shaped (ps : List Part) : Prop := All (Visit.Everywhere Visit.WellShaped) ps

namespace Part

variable {ps : List Part}

theorem Regular.plain (h : Regular ps) : All Visit.IsPlain ps := h.imp fun _ h => h.1

theorem Regular.shaped (h : Regular ps) : Shaped ps := h.imp fun _ h => h.2

/-- A node with regular parts. -/
theorem Regular.everywhere {v : Visit} (h : Regular v.parts) (hform : v.FormWellShaped) :
    v.Everywhere Visit.WellShaped :=
  .of_parts (.of_plain hform h.plain) h.shaped

end Part

/-- What a phrase is read as. The default is that it may stand anywhere. -/
def Phrase.Shaped : (p : Phrase) → p.Result → Prop
  | .optional p, a => ∀ b ∈ a, p.Shaped b
  | .terminated _ p, as | .listed _ p, as => ∀ a ∈ as, p.Shaped a
  | .separated _ p, as => as ≠ [] ∧ ∀ a ∈ as, p.Shaped a
  | .arguments, args =>
    (args.2.isSome = true → args.1 ≠ []) ∧ ∀ x ∈ args.1, Part.Regular [.expr x]
  | .part, x => Part.Shaped [.expr x]
  | .element, e => Part.Shaped e.parts
  | .typeName, t => t.form.isName = true ∧ Part.Regular [.type t]
  | .embedded, t => t.form.isEmbeddable = true ∧ Part.Regular [.type t]
  | .tag, lit => lit.form.isString = true ∧ Part.Regular [.literal lit]
  | .simple sm _, d =>
    (∀ i, (Visit.stmt ⟨i, d.span, d.form⟩).Everywhere Visit.WellShaped) ∧
      d.form.isEmpty = false ∧ (sm.rangeAllowed = false → d.form.isRange = false) ∧
      ∀ x, d.form = .expr x → Part.Regular [.expr x]
  | .ifStmt _, s | .otherwise _, s => s.form.isBranch = true ∧ Part.Regular [.stmt s]
  | .post _, s => s.form.isShortVar = false ∧ Part.Regular [.stmt s]
  | .ifHeader _, r => (∀ s ∈ r.1, Part.Regular [.stmt s]) ∧ Part.Regular [.expr r.2]
  | .forHeader _, h =>
    h.WellShaped ∧ Part.Shaped h.parts ∧ ((∀ s, h ≠ .range s) → Part.Regular h.parts)
  | .forStmt _, form =>
    form.isEmpty = false ∧ form.isRange = false ∧
      ∀ i sp, (Visit.stmt ⟨i, sp, form⟩).Everywhere Visit.WellShaped
  | .values _, xs => xs ≠ [] ∧ ∀ x ∈ xs, Part.Regular [.expr x]
  | .spec _ _, form =>
    form.isImport = false ∧ ∀ i sp, (Visit.decl ⟨i, sp, form⟩).Everywhere Visit.WellShaped
  | .specDecl _ _, d | .function, d => d.form.isImport = false ∧ Part.Regular [.decl d]
  | .importDecl, d => d.form.isImport = true ∧ Part.Regular [.decl d]
  | .group _ _, ds => ∀ d ∈ ds, d.form.isImport = false ∧ Part.Regular [.decl d]
  | .topLevel imports others, ds | .decls imports others, ds => ∀ d ∈ ds,
    (d.form.isImport = true → imports = true) ∧ (d.form.isImport = false → others = true) ∧
      Part.Regular [.decl d]
  | p, a => Part.Regular (p.parts a)


theorem TypeForm.isEmbeddable_of_isName {form : TypeForm} (h : form.isName = true) :
    form.isEmbeddable = true := by
  cases form <;> first | rfl | exact nomatch h

theorem isReceiver_iff {ps : List Param} (h : Grammar.isReceiver ps = true) :
    ∃ p, ps = [p] ∧ p.form.names.length ≤ 1 ∧ p.form.dots = none := by
  unfold Grammar.isReceiver at h
  split at h
  · next p => exact ⟨p, rfl, by simpa using h⟩
  · exact nomatch h

namespace Part.Regular

variable {i : Nat} {sp : Span}

theorem node {v : Visit} (h : Regular v.parts) (hform : v.FormWellShaped) (hplain : v.IsPlain) :
    Regular [.node v] := by
  simpa using ⟨hplain, h.everywhere hform⟩

theorem expr {form : ExprForm} (h : Regular form.parts) (hform : form.WellShaped)
    (helided : form.isElided = false) : Regular [.expr ⟨i, sp, form⟩] :=
  node h hform helided

theorem type {form : TypeForm} (h : Regular form.parts) : Regular [.type ⟨i, sp, form⟩] :=
  node h trivial trivial

theorem stmt {form : StmtForm} (h : Regular form.parts) (hform : form.WellShaped)
    (hplain : form.isEmpty = false ∧ form.isRange = false) : Regular [.stmt ⟨i, sp, form⟩] :=
  node h hform hplain

end Part.Regular

/-- A simple statement with regular parts, wherever it stands. -/
theorem Phrase.shaped_simple {sm : SimpleMode} {m : Mode} {sp : Span} {form : StmtForm}
    (h : Part.Regular form.parts) (hform : form.WellShaped) (hempty : form.isEmpty = false)
    (hrange : sm.rangeAllowed = true ∨ form.isRange = false) :
    (simple sm m).Shaped ⟨form, sp⟩ := by
  refine ⟨fun i => Part.Regular.everywhere h hform, hempty, fun hsm => ?_, fun x hx => ?_⟩
  · rcases hrange with hrange | hrange
    · rw [hsm] at hrange
      exact nomatch hrange
    · exact hrange
  · obtain rfl : form = .expr x := hx
    exact h

/-- A brace after an operand opens a literal of a type that has some. -/
theorem NamesType.isLiteralType {x : Expr} {t : TypeExpr} {inHeader : Bool} (h : NamesType x t)
    (hopens : Grammar.opensComposite inHeader x = true) : t.form.isLiteralType = true := by
  cases h with
  | @type i sp t =>
    obtain ⟨j, sp', form⟩ := t
    cases form <;> first | rfl | exact nomatch hopens
  | plain => rfl
  | qualified => rfl

/-- The type that an expression names is one of its parts, or a new node
with none below it. -/
theorem NamesType.everywhere {x : Expr} {t : TypeExpr} (h : NamesType x t)
    (hx : Part.Regular [.expr x]) : (Visit.type t).Everywhere Visit.WellShaped := by
  cases h with
  | type => exact (hx _ (List.mem_singleton_self _)).2.child (List.mem_singleton_self _)
  | plain | qualified =>
    exact Part.Regular.everywhere (by simp [Visit.parts, TypeForm.parts]) trivial

theorem Phrase.shaped_labeled {sm : SimpleMode} {m : Mode} {sp : Span} {label : Ident} {s : Stmt}
    (hrange : s.form.isRange = false) (h : (Visit.stmt s).Everywhere Visit.WellShaped) :
    (simple sm m).Shaped ⟨.labeled label s, sp⟩ := by
  refine ⟨fun i => .of_parts (Visit.wellShaped_labeled hrange) ?_, rfl, fun _ => rfl, nofun⟩
  have hparts : Part.Shaped [.name label, .stmt s] := by simpa using h
  exact hparts

/-- A simple statement that is no range clause becomes a statement. -/
theorem Phrase.regular_simple {sm : SimpleMode} {m : Mode} {i : Nat} {sp : Span} {form : StmtForm}
    (h : (simple sm m).Shaped ⟨form, sp⟩) (hrange : form.isRange = false) :
    Part.Regular [.stmt ⟨i, sp, form⟩] :=
  Part.all_node.mpr ⟨⟨⟨h.2.1, hrange⟩, h.1 i⟩, Part.all_nil⟩

/-- Values that may be missing. -/
theorem Phrase.regular_values {m : Mode} {values : Option (List Expr)}
    (h : (optional (.values m)).Shaped values) :
    ∀ x ∈ values.getD [], Part.Regular [.expr x] := by
  cases values with
  | none => exact nofun
  | some xs => exact (h xs rfl).2

attribute [local simp] Phrase.Shaped Phrase.parts ExprForm.parts Element.parts

theorem Derives.shaped {p : Phrase} {ts : List Token} {a : p.Result} (h : Derives p ts a) :
    p.Shaped a := by
  induction h with
  | name | mark | importPath | dotImport => simp [ImportName.parts]
  | literal => exact .node Part.all_nil trivial trivial
  | tag => exact ⟨rfl, .node Part.all_nil trivial trivial⟩
  -- sequences
  | absent | terminatedNil | noStmts | noDecls => rintro _ ⟨⟩
  | present _ ih => exact fun b hb => Option.some.inj hb ▸ ih
  | terminatedSnoc _ _ _ _ ih ih' =>
    exact List.forall_mem_append.mpr ⟨ih, List.forall_mem_singleton.mpr ih'⟩
  | separated _ _ ih ih' =>
    exact ⟨by simp, List.forall_mem_append.mpr ⟨ih, List.forall_mem_singleton.mpr ih'⟩⟩
  | listedClosed _ ih => exact ih
  | listedOpen _ ih => exact ih.2
  -- operands
  | identExpr => exact .expr (by simp) trivial rfl
  | literalExpr _ ih | typeExpr _ _ ih => exact .expr ih trivial rfl
  | parenExpr _ _ _ ih => exact ih
  -- what is attached to an operand
  | selector _ _ _ ih | typeGuard _ _ _ _ _ _ ih => exact .expr (by simpa using ih) trivial rfl
  | typeAssert _ _ _ _ _ ihx iht | index _ _ _ _ ihx iht =>
    exact .expr (by simpa using And.intro ihx iht) trivial rfl
  | slice _ _ _ _ _ _ ihx ihlow ihhigh =>
    refine .expr (by simpa using And.intro ihx (And.intro ihlow ihhigh)) ?_ rfl
    rintro ⟨⟩
  | fullSlice _ _ _ _ _ _ _ _ ihx ihlow ihhigh ihtop =>
    refine .expr ?_ (fun _ => rfl) rfl
    simpa using And.intro ihx (And.intro ihlow (And.intro ihhigh ihtop))
  | call _ _ _ _ ihx ihargs =>
    exact .expr (by simpa using And.intro ihx ihargs.2) ihargs.1 rfl
  | composite _ hopens ht _ _ _ ihx ihes =>
    have htype := And.intro (ht.isLiteralType hopens) (ht.everywhere ihx)
    refine Part.all_node.mpr ⟨⟨rfl, Visit.everywhere_composite ?_ ihes⟩, Part.all_nil⟩
    exact fun u hu => Option.some.inj hu ▸ htype
  | plainArguments _ ih => exact ⟨by simp, ih⟩
  | spreadArguments _ _ _ ih => exact ⟨fun _ => ih.1, ih.2⟩
  | elided _ _ _ ih =>
    exact Part.all_node.mpr ⟨Visit.everywhere_composite (by simp) ih, Part.all_nil⟩
  | part _ ih => exact Part.Regular.shaped ih
  | value _ ih => simpa using ih
  | keyed _ _ _ ihk ihv => simpa using And.intro ihk ihv
  -- operators
  | unary _ _ ih => exact .expr (by simpa using ih) trivial rfl
  | binary _ _ _ ihx ihy => exact .expr (by simpa using And.intro ihx ihy) trivial rfl
  -- types
  | plainName | qualifiedName => exact ⟨rfl, .type (by simp [TypeForm.parts])⟩
  | typeName _ ih | embeddedElement _ ih => exact ih.2
  | parenType _ _ _ ih => exact ih
  | arrayType _ _ _ _ ihn iht => exact .type (Part.all_append.mpr ⟨ihn, iht⟩)
  | mapType _ _ _ _ _ ihn iht => exact .type (by simpa [TypeForm.parts] using And.intro ihn iht)
  | sliceType _ _ _ ih => exact .type ih
  | pointerType _ _ ih | chanType _ _ ih | sendChan _ _ _ ih | receiveChan _ _ _ ih
  | funcType _ _ ih => exact .type ih
  | structType _ _ _ _ ih => exact .type (Part.all_map.mpr ih)
  | interfaceType _ _ _ _ ih => exact .type (Part.all_flatMap.mpr ih)
  | exprLength _ ih => exact ih
  | dotsLength => simp [ArrayLength.parts]
  -- parameters
  | typeParam _ _ _ ih | namedParam _ _ _ _ _ ih =>
    exact .node (by simpa [Visit.parts, ParamForm.parts] using ih) trivial trivial
  | params _ _ ih => exact Part.all_map.mpr ih
  | parameters _ _ _ ih => exact ih
  | signature _ _ ihp ihr => exact Part.all_append.mpr ⟨ihp, by simpa using ihr⟩
  | paramsResult _ ih | typeResult _ ih => exact ih
  -- fields and methods
  | namedField _ _ _ ihn iht ihg =>
    refine .node ?_ ⟨?_, fun lit hlit => (ihg lit hlit).1⟩ trivial
    · simpa [Visit.parts, FieldForm.parts] using And.intro iht fun lit hlit => (ihg lit hlit).2
    · simp [FieldForm.isEmbedded, ihn.1]
  | embeddedField _ _ iht ihg =>
    refine .node ?_ ⟨fun _ => iht.1, fun lit hlit => (ihg lit hlit).1⟩ trivial
    simpa [Visit.parts, FieldForm.parts] using And.intro iht.2 fun lit hlit => (ihg lit hlit).2
  | embeddedName _ ih => exact ⟨TypeForm.isEmbeddable_of_isName ih.1, ih.2⟩
  | embeddedPointer _ _ ih => exact ⟨ih.1, .type ih.2⟩
  | methodElement _ _ _ ih => simpa [InterfaceElement.parts] using ih
  -- simple statements
  | rangeOnly hsm _ _ ih =>
    exact Phrase.shaped_simple (by simpa [StmtForm.parts] using ih) trivial rfl (.inl hsm)
  | labeled _ _ _ _ _ _ ih =>
    obtain ⟨⟨⟨-, hrange⟩, hs⟩, -⟩ := Part.all_node.mp ih
    exact Phrase.shaped_labeled hrange hs
  | labeledEmpty =>
    exact Phrase.shaped_labeled rfl (Part.Regular.everywhere Part.all_nil trivial)
  | send _ _ _ ihx ihy =>
    exact Phrase.shaped_simple (by simpa [StmtForm.parts] using And.intro ihx ihy) trivial rfl
      (.inr rfl)
  | step _ _ ih | exprStmt _ ih => exact Phrase.shaped_simple ih trivial rfl (.inr rfl)
  | shortVar _ _ _ _ _ ih =>
    exact Phrase.shaped_simple (by simpa [StmtForm.parts] using ih.2) trivial rfl (.inr rfl)
  | assign _ _ _ ihl ihr =>
    exact Phrase.shaped_simple (by simpa [StmtForm.parts] using And.intro ihl.2 ihr.2) trivial rfl
      (.inr rfl)
  | defineRange hsm _ _ _ _ _ ihl ihx | assignRange hsm _ _ _ _ ihl ihx =>
    exact Phrase.shaped_simple (by simpa [StmtForm.parts] using And.intro ihl.2 ihx) trivial rfl
      (.inl hsm)
  -- statements
  | simpleStmt _ ih => exact Phrase.regular_simple ih (ih.2.2.1 rfl)
  | declStmt _ ih => exact .stmt (Part.all_map.mpr fun d hd => (ih d hd).2) trivial ⟨rfl, rfl⟩
  | blockStmt _ ih => exact .stmt ih trivial ⟨rfl, rfl⟩
  | ifStmt _ ih => exact ih.2
  | forStmt _ ih => exact Part.all_node.mpr ⟨⟨⟨ih.1, ih.2.1⟩, ih.2.2 _ _⟩, Part.all_nil⟩
  | goStmt _ _ ih | deferStmt _ _ ih => exact .stmt ih rfl ⟨rfl, rfl⟩
  | returnNothing | fallthroughStmt => exact .stmt Part.all_nil trivial ⟨rfl, rfl⟩
  | returnStmt _ _ ih => exact .stmt (Part.all_map.mpr ih.2) trivial ⟨rfl, rfl⟩
  | breakStmt | continueStmt | gotoStmt =>
    exact .stmt (by simp [StmtForm.parts]) trivial ⟨rfl, rfl⟩
  -- blocks
  | skipSemi _ _ ih | stmtsClosed _ ih | block _ _ _ ih => exact ih
  | endedStmt _ _ _ ih ihs | stmtsOpen _ _ ih ihs =>
    have hparts := Part.all_append.mpr ⟨ih, ihs⟩
    simpa using hparts
  -- conditionals
  | condOnly _ ih => exact ⟨by simp, ih.2.2.2 _ rfl⟩
  | initCond _ _ _ ih ihx =>
    refine ⟨fun s hs => Option.some.inj hs ▸ ?_, ihx.2.2.2 _ rfl⟩
    exact Phrase.regular_simple ih (ih.2.2.1 rfl)
  | conditional _ _ _ _ _ ihh ihb ihe =>
    refine ⟨rfl, .stmt ?_ (fun s hs => (ihe s hs).1) ⟨rfl, rfl⟩⟩
    have hrest := And.intro ihb fun s hs => (ihe s hs).2
    simpa [StmtForm.parts] using And.intro ihh.1 (And.intro ihh.2 hrest)
  | elseIf _ _ ih => exact ih
  | elseBlock _ _ ih => exact ⟨rfl, .stmt ih trivial ⟨rfl, rfl⟩⟩
  -- loops
  | infinite => exact ⟨trivial, Part.all_nil, fun _ => Part.all_nil⟩
  | forCond _ ih =>
    have hx := ih.2.2.2 _ rfl
    exact ⟨trivial, hx.shaped, fun _ => hx⟩
  | forRange _ ih =>
    exact ⟨rfl, Part.all_node.mpr ⟨ih.1 _, Part.all_nil⟩, fun h => absurd rfl (h _)⟩
  | forClause _ _ _ _ _ ihi ihx ihp =>
    suffices hparts : Part.Regular (ForHeader.parts _) from
      ⟨fun s hs => (ihp s hs).1, hparts.shaped, fun _ => hparts⟩
    simpa [ForHeader.parts] using And.intro ihi (And.intro ihx fun s hs => (ihp s hs).2)
  | init _ hform ih => exact Phrase.regular_simple ih (StmtForm.isRange_eq_false hform)
  | post _ hform ih =>
    exact ⟨StmtForm.isShortVar_eq_false hform, Phrase.regular_simple ih (ih.2.2.1 rfl)⟩
  | loop _ _ _ _ ihh ihb =>
    refine ⟨rfl, rfl, fun i sp => .of_parts (Visit.wellShaped_for ihh.1 ?_ ?_) ?_⟩
    · exact fun h => (ihh.2.2 h).plain
    · exact Part.Regular.plain ihb
    · exact Part.all_append.mpr ⟨ihh.2.1, Part.Regular.shaped ihb⟩
  -- declarations
  | values _ _ ih => exact ih
  | constSpec _ _ _ hnone ihn iht ihv =>
    refine ⟨rfl, fun i sp => Part.Regular.everywhere ?_ ⟨ihn.1, ?_⟩⟩
    · have hvalues := Phrase.regular_values ihv
      simpa [Visit.parts, DeclForm.parts] using And.intro iht hvalues
    · cases hv : ‹Option (List Expr)› with
      | none => exact .inr ((hnone hv).imp_right Nat.pos_of_ne_zero)
      | some values => exact .inl (ihv _ hv).1
  | varSpec _ _ _ hnone ihn iht ihv =>
    refine ⟨rfl, fun i sp => Part.Regular.everywhere ?_ ?_⟩
    · have hvalues := Phrase.regular_values ihv
      simpa [Visit.parts, DeclForm.parts] using And.intro iht hvalues
    · cases hv : ‹Option (List Expr)› with
      | none => exact .inl (hnone hv)
      | some values => exact .inr (ihv _ hv).1
  | typeSpec _ _ _ ihn iha iht =>
    refine ⟨rfl, fun i sp => Part.Regular.everywhere ?_ trivial⟩
    simpa [Visit.parts, DeclForm.parts] using iht
  | specDecl _ ih => exact ⟨ih.1, Part.all_node.mpr ⟨⟨trivial, ih.2 _ _⟩, Part.all_nil⟩⟩
  | loneSpec _ _ _ ih =>
    refine List.forall_mem_singleton.mpr ⟨ih.1, Part.all_node.mpr ⟨?_, Part.all_nil⟩⟩
    exact ⟨trivial, ih.2 _ _⟩
  | specGroup _ _ _ _ _ ih => exact ih
  | func _ _ _ _ ihn ihs ihb =>
    refine ⟨rfl, .node ?_ trivial trivial⟩
    simpa [Visit.parts, DeclForm.parts] using And.intro ihs ihb
  | method _ _ hreceiver _ _ _ ihr ihn ihs ihb =>
    refine ⟨rfl, .node ?_ (isReceiver_iff hreceiver) trivial⟩
    simpa [Visit.parts, DeclForm.parts] using And.intro ihr (And.intro ihs ihb)
  -- imports
  | nameImport _ ih => exact ih
  | importSpec _ _ ihn ihp =>
    exact Part.all_append.mpr ⟨Part.all_flatMap.mpr (by simpa using ihn), ihp⟩
  | loneImport _ _ ih =>
    refine ⟨rfl, .node ?_ trivial trivial⟩
    simpa [Visit.parts, DeclForm.parts] using ih
  | importGroup _ _ _ _ ih =>
    refine ⟨rfl, .node ?_ trivial trivial⟩
    simpa [Visit.parts, DeclForm.parts] using ih
  -- files
  | topImport _ ih =>
    exact List.forall_mem_singleton.mpr ⟨fun _ => rfl, fun h => by simp [ih.1] at h, ih.2⟩
  | topGroup _ ih =>
    exact fun d hd => ⟨fun h => by simp [(ih d hd).1] at h, fun _ => rfl, (ih d hd).2⟩
  | topFunction _ ih =>
    exact List.forall_mem_singleton.mpr ⟨fun h => by simp [ih.1] at h, fun _ => rfl, ih.2⟩
  | moreDecls _ _ _ ih ihm => exact List.forall_mem_append.mpr ⟨ih, ihm⟩
  | file _ _ _ _ _ _ ihi ihd =>
    refine .node ?_ ⟨fun d hd => ?_, fun d hd => ?_⟩ trivial
    · have hparts := And.intro (fun d hd => (ihi d hd).2.2) fun d hd => (ihd d hd).2.2
      simpa [Visit.parts, File.parts] using hparts
    · by_contra himport
      exact absurd ((ihi d hd).2.1 (by simpa using himport)) (by simp)
    · by_contra himport
      exact absurd ((ihd d hd).1 (by simpa using himport)) (by simp)

-- ================================================================ roots

theorem ReadAs.shaped {entry : Entry} {ts : List Token} {root : Root}
    (h : ReadAs entry ts root) : Part.Regular (root.visits.map .node) := by
  cases h with
  | expression h => exact h.shaped
  | declarations h => simpa [Root.visits] using fun d hd => (h.shaped d hd).2.2
  | file h => exact h.shaped
  | statements h =>
    have hstmts := h.shaped
    simpa [Root.visits] using hstmts
  | typeSwitchGuard h => exact Phrase.regular_simple h.shaped (h.shaped.2.2.1 rfl)

/-- The operand before the brace of a composite literal names a type. -/
theorem Grammar.toType_ok {inHeader : Bool} {x : Expr} (h : opensComposite inHeader x = true)
    (s : Parsing) : ∃ t s', toType x s = .ok t s' := by
  obtain ⟨i, sp, form⟩ := x
  cases form with
  | ident | type => exact ⟨_, _, rfl⟩
  | selector y =>
    obtain ⟨j, sp', form⟩ := y
    cases form with
    | ident => exact ⟨_, _, rfl⟩
    | _ => exact nomatch h
  | _ => exact nomatch h

/-- What is written as a string is one. -/
theorem Parser.literalValue_string {s s' : Parsing} {value : Literal} {sp : Span}
    (hk : s.current.kind = .stringLit ∨ s.current.kind = .rawStringLit)
    (h : literalValue s = .ok (value, sp) s') : ∃ bytes, value = .string bytes := by
  obtain ⟨t, s₁, ht, h⟩ := bind_eq_ok.mp h
  cases ht
  split at h
  · cases hv : Literal.decode s.current.kind s.current.text with
    | some v =>
      rw [hv] at h
      obtain ⟨_, s₂, -, h⟩ := bind_eq_ok.mp h
      cases h
      exact Grammar.decode_string hk hv
    | none =>
      rw [hv] at h
      cases h
  · exact absurd h unexpected_ne_ok

/-- In a tree that is parsed all nodes are well shaped, and the roots can
stand anywhere. Two errors are never reported: that the operand of a
composite literal is no type, and that the path of an import is no
string. -/
theorem parseStream_wellShaped (stream : Token.Stream) (entry : Entry) (maxDepth : Nat)
    (arena : Arena) :
    (∀ root, (parseStream stream entry maxDepth arena).1 = .ok root →
      (∀ step ∈ root.walk, step.visit.WellShaped) ∧ ∀ v ∈ root.visits, v.IsPlain) ∧
    (∀ inHeader x s, Grammar.opensComposite inHeader x = true →
      ∃ t s', Grammar.toType x s = .ok t s') ∧
    ∀ (s s' : Parsing) value sp,
      s.current.kind = .stringLit ∨ s.current.kind = .rawStringLit →
        literalValue s = .ok (value, sp) s' → ∃ bytes, value = .string bytes := by
  refine ⟨fun root h => ?_, fun _ _ s h => Grammar.toType_ok h s, fun _ _ _ _ hk h =>
    literalValue_string hk h⟩
  unfold parseStream at h
  split at h
  · next root' s' hs =>
    obtain rfl : root' = root := by injection h
    obtain ⟨ts, s₁, -, -, hread⟩ := entry_reads entry ready_start hs
    have hroots := hread.shaped
    refine ⟨fun step hstep => ?_, fun v hv => (hroots v (List.mem_map_of_mem hv)).1⟩
    obtain ⟨v, hv, hstep⟩ := List.mem_flatMap.mp hstep
    exact (hroots v (List.mem_map_of_mem hv)).2 0 step hstep
  · cases h

/-- A loop over a range, and in it a call with a literal in a literal. -/
theorem parseStream_wellShaped_loop :
    ∃ root, (parseStream (Token.Stream.ofSource "for range x \x7bgo f(T\x7b\x7b\x7d\x7d)\x7d")
        .statements 30 .empty).1 = .ok root ∧
      (∀ step ∈ root.walk, step.visit.WellShaped) ∧ ∀ v ∈ root.visits, v.IsPlain := by
  have hok : (parseStream (Token.Stream.ofSource "for range x \x7bgo f(T\x7b\x7b\x7d\x7d)\x7d")
      .statements 30 .empty).1.toOption.isSome = true := by
    decide +kernel
  cases h : (parseStream (Token.Stream.ofSource "for range x \x7bgo f(T\x7b\x7b\x7d\x7d)\x7d")
      .statements 30 .empty).1 with
  | error e =>
    rw [h] at hok
    exact nomatch hok
  | ok root => exact ⟨root, rfl, (parseStream_wellShaped _ _ _ _).1 root h⟩

end GoSource
