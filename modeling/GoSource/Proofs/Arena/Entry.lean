/-
What an arena records, and what it refers to.

A node is recorded under a reference: its kind and its number among those
of the kind. So the nodes that stand in a node can be looked up again, by
their references; an arena is closed (`Arena.Closed`) if this works for
whatever it records, whether a tree contains it or it was left behind: all
nodes found under their own numbers, all names interned, all lists in the
buffers of their kinds.

Arenas only grow (`Arena.GrowsTo`). What has been recorded is found in the
same place afterwards.

# Kinds

The seven sequences of nodes are one function of a kind, and so are the ten
sequences of items of lists. What is said about the arena is said for all
kinds at once, and adding to it changes the sequence of one kind.
-/
import GoSource.Proofs.Arena.Names
import GoSource.Proofs.Contents.Part
import GoSource.Syntax.Arena

namespace GoSource

-- ================================================================ nodes

/-- The kinds of nodes. -/
inductive NodeKind where
  | decl | stmt | expr | type | field | param | literal
deriving DecidableEq, Repr

/-- The number of a node among those of a kind. -/
structure Ref where
  kind : NodeKind
  number : Nat
deriving DecidableEq, Repr

/-- Under which number a node is recorded; a file is not. -/
def Visit.ref? : Visit → Option Ref
  | file _ => none
  | decl d => some ⟨.decl, d.id⟩
  | stmt s => some ⟨.stmt, s.id⟩
  | expr x => some ⟨.expr, x.id⟩
  | type t => some ⟨.type, t.id⟩
  | field f => some ⟨.field, f.id⟩
  | param p => some ⟨.param, p.id⟩
  | literal l => some ⟨.literal, l.id⟩

-- ================================================================ lists

/-- The kinds of lists. -/
inductive ListKind where
  | idents | exprs | stmts | decls | fields | params | elements | interfaceElements
  | importSpecs | docLines
deriving DecidableEq, Repr

/-- What stands in a list. -/
inductive ListItem where
  | ident (n : Ident)
  | expr (x : Expr)
  | stmt (s : Stmt)
  | decl (d : Decl)
  | field (f : Field)
  | param (p : Param)
  | element (e : Element)
  | interfaceElement (e : InterfaceElement)
  | importSpec (s : ImportSpec)
  | docLine (text : String)

/-- A list that is part of a form. -/
structure Listing where
  kind : ListKind
  items : List ListItem

namespace Listing

abbrev idents (ns : List Ident) : Listing := ⟨.idents, ns.map .ident⟩
abbrev exprs (xs : List Expr) : Listing := ⟨.exprs, xs.map .expr⟩
abbrev stmts (ss : List Stmt) : Listing := ⟨.stmts, ss.map .stmt⟩
abbrev decls (ds : List Decl) : Listing := ⟨.decls, ds.map .decl⟩
abbrev fields (fs : List Field) : Listing := ⟨.fields, fs.map .field⟩
abbrev params (ps : List Param) : Listing := ⟨.params, ps.map .param⟩
abbrev elements (es : List Element) : Listing := ⟨.elements, es.map .element⟩
abbrev interfaceElements (es : List InterfaceElement) : Listing :=
  ⟨.interfaceElements, es.map .interfaceElement⟩
abbrev importSpecs (specs : List ImportSpec) : Listing := ⟨.importSpecs, specs.map .importSpec⟩
abbrev docLines (lines : List String) : Listing := ⟨.docLines, lines.map .docLine⟩

end Listing

def ParamList.lists (ps : ParamList) : List Listing := [.params ps.params]

def FuncResult.lists : FuncResult → List Listing
  | params list => list.lists
  | type _ => []

def Signature.lists (sig : Signature) : List Listing :=
  sig.params.lists ++ sig.result.toList.flatMap FuncResult.lists

def InterfaceElement.lists : InterfaceElement → List Listing
  | method _ sig => sig.lists
  | embedded _ => []

def ExprForm.lists : ExprForm → List Listing
  | composite _ elements _ _ => [.elements elements]
  | call _ _ args _ _ => [.exprs args]
  | _ => []

def TypeForm.lists : TypeForm → List Listing
  | func sig => sig.lists
  | struct fields => [.fields fields]
  | interface elements => .interfaceElements elements :: elements.flatMap InterfaceElement.lists
  | _ => []

def FieldForm.lists (f : FieldForm) : List Listing := [.idents f.names]

def ParamForm.lists (p : ParamForm) : List Listing := [.idents p.names]

def Block.lists (b : Block) : List Listing := [.stmts b.stmts]

def DeclForm.lists : DeclForm → List Listing
  | imports d => [.docLines d.doc, .importSpecs d.specs]
  | const c => [.docLines c.doc, .idents c.names, .exprs c.values]
  | var v => [.docLines v.doc, .idents v.names, .exprs v.values]
  | type t => [.docLines t.doc]
  | func f => .docLines f.doc :: (f.signature.lists ++ f.body.toList.flatMap Block.lists)
  | method f => .docLines f.doc ::
    (f.receiver.lists ++ (f.signature.lists ++ f.body.toList.flatMap Block.lists))

def StmtForm.lists : StmtForm → List Listing
  | decl ds => [.decls ds]
  | assign left _ _ right => [.exprs left, .exprs right]
  | shortVar names _ values => [.idents names, .exprs values]
  | range left _ _ => [.exprs left]
  | block b => b.lists
  | ifStmt _ _ body _ | forStmt _ body => body.lists
  | returnStmt xs => [.exprs xs]
  | _ => []

def File.lists (f : File) : List Listing := [.decls f.imports, .decls f.decls]

/-- The lists of a node. -/
def Visit.lists : Visit → List Listing
  | file f => f.lists
  | decl d => d.form.lists
  | stmt s => s.form.lists
  | expr x => x.form.lists
  | type t => t.form.lists
  | field f => f.form.lists
  | param p => p.form.lists
  | literal _ => []

namespace ListItem

/-- What stands in an item, as in a node. -/
def parts : ListItem → List Part
  | ident n => [.name n]
  | expr x => [.expr x]
  | stmt s => [.stmt s]
  | decl d => [.decl d]
  | field f => [.field f]
  | param p => [.param p]
  | element e => e.parts
  | interfaceElement e => e.parts
  | importSpec s => s.parts
  | docLine _ => []

/-- The lists of an item. -/
def lists : ListItem → List Listing
  | interfaceElement e => e.lists
  | _ => []

end ListItem

namespace Listing

/-- What stands in the items of a list. -/
def parts (l : Listing) : List Part := l.items.flatMap ListItem.parts

/-- The lists of the items of a list. -/
def lists (l : Listing) : List Listing := l.items.flatMap ListItem.lists

section

attribute [local simp] parts lists ListItem.parts ListItem.lists List.flatMap_map

@[simp] theorem parts_idents (ns : List Ident) : (idents ns).parts = ns.map .name := by
  simp [← List.map_eq_flatMap]
@[simp] theorem parts_exprs (xs : List Expr) : (exprs xs).parts = xs.map .expr := by
  simp [← List.map_eq_flatMap]
@[simp] theorem parts_stmts (ss : List Stmt) : (stmts ss).parts = ss.map .stmt := by
  simp [← List.map_eq_flatMap]
@[simp] theorem parts_decls (ds : List Decl) : (decls ds).parts = ds.map .decl := by
  simp [← List.map_eq_flatMap]
@[simp] theorem parts_fields (fs : List Field) : (fields fs).parts = fs.map .field := by
  simp [← List.map_eq_flatMap]
@[simp] theorem parts_params (ps : List Param) : (params ps).parts = ps.map .param := by
  simp [← List.map_eq_flatMap]
@[simp] theorem parts_elements (es : List Element) :
    (elements es).parts = es.flatMap Element.parts := by simp
@[simp] theorem parts_interfaceElements (es : List InterfaceElement) :
    (interfaceElements es).parts = es.flatMap InterfaceElement.parts := by simp
@[simp] theorem parts_importSpecs (specs : List ImportSpec) :
    (importSpecs specs).parts = specs.flatMap ImportSpec.parts := by simp
@[simp] theorem parts_docLines (lines : List String) : (docLines lines).parts = [] := by simp

@[simp] theorem lists_idents (ns : List Ident) : (idents ns).lists = [] := by simp
@[simp] theorem lists_exprs (xs : List Expr) : (exprs xs).lists = [] := by simp
@[simp] theorem lists_stmts (ss : List Stmt) : (stmts ss).lists = [] := by simp
@[simp] theorem lists_decls (ds : List Decl) : (decls ds).lists = [] := by simp
@[simp] theorem lists_fields (fs : List Field) : (fields fs).lists = [] := by simp
@[simp] theorem lists_params (ps : List Param) : (params ps).lists = [] := by simp
@[simp] theorem lists_elements (es : List Element) : (elements es).lists = [] := by simp
@[simp] theorem lists_interfaceElements (es : List InterfaceElement) :
    (interfaceElements es).lists = es.flatMap InterfaceElement.lists := by simp
@[simp] theorem lists_importSpecs (specs : List ImportSpec) : (importSpecs specs).lists = [] := by
  simp
@[simp] theorem lists_docLines (lines : List String) : (docLines lines).lists = [] := by simp

end

end Listing

namespace Arena

-- ============================================================== records

/-- The nodes of a kind, in the order of their numbers. -/
def entries (a : Arena) : NodeKind → List Visit
  | .decl => a.decls.toList.map .decl
  | .stmt => a.stmts.toList.map .stmt
  | .expr => a.exprs.toList.map .expr
  | .type => a.types.toList.map .type
  | .field => a.fields.toList.map .field
  | .param => a.params.toList.map .param
  | .literal => a.literals.toList.map .literal

/-- The items of all lists of a kind. -/
def buffer (a : Arena) : ListKind → List ListItem
  | .idents => a.lists.idents.toList.map .ident
  | .exprs => a.lists.exprs.toList.map .expr
  | .stmts => a.lists.stmts.toList.map .stmt
  | .decls => a.lists.decls.toList.map .decl
  | .fields => a.lists.fields.toList.map .field
  | .params => a.lists.params.toList.map .param
  | .elements => a.lists.elements.toList.map .element
  | .interfaceElements => a.lists.interfaceElements.toList.map .interfaceElement
  | .importSpecs => a.lists.importSpecs.toList.map .importSpec
  | .docLines => a.lists.docLines.toList.map .docLine

/-- How many nodes there are. -/
def count (a : Arena) (k : NodeKind) : Nat := (a.entries k).length

def lookup (a : Arena) (r : Ref) : Option Visit := (a.entries r.kind)[r.number]?

/-- The node is found under its own reference. -/
def Holds (a : Arena) (v : Visit) : Prop := ∃ r, v.ref? = some r ∧ a.lookup r = some v

/-- The text has a number that leads back to it. -/
def Knows (a : Arena) (text : String) : Prop :=
  ∃ i, a.names.get? text = some i ∧ a.names.texts[i]? = some text

/-- The list is a range of the buffer of its kind. -/
def Lists (a : Arena) (l : Listing) : Prop := l.items <:+: a.buffer l.kind

/-- A part can be found again. -/
def Keeps (a : Arena) : Part → Prop
  | .node v => a.Holds v
  | .name n => a.Knows n.name
  | .path text _ => a.Knows text
  | .mark _ => True

/-- Parts and lists can be found again. -/
def KeepsAll (a : Arena) (ps : List Part) (ls : List Listing) : Prop :=
  (∀ p ∈ ps, a.Keeps p) ∧ ∀ l ∈ ls, a.Lists l

/-- Whatever is recorded refers to what is recorded. -/
structure Closed (a : Arena) : Prop where
  /-- The number of a node is its place. -/
  numbered : ∀ k (i : Nat) (v : Visit), (a.entries k)[i]? = some v → v.ref? = some ⟨k, i⟩
  entry : ∀ k, ∀ v ∈ a.entries k, a.KeepsAll v.parts v.lists
  item : ∀ k, ∀ it ∈ a.buffer k, a.KeepsAll it.parts it.lists

theorem closed_empty : Closed .empty := by
  refine ⟨fun k i v h => ?_, fun k v h => ?_, fun k it h => ?_⟩
  · cases k <;> simp [entries, empty] at h
  · cases k <;> simp [entries, empty] at h
  · cases k <;> simp [buffer, empty, Lists.empty] at h

-- =============================================================== growth

/-- What there is in `a` is in the same place in `b`. -/
structure GrowsTo (a b : Arena) : Prop where
  entries : ∀ k, a.entries k <+: b.entries k
  buffer : ∀ k, a.buffer k <+: b.buffer k
  texts : a.names.texts.toList <+: b.names.texts.toList
  known : ∀ text i, a.names.get? text = some i → b.names.get? text = some i

namespace GrowsTo

variable {a b c : Arena}

theorem refl (a : Arena) : a.GrowsTo a :=
  ⟨fun _ => List.prefix_rfl, fun _ => List.prefix_rfl, List.prefix_rfl, fun _ _ h => h⟩

theorem trans (h : a.GrowsTo b) (h' : b.GrowsTo c) : a.GrowsTo c :=
  ⟨fun k => (h.entries k).trans (h'.entries k), fun k => (h.buffer k).trans (h'.buffer k),
    h.texts.trans h'.texts, fun text i hi => h'.known text i (h.known text i hi)⟩

theorem count (h : a.GrowsTo b) (k : NodeKind) : a.count k ≤ b.count k := (h.entries k).length_le

theorem lookup (h : a.GrowsTo b) {r : Ref} {v : Visit} (hv : a.lookup r = some v) :
    b.lookup r = some v := by
  obtain ⟨rest, hrest⟩ := h.entries r.kind
  have hlt : r.number < (a.entries r.kind).length := (List.getElem?_eq_some_iff.mp hv).1
  rw [Arena.lookup, ← hrest, List.getElem?_append_left hlt]
  exact hv

theorem holds (h : a.GrowsTo b) {v : Visit} (hv : a.Holds v) : b.Holds v := by
  obtain ⟨r, hr, hv⟩ := hv
  exact ⟨r, hr, h.lookup hv⟩

theorem knows (h : a.GrowsTo b) {text : String} (ht : a.Knows text) : b.Knows text := by
  obtain ⟨i, hi, -⟩ := ht
  have hi := h.known text i hi
  exact ⟨i, hi, Interner.texts_of_get? hi⟩

theorem lists (h : a.GrowsTo b) {l : Listing} (hl : a.Lists l) : b.Lists l :=
  hl.trans (h.buffer l.kind).isInfix

theorem keeps (h : a.GrowsTo b) {p : Part} (hp : a.Keeps p) : b.Keeps p := by
  cases p with
  | node v => exact h.holds hp
  | name n => exact h.knows hp
  | path text sp => exact h.knows hp
  | mark sp => trivial

theorem keepsAll (h : a.GrowsTo b) {ps : List Part} {ls : List Listing} (hk : a.KeepsAll ps ls) :
    b.KeepsAll ps ls :=
  ⟨fun p hp => h.keeps (hk.1 p hp), fun l hl => h.lists (hk.2 l hl)⟩

end GrowsTo

-- =============================================================== adding

/-- One node more. -/
structure AddsNode (a : Arena) (k : NodeKind) (v : Visit) (b : Arena) : Prop where
  ref : v.ref? = some ⟨k, a.count k⟩
  entries : ∀ k', b.entries k' = if k' = k then a.entries k' ++ [v] else a.entries k'
  buffer : b.buffer = a.buffer
  names : b.names = a.names

/-- One list more. -/
structure AddsList (a : Arena) (l : Listing) (b : Arena) : Prop where
  entries : b.entries = a.entries
  buffer : ∀ k, b.buffer k = if k = l.kind then a.buffer k ++ l.items else a.buffer k
  names : b.names = a.names

/-- One name that is known. -/
structure AddsName (a : Arena) (text : String) (b : Arena) : Prop where
  entries : b.entries = a.entries
  buffer : b.buffer = a.buffer
  names : b.names = (a.names.intern text).2

variable (a : Arena) {b : Arena} {sp : Span}

theorem addDecl_adds (form : DeclForm) :
    a.AddsNode .decl (.decl (a.addDecl form sp).1) (a.addDecl form sp).2 := by
  refine ⟨?_, fun k => ?_, rfl, rfl⟩
  · simp [addDecl, nextNode, count, entries, Visit.ref?]
  · cases k <;> simp [addDecl, nextNode, entries]

theorem addStmt_adds (form : StmtForm) :
    a.AddsNode .stmt (.stmt (a.addStmt form sp).1) (a.addStmt form sp).2 := by
  refine ⟨?_, fun k => ?_, rfl, rfl⟩
  · simp [addStmt, nextNode, count, entries, Visit.ref?]
  · cases k <;> simp [addStmt, nextNode, entries]

theorem addExpr_adds (form : ExprForm) :
    a.AddsNode .expr (.expr (a.addExpr form sp).1) (a.addExpr form sp).2 := by
  refine ⟨?_, fun k => ?_, rfl, rfl⟩
  · simp [addExpr, nextNode, count, entries, Visit.ref?]
  · cases k <;> simp [addExpr, nextNode, entries]

theorem addType_adds (form : TypeForm) :
    a.AddsNode .type (.type (a.addType form sp).1) (a.addType form sp).2 := by
  refine ⟨?_, fun k => ?_, rfl, rfl⟩
  · simp [addType, nextNode, count, entries, Visit.ref?]
  · cases k <;> simp [addType, nextNode, entries]

theorem addField_adds (form : FieldForm) :
    a.AddsNode .field (.field (a.addField form sp).1) (a.addField form sp).2 := by
  refine ⟨?_, fun k => ?_, rfl, rfl⟩
  · simp [addField, nextNode, count, entries, Visit.ref?]
  · cases k <;> simp [addField, nextNode, entries]

theorem addParam_adds (form : ParamForm) :
    a.AddsNode .param (.param (a.addParam form sp).1) (a.addParam form sp).2 := by
  refine ⟨?_, fun k => ?_, rfl, rfl⟩
  · simp [addParam, nextNode, count, entries, Visit.ref?]
  · cases k <;> simp [addParam, nextNode, entries]

theorem addLiteral_adds (form : Literal) :
    a.AddsNode .literal (.literal (a.addLiteral form sp).1) (a.addLiteral form sp).2 := by
  refine ⟨?_, fun k => ?_, rfl, rfl⟩
  · simp [addLiteral, nextNode, count, entries, Visit.ref?]
  · cases k <;> simp [addLiteral, nextNode, entries]

theorem addIdents_adds (items : List Ident) : a.AddsList (.idents items) (a.addIdents items) := by
  refine ⟨rfl, fun k => ?_, rfl⟩
  cases k <;> simp [addIdents, buffer]

theorem addExprs_adds (items : List Expr) : a.AddsList (.exprs items) (a.addExprs items) := by
  refine ⟨rfl, fun k => ?_, rfl⟩
  cases k <;> simp [addExprs, buffer]

theorem addStmts_adds (items : List Stmt) : a.AddsList (.stmts items) (a.addStmts items) := by
  refine ⟨rfl, fun k => ?_, rfl⟩
  cases k <;> simp [addStmts, buffer]

theorem addDecls_adds (items : List Decl) : a.AddsList (.decls items) (a.addDecls items) := by
  refine ⟨rfl, fun k => ?_, rfl⟩
  cases k <;> simp [addDecls, buffer]

theorem addFields_adds (items : List Field) : a.AddsList (.fields items) (a.addFields items) := by
  refine ⟨rfl, fun k => ?_, rfl⟩
  cases k <;> simp [addFields, buffer]

theorem addParams_adds (items : List Param) : a.AddsList (.params items) (a.addParams items) := by
  refine ⟨rfl, fun k => ?_, rfl⟩
  cases k <;> simp [addParams, buffer]

theorem addElements_adds (items : List Element) :
    a.AddsList (.elements items) (a.addElements items) := by
  refine ⟨rfl, fun k => ?_, rfl⟩
  cases k <;> simp [addElements, buffer]

theorem addInterfaceElements_adds (items : List InterfaceElement) :
    a.AddsList (.interfaceElements items) (a.addInterfaceElements items) := by
  refine ⟨rfl, fun k => ?_, rfl⟩
  cases k <;> simp [addInterfaceElements, buffer]

theorem addImportSpecs_adds (items : List ImportSpec) :
    a.AddsList (.importSpecs items) (a.addImportSpecs items) := by
  refine ⟨rfl, fun k => ?_, rfl⟩
  cases k <;> simp [addImportSpecs, buffer]

theorem addDocLines_adds (items : List String) :
    a.AddsList (.docLines items) (a.addDocLines items) := by
  refine ⟨rfl, fun k => ?_, rfl⟩
  cases k <;> simp [addDocLines, buffer]

theorem addName_adds (text : String) : a.AddsName text (a.addName text) := ⟨rfl, rfl, rfl⟩

variable {a}

-- ========================================================== what is kept

theorem AddsNode.grows {k : NodeKind} {v : Visit} (h : a.AddsNode k v b) : a.GrowsTo b := by
  refine ⟨fun k' => ?_, fun k' => ?_, ?_, fun text i hi => ?_⟩
  · rw [h.entries]
    split
    · exact List.prefix_append _ _
    · exact List.prefix_rfl
  · exact h.buffer ▸ List.prefix_rfl
  · exact h.names ▸ List.prefix_rfl
  · rwa [h.names]

theorem AddsList.grows {l : Listing} (h : a.AddsList l b) : a.GrowsTo b := by
  refine ⟨fun k => ?_, fun k => ?_, ?_, fun text i hi => ?_⟩
  · exact h.entries ▸ List.prefix_rfl
  · rw [h.buffer]
    split
    · exact List.prefix_append _ _
    · exact List.prefix_rfl
  · exact h.names ▸ List.prefix_rfl
  · rwa [h.names]

theorem AddsName.grows {text : String} (h : a.AddsName text b) : a.GrowsTo b := by
  refine ⟨fun k => ?_, fun k => ?_, ?_, fun text' i hi => ?_⟩
  · exact h.entries ▸ List.prefix_rfl
  · exact h.buffer ▸ List.prefix_rfl
  · rw [h.names]
    exact Interner.texts_intern _ _
  · rw [h.names]
    exact Interner.get?_intern_of_get? hi

theorem AddsNode.count {k : NodeKind} {v : Visit} (h : a.AddsNode k v b) (k' : NodeKind) :
    b.count k' = a.count k' + if k' = k then 1 else 0 := by
  rw [Arena.count, h.entries]
  split
  · exact List.length_append
  · rfl

theorem AddsList.count {l : Listing} (h : a.AddsList l b) (k : NodeKind) :
    b.count k = a.count k := by
  rw [Arena.count, h.entries, Arena.count]

theorem AddsName.count {text : String} (h : a.AddsName text b) (k : NodeKind) :
    b.count k = a.count k := by
  rw [Arena.count, h.entries, Arena.count]

/-- A node whose parts and lists are recorded leaves the arena closed. -/
theorem AddsNode.closed {k : NodeKind} {v : Visit} (h : a.AddsNode k v b) (ha : a.Closed)
    (hv : a.KeepsAll v.parts v.lists) : b.Closed := by
  refine ⟨fun k' i w hw => ?_, fun k' w hw => h.grows.keepsAll ?_,
    fun k' it hit => h.grows.keepsAll (ha.item k' it (h.buffer ▸ hit))⟩
  · rw [h.entries] at hw
    split at hw
    · next hk =>
      subst hk
      rw [List.getElem?_append] at hw
      split at hw
      · exact ha.numbered k' i w hw
      · next hi =>
        obtain ⟨hi', rfl⟩ : i - (a.entries k').length = 0 ∧ v = w := by
          simpa [List.getElem?_singleton] using hw
        have hcount : i = a.count k' := by
          rw [Arena.count]
          omega
        rw [h.ref, hcount]
    · exact ha.numbered k' i w hw
  · rw [h.entries] at hw
    split at hw
    · obtain hw | hw := List.mem_append.mp hw
      · exact ha.entry k' w hw
      · exact List.mem_singleton.mp hw ▸ hv
    · exact ha.entry k' w hw

/-- And so does a list of recorded items. -/
theorem AddsList.closed {l : Listing} (h : a.AddsList l b) (ha : a.Closed)
    (hl : a.KeepsAll l.parts l.lists) : b.Closed := by
  have hitem : ∀ it ∈ l.items, a.KeepsAll it.parts it.lists := fun it hit =>
    ⟨fun p hp => hl.1 p (List.mem_flatMap.mpr ⟨it, hit, hp⟩),
      fun m hm => hl.2 m (List.mem_flatMap.mpr ⟨it, hit, hm⟩)⟩
  refine ⟨fun k i v hv => ha.numbered k i v (h.entries ▸ hv),
    fun k v hv => h.grows.keepsAll (ha.entry k v (h.entries ▸ hv)),
    fun k it hit => h.grows.keepsAll ?_⟩
  rw [h.buffer] at hit
  split at hit
  · exact (List.mem_append.mp hit).elim (ha.item k it) (hitem it)
  · exact ha.item k it hit

theorem AddsList.lists {l : Listing} (h : a.AddsList l b) : b.Lists l := by
  rw [Lists, h.buffer, if_pos rfl]
  exact (List.suffix_append _ _).isInfix

theorem AddsName.closed {text : String} (h : a.AddsName text b) (ha : a.Closed) : b.Closed :=
  ⟨fun k i v hv => ha.numbered k i v (h.entries ▸ hv),
    fun k v hv => h.grows.keepsAll (ha.entry k v (h.entries ▸ hv)),
    fun k it hit => h.grows.keepsAll (ha.item k it (h.buffer ▸ hit))⟩

theorem AddsName.knows {text : String} (h : a.AddsName text b) :
    b.Knows text := by
  have hget : b.names.get? text = some (a.names.intern text).1 := by
    rw [h.names]
    exact Interner.get?_intern a.names text
  exact ⟨_, hget, Interner.texts_of_get? hget⟩

/-- What is found is recorded, so it refers to what is recorded. -/
theorem Closed.keepsAll_of_holds (ha : a.Closed) {v : Visit} (hv : a.Holds v) :
    a.KeepsAll v.parts v.lists := by
  obtain ⟨r, -, hr⟩ := hv
  exact ha.entry r.kind v (List.mem_of_getElem? hr)

end Arena

end GoSource
