/-
What is stored, read back.

What a row stands for depends on what its handles do. A `Reader` is any way
to read these; given one, a row reads as a form (`Expr.read`), or as nothing
if one of its handles does not read. A store reads one step with its own
rows and items, and leaves the handles in them to another reader
(`Store.through`). So a number of steps makes a reader (`Store.reader`),
which gives whole trees where all handles are in bounds and none leads
further down than that.

More steps read no less, and neither does a store that has grown: what has
been read once is read the same ever after (`Store.reader_le`).
-/
import GoSource.Grammar.Production
import GoSource.Proofs.Arena.Reading
import GoSource.Proofs.Storage.Handle
import Mathlib.Data.List.Forall2

namespace GoSource.Stored

-- =============================================================== readers

/-- What a row of a kind stands for. -/
abbrev Form : NodeKind → Type
  | .decl => DeclForm
  | .stmt => StmtForm
  | .expr => ExprForm
  | .type => TypeForm
  | .field => FieldForm
  | .param => ParamForm
  | .literal => Literal

/-- What an item of a kind stands for. -/
abbrev Listed : ListKind → Type
  | .idents => GoSource.Ident
  | .exprs => GoSource.Expr
  | .stmts => GoSource.Stmt
  | .decls => GoSource.Decl
  | .fields => GoSource.Field
  | .params => GoSource.Param
  | .elements => GoSource.Element
  | .interfaceElements => GoSource.InterfaceElement
  | .importSpecs => GoSource.ImportSpec
  | .docLines => String

/-- A way to read symbols, numbers and ranges. -/
structure Reader where
  text : Symbol → Option String
  node : (k : NodeKind) → Nat → Option (Node (Form k))
  list : (k : ListKind) → ListRef → Option (List (Listed k))

namespace Reader

variable (R : Reader)

abbrev decl (id : DeclId) : Option GoSource.Decl := R.node .decl id
abbrev stmt (id : StmtId) : Option GoSource.Stmt := R.node .stmt id
abbrev expr (id : ExprId) : Option GoSource.Expr := R.node .expr id
abbrev type (id : TypeId) : Option GoSource.TypeExpr := R.node .type id
abbrev field (id : FieldId) : Option GoSource.Field := R.node .field id
abbrev param (id : ParamId) : Option GoSource.Param := R.node .param id
abbrev literal (id : LitId) : Option Lit := R.node .literal id

abbrev idents (r : ListRef) : Option (List GoSource.Ident) := R.list .idents r
abbrev exprs (r : ListRef) : Option (List GoSource.Expr) := R.list .exprs r
abbrev stmts (r : ListRef) : Option (List GoSource.Stmt) := R.list .stmts r
abbrev decls (r : ListRef) : Option (List GoSource.Decl) := R.list .decls r
abbrev fields (r : ListRef) : Option (List GoSource.Field) := R.list .fields r
abbrev params (r : ListRef) : Option (List GoSource.Param) := R.list .params r
abbrev elements (r : ListRef) : Option (List GoSource.Element) := R.list .elements r
abbrev interfaceElements (r : ListRef) : Option (List GoSource.InterfaceElement) :=
  R.list .interfaceElements r
abbrev importSpecs (r : ListRef) : Option (List GoSource.ImportSpec) := R.list .importSpecs r
abbrev docLines (r : ListRef) : Option (List String) := R.list .docLines r

/-- Reads nothing. -/
def blind : Reader := ⟨fun _ => none, fun _ _ => none, fun _ _ => none⟩

end Reader

/-- Something that may be there is read if it is. -/
def optional {α β : Type} (read : α → Option β) : Option α → Option (Option β)
  | none => some none
  | some x => (read x).map some

section

variable (R : Reader)

def Ident.read (n : Ident) : Option GoSource.Ident := do
  pure ⟨← R.text n.symbol, n.span⟩

def Element.read (e : Element) : Option GoSource.Element := do
  pure ⟨← optional R.expr e.key, ← R.expr e.value⟩

def ParamList.read (ps : ParamList) : Option GoSource.ParamList := do
  pure ⟨← R.params ps.params, ps.span⟩

def FuncResult.read : FuncResult → Option GoSource.FuncResult
  | params list => do pure (.params (← list.read R))
  | type t => do pure (.type (← R.type t))

def Signature.read (sig : Signature) : Option GoSource.Signature := do
  pure ⟨← sig.params.read R, ← optional (FuncResult.read R) sig.result, sig.span⟩

def InterfaceElement.read : InterfaceElement → Option GoSource.InterfaceElement
  | method n sig => do pure (.method (← n.read R) (← sig.read R))
  | embedded t => do pure (.embedded (← R.type t))

def ArrayLength.read : ArrayLength → Option GoSource.ArrayLength
  | expr x => do pure (.expr (← R.expr x))
  | dots sp => some (.dots sp)

def ImportName.read : ImportName → Option GoSource.ImportName
  | dot sp => some (.dot sp)
  | name n => do pure (.name (← n.read R))

def ImportSpec.read (spec : ImportSpec) : Option GoSource.ImportSpec := do
  pure ⟨← optional (ImportName.read R) spec.name, ← R.text spec.path, spec.pathSpan⟩

def Block.read (b : Block) : Option GoSource.Block := do
  pure ⟨← R.stmts b.stmts, b.span⟩

def ForHeader.read : ForHeader → Option GoSource.ForHeader
  | infinite => some .infinite
  | .cond x => do pure (.cond (← R.expr x))
  | clause init test post => do
    pure (.clause (← optional R.stmt init) (← optional R.expr test) (← optional R.stmt post))
  | range s => do pure (.range (← R.stmt s))

def Expr.read : Expr → Option ExprForm
  | ident n => do pure (.ident (← n.read R))
  | literal l => do pure (.literal (← R.literal l))
  | composite t elements lBrace rBrace => do
    pure (.composite (← optional R.type t) (← R.elements elements) lBrace rBrace)
  | index x lBrack i rBrack => do pure (.index (← R.expr x) lBrack (← R.expr i) rBrack)
  | slice x lBrack low high max rBrack => do
    pure (.slice (← R.expr x) lBrack (← optional R.expr low) (← optional R.expr high)
      (← optional R.expr max) rBrack)
  | typeAssert x t rParen => do pure (.typeAssert (← R.expr x) (← optional R.type t) rParen)
  | selector x n => do pure (.selector (← R.expr x) (← n.read R))
  | call f lParen args dots rParen => do
    pure (.call (← R.expr f) lParen (← R.exprs args) dots rParen)
  | binary op sp left right => do pure (.binary op sp (← R.expr left) (← R.expr right))
  | unary op sp x => do pure (.unary op sp (← R.expr x))
  | type t => do pure (.type (← R.type t))

def TypeExpr.read : TypeExpr → Option TypeForm
  | name pkg n => do pure (.name (← optional (Ident.read R) pkg) (← n.read R))
  | array length t => do pure (.array (← length.read R) (← R.type t))
  | slice t => do pure (.slice (← R.type t))
  | pointer t => do pure (.pointer (← R.type t))
  | map key t => do pure (.map (← R.type key) (← R.type t))
  | chan dir t => do pure (.chan dir (← R.type t))
  | func sig => do pure (.func (← sig.read R))
  | struct fields => do pure (.struct (← R.fields fields))
  | interface elements => do pure (.interface (← R.interfaceElements elements))

def Field.read (f : Field) : Option FieldForm := do
  pure ⟨← R.idents f.names, ← R.type f.type, ← optional R.literal f.tag⟩

def Param.read (p : Param) : Option ParamForm := do
  pure ⟨← R.idents p.names, p.dots, ← R.type p.type⟩

def ImportDecl.read (d : ImportDecl) : Option GoSource.ImportDecl := do
  pure ⟨← R.docLines d.doc, d.importSpan, ← R.importSpecs d.specs⟩

def ConstSpec.read (c : ConstSpec) : Option GoSource.ConstSpec := do
  pure ⟨← R.docLines c.doc, ← R.idents c.names, ← optional R.type c.type, ← R.exprs c.values,
    c.iota⟩

def VarSpec.read (v : VarSpec) : Option GoSource.VarSpec := do
  pure ⟨← R.docLines v.doc, ← R.idents v.names, ← optional R.type v.type, ← R.exprs v.values⟩

def TypeSpec.read (t : TypeSpec) : Option GoSource.TypeSpec := do
  pure ⟨← R.docLines t.doc, ← t.name.read R, t.assign, ← R.type t.type⟩

def FunctionDecl.read (f : FunctionDecl) : Option GoSource.FunctionDecl := do
  pure ⟨← R.docLines f.doc, f.funcSpan, ← f.name.read R, ← f.signature.read R,
    ← optional (Block.read R) f.body⟩

def MethodDecl.read (f : MethodDecl) : Option GoSource.MethodDecl := do
  pure ⟨← R.docLines f.doc, f.funcSpan, ← f.receiver.read R, ← f.name.read R,
    ← f.signature.read R, ← optional (Block.read R) f.body⟩

def Decl.read : Decl → Option DeclForm
  | imports d => do pure (.imports (← d.read R))
  | const c => do pure (.const (← c.read R))
  | var v => do pure (.var (← v.read R))
  | type t => do pure (.type (← t.read R))
  | func f => do pure (.func (← f.read R))
  | method f => do pure (.method (← f.read R))

def Stmt.read : Stmt → Option StmtForm
  | empty => some .empty
  | decl ds => do pure (.decl (← R.decls ds))
  | expr x => do pure (.expr (← R.expr x))
  | assign left op sp right => do pure (.assign (← R.exprs left) op sp (← R.exprs right))
  | shortVar names sp values => do pure (.shortVar (← R.idents names) sp (← R.exprs values))
  | range left define x => do pure (.range (← R.exprs left) define (← R.expr x))
  | send x y => do pure (.send (← R.expr x) (← R.expr y))
  | step x op => do pure (.step (← R.expr x) op)
  | labeled label s => do pure (.labeled (← label.read R) (← R.stmt s))
  | block b => do pure (.block (← b.read R))
  | ifStmt init x body other => do
    pure (.ifStmt (← optional R.stmt init) (← R.expr x) (← body.read R)
      (← optional R.stmt other))
  | forStmt header body => do pure (.forStmt (← header.read R) (← body.read R))
  | goStmt x => do pure (.goStmt (← R.expr x))
  | deferStmt x => do pure (.deferStmt (← R.expr x))
  | returnStmt xs => do pure (.returnStmt (← R.exprs xs))
  | breakStmt label => do pure (.breakStmt (← optional (Ident.read R) label))
  | continueStmt label => do pure (.continueStmt (← optional (Ident.read R) label))
  | gotoStmt label => do pure (.gotoStmt (← label.read R))
  | fallthroughStmt => some .fallthroughStmt

def File.read (f : File) : Option GoSource.File := do
  pure ⟨f.packageSpan, ← f.name.read R, ← R.decls f.imports, ← R.decls f.decls, f.span⟩

def Draft.read (d : Draft) : Option GoSource.Draft := do
  pure ⟨← d.stmt.read R, d.span⟩

def Row.read : (k : NodeKind) → Row k → Option (Form k)
  | .decl => Decl.read R
  | .stmt => Stmt.read R
  | .expr => Expr.read R
  | .type => TypeExpr.read R
  | .field => Field.read R
  | .param => Param.read R
  | .literal => some

def Item.read : (k : ListKind) → Item k → Option (Listed k)
  | .idents => Ident.read R
  | .exprs => R.expr
  | .stmts => R.stmt
  | .decls => R.decl
  | .fields => R.field
  | .params => R.param
  | .elements => Element.read R
  | .interfaceElements => InterfaceElement.read R
  | .importSpecs => ImportSpec.read R
  | .docLines => some

end

namespace Store

/-- Reads one step in a store, and what that leads to in another way. -/
def through (st : Store) (R : Reader) : Reader where
  text s := st.names.texts[s]?
  node k i := do
    let row ← (st.table k).row? i
    let span ← (st.table k).span? i
    pure ⟨i, span, ← Row.read R k row⟩
  list k r := do
    let items ← slice (st.buffer k) r
    items.mapM (Item.read R k)

/-- Reads a number of steps in a store. -/
def reader (st : Store) : (steps : Nat) → Reader
  | 0 => .blind
  | steps + 1 => st.through (st.reader steps)

end Store

/-- A list reads as a list of what its items read as. -/
theorem mapM_eq_some_iff {α β : Type} {f : α → Option β} {xs : List α} {ys : List β} :
    xs.mapM f = some ys ↔ List.Forall₂ (fun x y => f x = some y) xs ys := by
  induction xs generalizing ys with
  | nil => simp [eq_comm]
  | cons x xs ih =>
    simp only [List.mapM_cons, Option.bind_eq_bind, Option.bind_eq_some_iff, ih, Option.pure_def,
      Option.some_inj, List.forall₂_cons_left_iff]
    constructor
    · rintro ⟨y, hy, zs, hzs, rfl⟩
      exact ⟨y, zs, hy, hzs, rfl⟩
    · rintro ⟨y, zs, hy, hzs, rfl⟩
      exact ⟨y, hy, zs, hzs, rfl⟩

theorem exists_of_mapM {α β : Type} {f : α → Option β} {xs : List α} {ys : List β}
    (h : xs.mapM f = some ys) {x : α} (hx : x ∈ xs) : ∃ y ∈ ys, f x = some y := by
  induction mapM_eq_some_iff.mp h with
  | nil => exact nomatch hx
  | cons hxy hrest ih =>
    obtain rfl | hx := List.mem_cons.mp hx
    · exact ⟨_, List.mem_cons_self, hxy⟩
    · obtain ⟨y, hy, hread⟩ := ih (mapM_eq_some_iff.mpr hrest) hx
      exact ⟨y, List.mem_cons_of_mem _ hy, hread⟩

-- ================================================================= order

/-- What the one gives, the other gives too. -/
def Sub {α : Type} (o o' : Option α) : Prop := ∀ ⦃x⦄, o = some x → o' = some x

namespace Sub

variable {α β : Type} {o o' : Option α} {f g : α → Option β}

theorem refl (o : Option α) : Sub o o := fun _ h => h

theorem trans {o'' : Option α} (h : Sub o o') (h' : Sub o' o'') : Sub o o'' :=
  fun _ hx => h' (h hx)

theorem bind (h : Sub o o') (hf : ∀ x, Sub (f x) (g x)) : Sub (o >>= f) (o' >>= g) := by
  intro y hy
  obtain ⟨x, hx, hy⟩ := Option.bind_eq_some_iff.mp hy
  exact Option.bind_eq_some_iff.mpr ⟨x, h hx, hf x hy⟩

/-- Where something is made of what is read. -/
theorem into {f : α → β} (h : Sub o o') :
    Sub (o >>= fun x => pure (f x)) (o' >>= fun x => pure (f x)) := h.bind fun _ => refl _

theorem optional (h : ∀ x, Sub (f x) (g x)) (o : Option α) :
    Sub (optional f o) (Stored.optional g o) := by
  cases o with
  | none => exact refl _
  | some x =>
    intro y hy
    obtain ⟨z, hz, rfl⟩ := Option.map_eq_some_iff.mp hy
    exact Option.map_eq_some_iff.mpr ⟨z, h x hz, rfl⟩

theorem mapM (h : ∀ x, Sub (f x) (g x)) (xs : List α) : Sub (xs.mapM f) (xs.mapM g) :=
  fun _ => mapM_mono fun x _ hy => h x hy

end Sub

/-- What the one reads, the other reads too. -/
structure Reader.Le (R R' : Reader) : Prop where
  text (s : Symbol) : Sub (R.text s) (R'.text s)
  node (k : NodeKind) (i : Nat) : Sub (R.node k i) (R'.node k i)
  list (k : ListKind) (r : ListRef) : Sub (R.list k r) (R'.list k r)

namespace Reader.Le

variable {R R' R'' : Reader}

theorem refl (R : Reader) : R.Le R := ⟨fun _ => .refl _, fun _ _ => .refl _, fun _ _ => .refl _⟩

theorem trans (h : R.Le R') (h' : R'.Le R'') : R.Le R'' :=
  ⟨fun s => (h.text s).trans (h'.text s), fun k i => (h.node k i).trans (h'.node k i),
    fun k r => (h.list k r).trans (h'.list k r)⟩

theorem blind (R : Reader) : Reader.blind.Le R := ⟨nofun, nofun, nofun⟩

end Reader.Le

section

variable {R R' : Reader} (h : R.Le R')

include h

theorem Ident.read_le (n : Ident) : Sub (n.read R) (n.read R') := (h.text _).into

theorem Element.read_le (e : Element) : Sub (e.read R) (e.read R') :=
  (Sub.optional (h.node .expr) _).bind fun _ => (h.node ..).into

theorem ParamList.read_le (ps : ParamList) : Sub (ps.read R) (ps.read R') := (h.list ..).into

theorem FuncResult.read_le : (r : FuncResult) → Sub (r.read R) (r.read R')
  | params list => (list.read_le h).into
  | type _ => (h.node ..).into

theorem Signature.read_le (sig : Signature) : Sub (sig.read R) (sig.read R') :=
  (sig.params.read_le h).bind fun _ => (Sub.optional (FuncResult.read_le h) _).into

theorem InterfaceElement.read_le : (e : InterfaceElement) → Sub (e.read R) (e.read R')
  | method n sig => (n.read_le h).bind fun _ => (sig.read_le h).into
  | embedded _ => (h.node ..).into

theorem ArrayLength.read_le : (length : ArrayLength) → Sub (length.read R) (length.read R')
  | expr _ => (h.node ..).into
  | dots _ => .refl _

theorem ImportName.read_le : (n : ImportName) → Sub (n.read R) (n.read R')
  | dot _ => .refl _
  | name n => (n.read_le h).into

theorem ImportSpec.read_le (spec : ImportSpec) : Sub (spec.read R) (spec.read R') :=
  (Sub.optional (ImportName.read_le h) _).bind fun _ => (h.text _).into

theorem Block.read_le (b : Block) : Sub (b.read R) (b.read R') := (h.list ..).into

theorem ForHeader.read_le : (header : ForHeader) → Sub (header.read R) (header.read R')
  | infinite => .refl _
  | .cond _ => (h.node ..).into
  | clause _ _ _ => (Sub.optional (h.node .stmt) _).bind fun _ =>
    (Sub.optional (h.node .expr) _).bind fun _ => (Sub.optional (h.node .stmt) _).into
  | range _ => (h.node ..).into

theorem Expr.read_le : (x : Expr) → Sub (x.read R) (x.read R')
  | ident n => (n.read_le h).into
  | literal _ | unary _ _ _ | type _ => (h.node ..).into
  | composite _ _ _ _ => (Sub.optional (h.node .type) _).bind fun _ => (h.list ..).into
  | index _ _ _ _ | binary _ _ _ _ => (h.node ..).bind fun _ => (h.node ..).into
  | slice _ _ _ _ _ _ => (h.node ..).bind fun _ => (Sub.optional (h.node .expr) _).bind fun _ =>
    (Sub.optional (h.node .expr) _).bind fun _ => (Sub.optional (h.node .expr) _).into
  | typeAssert _ _ _ => (h.node ..).bind fun _ => (Sub.optional (h.node .type) _).into
  | selector _ n => (h.node ..).bind fun _ => (n.read_le h).into
  | call _ _ _ _ _ => (h.node ..).bind fun _ => (h.list ..).into

theorem TypeExpr.read_le : (t : TypeExpr) → Sub (t.read R) (t.read R')
  | name _ n => (Sub.optional (Ident.read_le h) _).bind fun _ => (n.read_le h).into
  | array length _ => (length.read_le h).bind fun _ => (h.node ..).into
  | slice _ | pointer _ | chan _ _ => (h.node ..).into
  | map _ _ => (h.node ..).bind fun _ => (h.node ..).into
  | func sig => (sig.read_le h).into
  | struct _ | interface _ => (h.list ..).into

theorem Field.read_le (f : Field) : Sub (f.read R) (f.read R') :=
  (h.list ..).bind fun _ => (h.node ..).bind fun _ => (Sub.optional (h.node .literal) _).into

theorem Param.read_le (p : Param) : Sub (p.read R) (p.read R') :=
  (h.list ..).bind fun _ => (h.node ..).into

theorem ImportDecl.read_le (d : ImportDecl) : Sub (d.read R) (d.read R') :=
  (h.list ..).bind fun _ => (h.list ..).into

theorem ConstSpec.read_le (c : ConstSpec) : Sub (c.read R) (c.read R') :=
  (h.list ..).bind fun _ => (h.list ..).bind fun _ =>
    (Sub.optional (h.node .type) _).bind fun _ => (h.list ..).into

theorem VarSpec.read_le (v : VarSpec) : Sub (v.read R) (v.read R') :=
  (h.list ..).bind fun _ => (h.list ..).bind fun _ =>
    (Sub.optional (h.node .type) _).bind fun _ => (h.list ..).into

theorem TypeSpec.read_le (t : TypeSpec) : Sub (t.read R) (t.read R') :=
  (h.list ..).bind fun _ => (t.name.read_le h).bind fun _ => (h.node ..).into

theorem FunctionDecl.read_le (f : FunctionDecl) : Sub (f.read R) (f.read R') :=
  (h.list ..).bind fun _ => (f.name.read_le h).bind fun _ => (f.signature.read_le h).bind fun _ =>
    (Sub.optional (Block.read_le h) _).into

theorem MethodDecl.read_le (f : MethodDecl) : Sub (f.read R) (f.read R') :=
  (h.list ..).bind fun _ => (f.receiver.read_le h).bind fun _ => (f.name.read_le h).bind fun _ =>
    (f.signature.read_le h).bind fun _ => (Sub.optional (Block.read_le h) _).into

theorem Decl.read_le : (d : Decl) → Sub (d.read R) (d.read R')
  | imports d => (d.read_le h).into
  | const c => (c.read_le h).into
  | var v => (v.read_le h).into
  | type t => (t.read_le h).into
  | func f => (f.read_le h).into
  | method f => (f.read_le h).into

theorem Stmt.read_le : (s : Stmt) → Sub (s.read R) (s.read R')
  | empty | fallthroughStmt => .refl _
  | decl _ | returnStmt _ => (h.list ..).into
  | expr _ | step _ _ | goStmt _ | deferStmt _ => (h.node ..).into
  | assign _ _ _ _ | shortVar _ _ _ => (h.list ..).bind fun _ => (h.list ..).into
  | range _ _ _ => (h.list ..).bind fun _ => (h.node ..).into
  | send _ _ => (h.node ..).bind fun _ => (h.node ..).into
  | labeled label _ => (label.read_le h).bind fun _ => (h.node ..).into
  | block b => (b.read_le h).into
  | ifStmt _ _ body _ => (Sub.optional (h.node .stmt) _).bind fun _ => (h.node ..).bind fun _ =>
    (body.read_le h).bind fun _ => (Sub.optional (h.node .stmt) _).into
  | forStmt header body => (header.read_le h).bind fun _ => (body.read_le h).into
  | breakStmt _ | continueStmt _ => (Sub.optional (Ident.read_le h) _).into
  | gotoStmt label => (label.read_le h).into

theorem File.read_le (f : File) : Sub (f.read R) (f.read R') :=
  (f.name.read_le h).bind fun _ => (h.list ..).bind fun _ => (h.list ..).into

theorem Row.read_le : (k : NodeKind) → (row : Row k) → Sub (Row.read R k row) (Row.read R' k row)
  | .decl => Decl.read_le h
  | .stmt => Stmt.read_le h
  | .expr => Expr.read_le h
  | .type => TypeExpr.read_le h
  | .field => Field.read_le h
  | .param => Param.read_le h
  | .literal => fun _ => .refl _

theorem Item.read_le :
    (k : ListKind) → (item : Item k) → Sub (Item.read R k item) (Item.read R' k item)
  | .idents => Ident.read_le h
  | .exprs => h.node .expr
  | .stmts => h.node .stmt
  | .decls => h.node .decl
  | .fields => h.node .field
  | .params => h.node .param
  | .elements => Element.read_le h
  | .interfaceElements => InterfaceElement.read_le h
  | .importSpecs => ImportSpec.read_le h
  | .docLines => fun _ => .refl _

end

-- ================================================================ growth

namespace Store

/-- What can be looked up in the one store can be looked up in the other. -/
structure GrowsTo (st st' : Store) : Prop where
  row (k : NodeKind) (i : Nat) : Sub ((st.table k).row? i) ((st'.table k).row? i)
  span (k : NodeKind) (i : Nat) : Sub ((st.table k).span? i) ((st'.table k).span? i)
  slice (k : ListKind) (r : ListRef) :
    Sub (Stored.slice (st.buffer k) r) (Stored.slice (st'.buffer k) r)
  text (s : Symbol) : Sub st.names.texts[s]? st'.names.texts[s]?

variable {st st' : Store} {R R' : Reader}

theorem GrowsTo.refl (st : Store) : st.GrowsTo st :=
  ⟨fun _ _ => .refl _, fun _ _ => .refl _, fun _ _ => .refl _, fun _ => .refl _⟩

theorem through_le (hst : st.GrowsTo st') (hR : R.Le R') : (st.through R).Le (st'.through R') where
  text := hst.text
  node k i := (hst.row k i).bind fun _ => (hst.span k i).bind fun _ => (Row.read_le hR k _).into
  list k r := (hst.slice k r).bind fun items => Sub.mapM (Item.read_le hR k) items

theorem reader_le (hst : st.GrowsTo st') {n m : Nat} (h : n ≤ m) :
    (st.reader n).Le (st'.reader m) := by
  induction n generalizing m with
  | zero => exact .blind _
  | succ n ih =>
    obtain ⟨m, rfl⟩ := Nat.exists_eq_add_of_lt h
    exact through_le hst (ih (by omega))

theorem reader_mono {n m : Nat} (h : n ≤ m) : (st.reader n).Le (st.reader m) :=
  reader_le (.refl st) h

end Store

end GoSource.Stored
