/-
What rows refer to.

A row leads to others in three ways only: by the number of a node, by the
range of a list, and by the symbol of a text. Each of these is a `Handle`,
and the handles of a row come in the order in which a walk follows them.
To follow a handle is to look up what it refers to, which may not be there;
what comes out is the handles of that (`Store.follow`).

The seven tables of a store are one function of a kind, and so are the ten
buffers, so that what is said of a store is said of all kinds at once.
-/
import GoSource.Proofs.Arena.Entry
import GoSource.Storage.Store

namespace GoSource.Stored

-- ================================================================= kinds

/-- What is stored of a node. -/
abbrev Row : NodeKind → Type
  | .decl => Decl
  | .stmt => Stmt
  | .expr => Expr
  | .type => TypeExpr
  | .field => Field
  | .param => Param
  | .literal => Literal

/-- What lies in a buffer. -/
abbrev Item : ListKind → Type
  | .idents => Ident
  | .exprs => ExprId
  | .stmts => StmtId
  | .decls => DeclId
  | .fields => FieldId
  | .params => ParamId
  | .elements => Element
  | .interfaceElements => InterfaceElement
  | .importSpecs => ImportSpec
  | .docLines => String

namespace Store

def table (st : Store) : (k : NodeKind) → Table (Row k)
  | .decl => st.decls
  | .stmt => st.stmts
  | .expr => st.exprs
  | .type => st.types
  | .field => st.fields
  | .param => st.params
  | .literal => st.literals

def buffer (st : Store) : (k : ListKind) → Array (Item k)
  | .idents => st.lists.idents
  | .exprs => st.lists.exprs
  | .stmts => st.lists.stmts
  | .decls => st.lists.decls
  | .fields => st.lists.fields
  | .params => st.lists.params
  | .elements => st.lists.elements
  | .interfaceElements => st.lists.interfaceElements
  | .importSpecs => st.lists.importSpecs
  | .docLines => st.lists.docLines

end Store

-- =============================================================== handles

/-- What is in a row to lead on from it. -/
inductive Handle where
  | node (ref : Ref)
  | list (kind : ListKind) (range : ListRef)
  | text (symbol : Symbol)
deriving DecidableEq, Repr

namespace Handle

abbrev decl (id : DeclId) : Handle := node ⟨.decl, id⟩
abbrev stmt (id : StmtId) : Handle := node ⟨.stmt, id⟩
abbrev expr (id : ExprId) : Handle := node ⟨.expr, id⟩
abbrev type (id : TypeId) : Handle := node ⟨.type, id⟩
abbrev field (id : FieldId) : Handle := node ⟨.field, id⟩
abbrev param (id : ParamId) : Handle := node ⟨.param, id⟩
abbrev literal (id : LitId) : Handle := node ⟨.literal, id⟩

/-- The node that a handle refers to, if it is one. -/
def ref? : Handle → Option Ref
  | node r => some r
  | list _ _ | text _ => none

end Handle

def Ident.handles (n : Ident) : List Handle := [.text n.symbol]

def Element.handles (e : Element) : List Handle := e.key.toList.map .expr ++ [.expr e.value]

def ParamList.handles (ps : ParamList) : List Handle := [.list .params ps.params]

def FuncResult.handles : FuncResult → List Handle
  | params list => list.handles
  | type t => [.type t]

def Signature.handles (sig : Signature) : List Handle :=
  sig.params.handles ++ sig.result.toList.flatMap FuncResult.handles

def InterfaceElement.handles : InterfaceElement → List Handle
  | method n sig => n.handles ++ sig.handles
  | embedded t => [.type t]

def ArrayLength.handles : ArrayLength → List Handle
  | expr x => [.expr x]
  | dots _ => []

def ImportName.handles : ImportName → List Handle
  | dot _ => []
  | name n => n.handles

def ImportSpec.handles (spec : ImportSpec) : List Handle :=
  spec.name.toList.flatMap ImportName.handles ++ [.text spec.path]

def Block.handles (b : Block) : List Handle := [.list .stmts b.stmts]

def ForHeader.handles : ForHeader → List Handle
  | infinite => []
  | .cond x => [.expr x]
  | clause init test post =>
    init.toList.map .stmt ++ (test.toList.map .expr ++ post.toList.map .stmt)
  | range s => [.stmt s]

def Expr.handles : Expr → List Handle
  | ident n => n.handles
  | literal l => [.literal l]
  | composite t elements _ _ => t.toList.map .type ++ [.list .elements elements]
  | index x _ i _ => [.expr x, .expr i]
  | slice x _ low high max _ =>
    .expr x :: (low.toList.map .expr ++ (high.toList.map .expr ++ max.toList.map .expr))
  | typeAssert x t _ => .expr x :: t.toList.map .type
  | selector x n => .expr x :: n.handles
  | call f _ args _ _ => [.expr f, .list .exprs args]
  | binary _ _ left right => [.expr left, .expr right]
  | unary _ _ x => [.expr x]
  | type t => [.type t]

def TypeExpr.handles : TypeExpr → List Handle
  | name pkg n => pkg.toList.flatMap Ident.handles ++ n.handles
  | array length t => length.handles ++ [.type t]
  | slice t | pointer t | chan _ t => [.type t]
  | map key t => [.type key, .type t]
  | func sig => sig.handles
  | struct fields => [.list .fields fields]
  | interface elements => [.list .interfaceElements elements]

def Field.handles (f : Field) : List Handle :=
  .list .idents f.names :: .type f.type :: f.tag.toList.map .literal

def Param.handles (p : Param) : List Handle := [.list .idents p.names, .type p.type]

def Decl.handles : Decl → List Handle
  | imports d => [.list .docLines d.doc, .list .importSpecs d.specs]
  | const c => .list .docLines c.doc :: .list .idents c.names ::
    (c.type.toList.map .type ++ [.list .exprs c.values])
  | var v => .list .docLines v.doc :: .list .idents v.names ::
    (v.type.toList.map .type ++ [.list .exprs v.values])
  | type t => .list .docLines t.doc :: (t.name.handles ++ [.type t.type])
  | func f => .list .docLines f.doc ::
    (f.name.handles ++ (f.signature.handles ++ f.body.toList.flatMap Block.handles))
  | method f => .list .docLines f.doc :: (f.receiver.handles ++
    (f.name.handles ++ (f.signature.handles ++ f.body.toList.flatMap Block.handles)))

def Stmt.handles : Stmt → List Handle
  | empty | fallthroughStmt => []
  | decl ds => [.list .decls ds]
  | expr x | step x _ | goStmt x | deferStmt x => [.expr x]
  | assign left _ _ right => [.list .exprs left, .list .exprs right]
  | shortVar names _ values => [.list .idents names, .list .exprs values]
  | range left _ x => [.list .exprs left, .expr x]
  | send x y => [.expr x, .expr y]
  | labeled label s => label.handles ++ [.stmt s]
  | block b => b.handles
  | ifStmt init x body other =>
    init.toList.map .stmt ++ .expr x :: (body.handles ++ other.toList.map .stmt)
  | forStmt header body => header.handles ++ body.handles
  | returnStmt xs => [.list .exprs xs]
  | breakStmt label | continueStmt label => label.toList.flatMap Ident.handles
  | gotoStmt label => label.handles

def File.handles (f : File) : List Handle :=
  f.name.handles ++ [.list .decls f.imports, .list .decls f.decls]

-- ============================================================= following

def Row.handles : (k : NodeKind) → Row k → List Handle
  | .decl => Decl.handles
  | .stmt => Stmt.handles
  | .expr => Expr.handles
  | .type => TypeExpr.handles
  | .field => Field.handles
  | .param => Param.handles
  | .literal => fun _ => []

def Item.handles : (k : ListKind) → Item k → List Handle
  | .idents => Ident.handles
  | .exprs => fun x => [.expr x]
  | .stmts => fun s => [.stmt s]
  | .decls => fun d => [.decl d]
  | .fields => fun f => [.field f]
  | .params => fun p => [.param p]
  | .elements => Element.handles
  | .interfaceElements => InterfaceElement.handles
  | .importSpecs => ImportSpec.handles
  | .docLines => fun _ => []

namespace Store

/-- What a handle refers to is in the store. -/
def InBounds (st : Store) : Handle → Prop
  | .node r => r.number < (st.table r.kind).rows.size
  | .list k r => r.stop ≤ (st.buffer k).size
  | .text s => s < st.names.size

/-- The handles of what a handle refers to, if that is in the store: those
of the row, or those of the items one after the other. -/
def follow (st : Store) : Handle → Option (List Handle)
  | .node r => ((st.table r.kind).row? r.number).map (Row.handles r.kind)
  | .list k r => (slice (st.buffer k) r).map fun items => items.flatMap (Item.handles k)
  | .text s => st.names.texts[s]?.map fun _ => []

/-- The places of handles, each among those of what the one before refers
to, that lead from a handle to a node. -/
inductive Path (st : Store) : Handle → List Nat → Ref → Prop
  | here (r : Ref) : Path st (.node r) [] r
  | step {h h' : Handle} {hs : List Handle} {i : Nat} {is : List Nat} {r : Ref} :
      st.follow h = some hs → hs[i]? = some h' → Path st h' is r → Path st h (i :: is) r

/-- The nodes that are visited from a handle, each before those it leads
to. There is no result if something is not in the store, or if the way is
longer than the fuel. -/
def visit (st : Store) : (fuel : Nat) → Handle → Option (List Ref)
  | 0, _ => none
  | fuel + 1, h => do
    let hs ← st.follow h
    let below ← hs.mapM (st.visit fuel)
    pure (h.ref?.toList ++ below.flatten)

variable {st : Store} {h : Handle}

theorem inBounds_iff : st.InBounds h ↔ (st.follow h).isSome := by
  cases h with
  | node r => simp [InBounds, follow, Table.row?]
  | list k r =>
    by_cases hr : r.stop ≤ (st.buffer k).size <;> simp [InBounds, follow, slice, hr]
  | text s => simp [InBounds, follow, Interner.size]

end Store

end GoSource.Stored
