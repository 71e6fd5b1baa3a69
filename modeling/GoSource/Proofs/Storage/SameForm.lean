/-
Rows that are for a form.

A production sometimes looks at what it has read before it goes on: whether
an operand is a name, or a statement a condition. A row tells the same by
itself, without its handles being followed: it is of the same form as what
it stands for.
-/
import GoSource.Proofs.Storage.Reader

namespace GoSource.Stored

/-- The row is one for a form like this, whatever it leads to. -/
inductive Expr.SameForm : Expr → ExprForm → Prop
  | ident {n n'} : SameForm (.ident n) (.ident n')
  | literal {l l'} : SameForm (.literal l) (.literal l')
  | composite {t es lBrace rBrace t' es'} :
    SameForm (.composite t es lBrace rBrace) (.composite t' es' lBrace rBrace)
  | index {x lBrack i rBrack x' i'} :
    SameForm (.index x lBrack i rBrack) (.index x' lBrack i' rBrack)
  | slice {x lBrack low high max rBrack x' low' high' max'} :
    SameForm (.slice x lBrack low high max rBrack) (.slice x' lBrack low' high' max' rBrack)
  | typeAssert {x t rParen x' t'} : SameForm (.typeAssert x t rParen) (.typeAssert x' t' rParen)
  | selector {x n x' n'} : SameForm (.selector x n) (.selector x' n')
  | call {f lParen args dots rParen f' args'} :
    SameForm (.call f lParen args dots rParen) (.call f' lParen args' dots rParen)
  | binary {op sp x y x' y'} : SameForm (.binary op sp x y) (.binary op sp x' y')
  | unary {op sp x x'} : SameForm (.unary op sp x) (.unary op sp x')
  | type {t t'} : SameForm (.type t) (.type t')

inductive TypeExpr.SameForm : TypeExpr → TypeForm → Prop
  | name {pkg n pkg' n'} : SameForm (.name pkg n) (.name pkg' n')
  | array {length t length' t'} : SameForm (.array length t) (.array length' t')
  | slice {t t'} : SameForm (.slice t) (.slice t')
  | pointer {t t'} : SameForm (.pointer t) (.pointer t')
  | map {key t key' t'} : SameForm (.map key t) (.map key' t')
  | chan {dir t t'} : SameForm (.chan dir t) (.chan dir t')
  | func {sig sig'} : SameForm (.func sig) (.func sig')
  | struct {fs fs'} : SameForm (.struct fs) (.struct fs')
  | interface {es es'} : SameForm (.interface es) (.interface es')

inductive Stmt.SameForm : Stmt → StmtForm → Prop
  | empty : SameForm .empty .empty
  | decl {ds ds'} : SameForm (.decl ds) (.decl ds')
  | expr {x x'} : SameForm (.expr x) (.expr x')
  | assign {left op sp right left' right'} :
    SameForm (.assign left op sp right) (.assign left' op sp right')
  | shortVar {names sp values names' values'} :
    SameForm (.shortVar names sp values) (.shortVar names' sp values')
  | range {left define x left' x'} : SameForm (.range left define x) (.range left' define x')
  | send {x y x' y'} : SameForm (.send x y) (.send x' y')
  | step {x op x'} : SameForm (.step x op) (.step x' op)
  | labeled {label s label' s'} : SameForm (.labeled label s) (.labeled label' s')
  | block {b b'} : SameForm (.block b) (.block b')
  | ifStmt {init x body other init' x' body' other'} :
    SameForm (.ifStmt init x body other) (.ifStmt init' x' body' other')
  | forStmt {header body header' body'} :
    SameForm (.forStmt header body) (.forStmt header' body')
  | goStmt {x x'} : SameForm (.goStmt x) (.goStmt x')
  | deferStmt {x x'} : SameForm (.deferStmt x) (.deferStmt x')
  | returnStmt {xs xs'} : SameForm (.returnStmt xs) (.returnStmt xs')
  | breakStmt {label label'} : SameForm (.breakStmt label) (.breakStmt label')
  | continueStmt {label label'} : SameForm (.continueStmt label) (.continueStmt label')
  | gotoStmt {label label'} : SameForm (.gotoStmt label) (.gotoStmt label')
  | fallthroughStmt : SameForm .fallthroughStmt .fallthroughStmt

variable {R : Reader}

theorem Expr.sameForm {row : Expr} {form : ExprForm} (h : row.read R = some form) :
    row.SameForm form := by
  cases row <;> simp [read, Option.bind_eq_some_iff] at h <;> grind [SameForm]

theorem TypeExpr.sameForm {row : TypeExpr} {form : TypeForm} (h : row.read R = some form) :
    row.SameForm form := by
  cases row <;> simp [read, Option.bind_eq_some_iff] at h <;> grind [SameForm]

theorem Stmt.sameForm {row : Stmt} {form : StmtForm} (h : row.read R = some form) :
    row.SameForm form := by
  cases row <;> simp [read, Option.bind_eq_some_iff] at h <;> grind [SameForm]

-- ================================================= what looked-at rows hold

@[simp] theorem Expr.read_ident {n : Ident} {n' : GoSource.Ident} :
    (Expr.ident n).read R = some (.ident n') ↔ n.read R = some n' := by
  simp [read, Option.bind_eq_some_iff]

@[simp] theorem Expr.read_selector {x : ExprId} {n : Ident} {x' : GoSource.Expr}
    {n' : GoSource.Ident} :
    (Expr.selector x n).read R = some (.selector x' n') ↔
      R.expr x = some x' ∧ n.read R = some n' := by
  simp [read, Option.bind_eq_some_iff]

@[simp] theorem Expr.read_type {t : TypeId} {t' : GoSource.TypeExpr} :
    (Expr.type t).read R = some (.type t') ↔ R.type t = some t' := by
  simp [read, Option.bind_eq_some_iff]

@[simp] theorem Expr.read_typeAssert {x : ExprId} {t : Option TypeId} {rParen : Span}
    {x' : GoSource.Expr} {t' : Option GoSource.TypeExpr} :
    (Expr.typeAssert x t rParen).read R = some (.typeAssert x' t' rParen) ↔
      R.expr x = some x' ∧ optional R.type t = some t' := by
  simp [read, Option.bind_eq_some_iff]

@[simp] theorem Stmt.read_expr {x : ExprId} {x' : GoSource.Expr} :
    (Stmt.expr x).read R = some (.expr x') ↔ R.expr x = some x' := by
  simp [read, Option.bind_eq_some_iff]

@[simp] theorem Stmt.read_shortVar {names values : ListRef} {sp : Span}
    {names' : List GoSource.Ident} {values' : List GoSource.Expr} :
    (Stmt.shortVar names sp values).read R = some (.shortVar names' sp values') ↔
      R.idents names = some names' ∧ R.exprs values = some values' := by
  simp [read, Option.bind_eq_some_iff]

theorem Draft.read_eq_some {d : Draft} {d' : GoSource.Draft} :
    d.read R = some d' ↔ d.stmt.read R = some d'.form ∧ d.span = d'.span := by
  obtain ⟨form, sp⟩ := d'
  simp [read, Option.bind_eq_some_iff]

-- ============================================================ their spans

theorem Ident.span_of_read {n : Ident} {n' : GoSource.Ident} (h : n.read R = some n') :
    n.span = n'.span := by
  obtain ⟨_, _, h⟩ := Option.bind_eq_some_iff.mp h
  exact congrArg GoSource.Ident.span (Option.some.inj h)

theorem ParamList.span_of_read {ps : ParamList} {ps' : GoSource.ParamList}
    (h : ps.read R = some ps') : ps.span = ps'.span := by
  obtain ⟨_, _, h⟩ := Option.bind_eq_some_iff.mp h
  exact congrArg GoSource.ParamList.span (Option.some.inj h)

theorem Signature.span_of_read {sig : Signature} {sig' : GoSource.Signature}
    (h : sig.read R = some sig') : sig.span = sig'.span := by
  obtain ⟨_, _, h⟩ := Option.bind_eq_some_iff.mp h
  obtain ⟨_, _, h⟩ := Option.bind_eq_some_iff.mp h
  exact congrArg GoSource.Signature.span (Option.some.inj h)

theorem Block.span_of_read {b : Block} {b' : GoSource.Block} (h : b.read R = some b') :
    b.span = b'.span := by
  obtain ⟨_, _, h⟩ := Option.bind_eq_some_iff.mp h
  exact congrArg GoSource.Block.span (Option.some.inj h)

end GoSource.Stored
