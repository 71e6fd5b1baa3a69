/-
Statements read back from their renderings.

What a statement ends with is in parentheses or is a token that ends it by
itself, so two tokens may follow: the semicolon that a rendering puts
behind every statement, and in a header the brace of the body. The latter
is the one place where what an expression looks like inside matters. The
parser has it back as it was, without the parentheses, when it comes to
decide whether the brace belongs to it (`EndsSimple`).

Where a statement begins with names that are read as expressions first,
there are no parentheses, because the names would be none with them.
-/
import GoSource.Proofs.Rendering.TypeExpr

namespace GoSource

open GoSource.Parser

variable {parse : SubParser} {h : Bool} {F G : Token → Prop} {i : Nat} {sp sp' : Span}
  {x y : Expr} {ss us : List Slot} {sm : SimpleMode}

-- ========================================================= what follows

/-- Simple statements of the other modes stand in headers. -/
def SimpleMode.inHeader : SimpleMode → Bool
  | statement => false
  | _ => true

/-- Behind a simple statement that ends with an expression, if it does. -/
def EndsSimple (sm : SimpleMode) (last : Option Expr) (t : Token) : Prop :=
  t.kind = .semi ∨ sm.inHeader = true ∧ t.kind = .lBrace ∧ EndsHeader last

theorem EndsSimple.kind {last : Option Expr} {t : Token} (ht : EndsSimple sm last t) :
    t.kind = .semi ∨ t.kind = .lBrace :=
  ht.imp_right fun ht => ht.2.1

theorem EndsSimple.ends {last : Option Expr} {t : Token} (ht : EndsSimple sm last t)
    (hx : x ∈ last) : Ends sm.inHeader x t := by
  obtain ht | ⟨hsm, ht, hlast⟩ := ht
  · exact .of_kind ht rfl
  · rw [hsm]
    refine ⟨⟨?_, ?_, ?_, fun _ => hlast x hx⟩, ?_⟩ <;> rw [ht] <;> decide

-- ======================================================= what comes back

def SimpleRereads (parse : SubParser) (sm : SimpleMode) (form : StmtForm) : Prop :=
  (parse (.simpleStmt sm)).Rereads sm.inHeader (Render.stmtForm form) (EndsSimple sm form.last)
    fun draft => Bare.stmtForm draft.form = Bare.stmtForm form

def StmtRereads (parse : SubParser) (s : Stmt) : Prop :=
  (parse .statement).Rereads false (Render.stmt s) (·.kind = .semi)
    fun s' => Bare.stmt s' = Bare.stmt s

def BlockRereads (parse : SubParser) (b : Block) : Prop :=
  (parse .block).Rereads false (Render.block b) (fun _ => True)
    fun b' => Bare.block b' = Bare.block b

namespace Parser.Rereads

theorem newStmt {form form' : StmtForm} (hform : Bare.stmtForm form' = Bare.stmtForm form) :
    (Parser.newStmt form' sp').Rereads h [] F fun s => Bare.stmt s = Bare.stmt ⟨i, sp, form⟩ :=
  building fun _ => congrArg (Node.mk 0 .nowhere) hform

end Parser.Rereads

namespace Grammar

-- ================================================================ lists

theorem exprList_rereads {xs : List Expr} (hne : xs ≠ []) (hxs : ∀ x ∈ xs, ExprInParens parse h x)
    (hlast : ∀ x ∈ xs.getLast?, ∀ t, F t → Ends h x t) (hF : ∀ t, F t → t.kind ≠ .comma) :
    (exprList parse).Rereads h (Render.exprs xs) F
      fun ys => ys.map Bare.expr = xs.map Bare.expr := by
  rw [Render.exprs, Render.exprList_eq]
  exact commaSeparated_rereads hne hxs (fun _ _ ht => .of_kind ht rfl) hlast hF

/-- Names that are read as expressions. -/
def BareNames (parse : SubParser) (h : Bool) (xs : List Expr) : Prop :=
  ∀ x ∈ xs, (parse .expression).Rereads h (Render.expr x) (·.kind.endsExpr = true) (SameExpr x)

theorem exprList_names {xs : List Expr} (hne : xs ≠ []) (hxs : BareNames parse h xs)
    (hF : ∀ t, F t → t.kind.endsExpr = true ∧ t.kind ≠ .comma) :
    (exprList parse).Rereads h (Render.commas (xs.map Render.expr)) F
      fun ys => ys.map Bare.expr = xs.map Bare.expr := by
  refine commaSeparated_rereads (G := fun _ t => t.kind.endsExpr = true) hne hxs (fun _ t ht => ?_)
    (fun _ _ t ht => (hF t ht).1) fun t ht => (hF t ht).2
  rw [ht]
  rfl

/-- Names as expressions. -/
def nameExprs (ns : List Ident) : List Expr :=
  ns.map fun n => ⟨0, .nowhere, .ident n⟩

theorem areNames_nameExprs (ns : List Ident) : AreNames (nameExprs ns) ns := by
  rw [AreNames, nameExprs, List.map_map]
  rfl

theorem render_nameExprs (ns : List Ident) :
    Render.commas ((nameExprs ns).map Render.expr) = Render.names ns := by
  rw [nameExprs, List.map_map]
  rfl

theorem definedNames_rereads {xs ys : List Expr} {ns : List Ident} (hxs : AreNames xs ns)
    (hys : ys.map Bare.expr = xs.map Bare.expr) :
    (definedNames ys).Rereads h [] F fun ms => ms.map Bare.ident = ns.map Bare.ident := by
  induction ys generalizing xs ns with
  | nil =>
    obtain rfl : xs = [] := List.map_eq_nil_iff.mp hys.symm
    obtain rfl : ns = [] := List.map_eq_nil_iff.mp hxs.symm
    exact .pure rfl
  | cons y ys ih =>
    obtain ⟨x, xs, rfl, hx, hrest⟩ := List.map_eq_cons_iff.mp hys.symm
    obtain ⟨n, ns, rfl, hn, hnames⟩ := List.map_eq_cons_iff.mp (Eq.symm hxs)
    have hform := exprForm_of_bare hx.symm
    rw [show x.form = .ident n from hn.symm] at hform
    obtain ⟨m, hm, hident⟩ := Bare.ident_of_eq hform
    rw [definedNames, List.mapM_cons, hm]
    refine .bind_pure (.bind_last (ih hnames.symm hrest.symm) fun ms hms => .pure ?_)
    rw [List.map_cons, List.map_cons, hident, hms]

-- ==================================================== simple statements

theorem bind_rangeClause_none {β : Type} {P : β → Prop} {f : Option Expr → Parser β}
    (hk : ∀ t, Leads ss F t → t.kind ≠ .kwRange) (hf : (f none).Rereads h ss F P) :
    (rangeClause parse sm >>= f).Rereads h ss F P := by
  have hclause : (rangeClause parse sm).Rereads h [] (·.kind ≠ .kwRange) (· = none) := by
    by_cases hsm : sm.rangeAllowed = true
    · rw [rangeClause, if_pos hsm]
      exact .bind_eat_none (fun _ ht => ht) (.pure rfl)
    · rw [rangeClause, if_neg hsm]
      exact .pure rfl
  exact .bind hclause hk fun _ ho => ho ▸ hf

theorem bind_labelBefore_none {β : Type} {P : β → Prop} {f : Option Ident → Parser β}
    {left : List Expr} (hk : ∀ t, Leads ss F t → t.kind ≠ .colon) (hf : (f none).Rereads h ss F P) :
    (labelBefore sm left >>= f).Rereads h ss F P := by
  have hlabel : (labelBefore sm left).Rereads h [] (·.kind ≠ .colon) (· = none) := by
    refine .bind_isAt_false (fun _ ht => ht) ?_
    rw [Bool.and_false, if_neg Bool.false_ne_true]
    exact .pure rfl
  exact .bind hlabel hk fun _ ho => ho ▸ hf

/-- Statements that are neither labels nor a range alone. -/
theorem simpleStmt_rereads {form : StmtForm} {R : List Expr → Prop}
    (hleft : (exprList parse).Rereads h ss G R) (link : ∀ t, Leads us F t → G t)
    (hrange : ∀ t, Leads (ss ++ us) F t → t.kind ≠ .kwRange)
    (hcolon : ∀ t, Leads us F t → t.kind ≠ .colon)
    (hafter : ∀ left, R left → (afterExprs parse sm left).Rereads h us F
      fun form' => Bare.stmtForm form' = Bare.stmtForm form) :
    (simpleStmt parse sm).Rereads h (ss ++ us) F
      fun draft => Bare.stmtForm draft.form = Bare.stmtForm form := by
  refine .bind_here fun _ => bind_rangeClause_none hrange (.bind hleft link fun left hl => ?_)
  refine bind_labelBefore_none hcolon (.bind_last (hafter left hl) fun form' hform => ?_)
  exact .bind_spanFrom fun _ => .pure hform

theorem leads_exprs {xs : List Expr} {k : Token.Kind} {t : Token} (hne : xs ≠ [])
    (hk : k ≠ .lParen) (ht : Leads (Render.exprs xs ++ us) F t) : t.kind ≠ k := by
  obtain ⟨x, xs, rfl⟩ := List.exists_cons_of_ne_nil hne
  rw [show t.kind = .lParen from ht.2]
  exact hk.symm

theorem exprList_single (hx : ExprInParens parse h x)
    (hF : ∀ t, F t → Ends h x t ∧ t.kind ≠ .comma) :
    (exprList parse).Rereads h (Render.parens (Render.expr x)) F
      fun ys => ys.map Bare.expr = [x].map Bare.expr := by
  have hlist := exprList_rereads (F := F) (List.cons_ne_nil x [])
    (fun z hz => List.mem_singleton.mp hz ▸ hx) (fun z hz t ht => ?_) fun t ht => (hF t ht).2
  · rwa [Render.exprs, Render.exprList, Render.exprList, Render.commas_singleton] at hlist
  · obtain rfl : x = z := Option.some.inj hz
    exact (hF t ht).1

theorem simpleStmt_expr (hx : ExprInParens parse sm.inHeader x) :
    (simpleStmt parse sm).Rereads sm.inHeader (Render.stmtForm (.expr x)) (EndsSimple sm (some x))
      fun draft => Bare.stmtForm draft.form = Bare.stmtForm (.expr x) := by
  rw [← List.append_nil (Render.stmtForm _)]
  refine simpleStmt_rereads (G := EndsSimple sm (some x))
    (exprList_single hx fun t ht => ⟨ht.ends rfl, ?_⟩) (fun _ ht => ht)
    (fun _ => leads_ne (k := .lParen) (by decide)) (fun t ht => ?_) fun left hleft => ?_
  · exact kind_ne_of_or ht.kind (by decide) (by decide)
  · exact kind_ne_of_or (EndsSimple.kind ht) (by decide) (by decide)
  · obtain ⟨y, rfl, hy⟩ := Bare.singleton_of_eq hleft
    have hexpr : (StmtForm.expr <$> single [y]).Rereads sm.inHeader [] (EndsSimple sm (some x))
        fun form => Bare.stmtForm form = Bare.stmtForm (.expr x) := by
      refine .map (.pure ?_)
      rw [Bare.stmtForm, Bare.stmtForm, hy]
    refine .bind_kind fun t ht => ?_
    obtain ht | ht := EndsSimple.kind ht
    · rw [ht]
      exact hexpr
    · rw [ht]
      exact hexpr

theorem simpleStmt_send (hx : ExprInParens parse sm.inHeader x)
    (hy : ExprInParens parse sm.inHeader y) :
    (simpleStmt parse sm).Rereads sm.inHeader (Render.stmtForm (.send x y)) (EndsSimple sm (some y))
      fun draft => Bare.stmtForm draft.form = Bare.stmtForm (.send x y) := by
  refine simpleStmt_rereads (G := (·.kind = .arrow))
    (exprList_single hx fun t ht => ⟨.of_kind ht rfl, ?_⟩)
    (fun _ ht => ht.2) (fun _ => leads_ne (k := .lParen) (by decide))
    (fun _ => leads_ne (k := .arrow) (by decide)) fun left hleft => ?_
  · rw [ht]
    decide
  · obtain ⟨x', rfl, hx'⟩ := Bare.singleton_of_eq hleft
    refine .bind_kind_at (.bind_pure (.bind_advance fun _ _ => ?_))
    refine .bind_last (hy.before fun t ht => ht.ends rfl) fun y' hy' => .pure ?_
    rw [Bare.stmtForm, Bare.stmtForm, hx', hy']

theorem simpleStmt_step {op : StepOp} (hx : ExprInParens parse sm.inHeader x) :
    (simpleStmt parse sm).Rereads sm.inHeader (Render.stmtForm (.step x op)) F
      fun draft => Bare.stmtForm draft.form = Bare.stmtForm (.step x op) := by
  refine simpleStmt_rereads (G := (·.kind = op.kind))
    (exprList_single hx fun t ht => ⟨.of_kind ht ?_, ?_⟩) (fun _ ht => ht.2)
    (fun _ => leads_ne (k := .lParen) (by decide)) (fun t ht => ?_) fun left hleft => ?_
  · cases op <;> rfl
  · rw [ht]
    cases op <;> decide
  · rw [show t.kind = op.kind from ht.2]
    cases op <;> decide
  · obtain ⟨x', rfl, hx'⟩ := Bare.singleton_of_eq hleft
    have hform : ∀ op', Bare.stmtForm (.step x' op') = Bare.stmtForm (.step x op') := by
      intro op'
      rw [Bare.stmtForm, Bare.stmtForm, hx']
    cases op with
    | increment => exact .bind_kind_at (.bind_pure (.bind_advance fun _ _ => .pure (hform _)))
    | decrement => exact .bind_kind_at (.bind_pure (.bind_advance fun _ _ => .pure (hform _)))

theorem simpleStmt_assign {op : AssignOp} {left right : List Expr} (hne : left ≠ [])
    (hne' : right ≠ []) (hleft : ∀ x ∈ left, ExprInParens parse sm.inHeader x)
    (hright : ∀ x ∈ right, ExprInParens parse sm.inHeader x) :
    (simpleStmt parse sm).Rereads sm.inHeader (Render.stmtForm (.assign left op sp right))
      (EndsSimple sm right.getLast?)
      fun draft => Bare.stmtForm draft.form = Bare.stmtForm (.assign left op sp right) := by
  have hop : ∀ {k}, k = op.kind → k.endsExpr = true ∧ k ≠ .comma ∧ k ≠ .colon := by
    rintro _ rfl
    cases op <;> decide
  refine simpleStmt_rereads (G := (·.kind = op.kind))
    (exprList_rereads hne hleft (fun x _ t ht => .of_endsExpr (hop ht).1) fun t ht => (hop ht).2.1)
    (fun _ ht => ht.2) (fun _ => leads_exprs hne (by decide)) (fun t ht => (hop ht.2).2.2)
    fun left' hl => ?_
  have hassign : (assignment parse sm left' op).Rereads sm.inHeader
      (.kind op.kind :: Render.exprs right) (EndsSimple sm right.getLast?)
      fun form => Bare.stmtForm form = Bare.stmtForm (.assign left op sp right) := by
    have hvalues : (exprList parse).Rereads sm.inHeader (Render.exprs right)
        (EndsSimple sm right.getLast?) fun ys => ys.map Bare.expr = right.map Bare.expr := by
      refine exprList_rereads hne' hright (fun x hx t ht => ht.ends hx) fun t ht => ?_
      exact kind_ne_of_or ht.kind (by decide) (by decide)
    refine .bind_advance fun o _ => ?_
    have hfinish : (exprList parse >>= fun ys => recording (·.addExprs left') >>= fun _ =>
        recording (·.addExprs ys) >>= fun _ => pure (StmtForm.assign left' op o.span ys)).Rereads
        sm.inHeader (Render.exprs right) (EndsSimple sm right.getLast?)
        fun form => Bare.stmtForm form = Bare.stmtForm (.assign left op sp right) := by
      refine .bind_last hvalues fun ys hys => .bind_recording (.bind_recording (.pure ?_))
      rw [Bare.stmtForm, Bare.stmtForm, hl, hys]
    split
    · refine bind_rangeClause_none (fun t ht => ?_) hfinish
      rw [← List.append_nil (Render.exprs _)] at ht
      exact leads_exprs hne' (by decide) ht
    · exact .bind_pure hfinish
  cases op <;> exact .bind_kind_at hassign

theorem simpleStmt_shortVar {ns : List Ident} {xs : List Expr} (hne : ns ≠ []) (hne' : xs ≠ [])
    (hns : BareNames parse sm.inHeader (nameExprs ns))
    (hxs : ∀ x ∈ xs, ExprInParens parse sm.inHeader x) :
    (simpleStmt parse sm).Rereads sm.inHeader (Render.stmtForm (.shortVar ns sp xs))
      (EndsSimple sm xs.getLast?)
      fun draft => Bare.stmtForm draft.form = Bare.stmtForm (.shortVar ns sp xs) := by
  have hleft : nameExprs ns ≠ [] := by
    rw [nameExprs, Ne, List.map_eq_nil_iff]
    exact hne
  rw [Render.stmtForm, ← render_nameExprs]
  refine simpleStmt_rereads (G := (·.kind = .define))
    (exprList_names hleft hns fun t ht => ?_) (fun _ ht => ht.2) (fun t ht => ?_)
    (fun _ => leads_ne (k := .define) (by decide)) fun left hl => ?_
  · rw [ht]
    decide
  · obtain ⟨n, ns, rfl⟩ := List.exists_cons_of_ne_nil hne
    rw [show t.kind = .ident from ht.2.1]
    decide
  · refine .bind_kind_at (.bind_taking_none (definedNames_rereads (areNames_nameExprs ns) hl)
      fun ms hms => .bind_advance fun o _ => ?_)
    refine bind_rangeClause_none (fun t ht => ?_) ?_
    · rw [← List.append_nil (Render.exprs _)] at ht
      exact leads_exprs hne' (by decide) ht
    · refine .bind_last (exprList_rereads hne' hxs (fun x hx t ht => ht.ends hx) fun t ht => ?_)
        fun ys hys => .bind_recording (.bind_recording (.pure ?_))
      · exact kind_ne_of_or ht.kind (by decide) (by decide)
      · rw [Bare.stmtForm, Bare.stmtForm, hms, hys]

-- =============================================================== ranges

/-- A range clause, where it is acceptable. -/
theorem bind_rangeClause_some {β : Type} {P : β → Prop} {f : Option Expr → Parser β}
    (hx : ExprInParens parse true x)
    (hf : ∀ y, SameExpr x y → (f (some y)).Rereads true [] F P)
    (hF : ∀ t, F t → Ends true x t) :
    (rangeClause parse .forHeader >>= f).Rereads true
      (.kind .kwRange :: Render.parens (Render.expr x)) F P := by
  refine .bind_last (R := fun o => ∃ y, o = some y ∧ SameExpr x y) ?_
    fun o ⟨y, ho, hy⟩ => ho ▸ hf y hy
  exact .bind_eat fun _ => .map (hx.imp hF fun y hy => ⟨y, rfl, hy⟩)

theorem simpleStmt_range (hx : ExprInParens parse true x) :
    (simpleStmt parse .forHeader).Rereads true (Render.stmtForm (.range [] false x))
      (EndsSimple .forHeader (some x))
      fun draft => Bare.stmtForm draft.form = Bare.stmtForm (.range [] false x) := by
  refine .bind_here fun _ => bind_rangeClause_some hx (fun y hy => ?_) fun t ht => ht.ends rfl
  refine .bind_spanFrom fun _ => .pure ?_
  rw [Bare.stmtForm, Bare.stmtForm, hy]

theorem simpleStmt_defineRange {left : List Expr} {ns : List Ident} (hne : left ≠ [])
    (hnames : AreNames left ns) (hleft : BareNames parse true left)
    (hx : ExprInParens parse true x) :
    (simpleStmt parse .forHeader).Rereads true (Render.stmtForm (.range left true x))
      (EndsSimple .forHeader (some x))
      fun draft => Bare.stmtForm draft.form = Bare.stmtForm (.range left true x) := by
  have hrender : Render.stmtForm (.range left true x) =
      Render.commas (left.map Render.expr) ++
        .kind .define :: .kind .kwRange :: Render.parens (Render.expr x) := by
    obtain ⟨y, left, rfl⟩ := List.exists_cons_of_ne_nil hne
    rw [Render.stmtForm]
    exact List.cons_ne_nil _ _
  rw [hrender]
  refine simpleStmt_rereads (G := (·.kind = .define))
    (exprList_names hne hleft fun t ht => ?_) (fun _ ht => ht.2) (fun t ht => ?_)
    (fun _ => leads_ne (k := .define) (by decide)) fun left' hl => ?_
  · rw [ht]
    decide
  · obtain ⟨⟨i, sp, form⟩, left, rfl⟩ := List.exists_cons_of_ne_nil hne
    obtain ⟨n, ns, rfl, hn, -⟩ := List.map_eq_cons_iff.mp (Eq.symm hnames)
    obtain rfl : form = .ident n := hn.symm
    rw [show t.kind = .ident from ht.2.1]
    decide
  · refine .bind_kind_at (.bind_taking_none (definedNames_rereads hnames hl) fun ms hms => ?_)
    refine .bind_advance fun _ _ => bind_rangeClause_some hx (fun y hy => ?_)
      fun t ht => ht.ends rfl
    refine .bind_recording (.pure ?_)
    rw [Bare.stmtForm, Bare.stmtForm, hl, hy]

theorem simpleStmt_assignRange {left : List Expr} (hne : left ≠ [])
    (hleft : ∀ x ∈ left, ExprInParens parse true x) (hx : ExprInParens parse true x) :
    (simpleStmt parse .forHeader).Rereads true (Render.stmtForm (.range left false x))
      (EndsSimple .forHeader (some x))
      fun draft => Bare.stmtForm draft.form = Bare.stmtForm (.range left false x) := by
  have hrender : Render.stmtForm (.range left false x) =
      Render.exprs left ++ .kind .assign :: .kind .kwRange :: Render.parens (Render.expr x) := by
    obtain ⟨y, left, rfl⟩ := List.exists_cons_of_ne_nil hne
    rw [Render.stmtForm]
    exact List.cons_ne_nil _ _
  rw [hrender]
  refine simpleStmt_rereads (G := (·.kind = .assign))
    (exprList_rereads hne hleft (fun x _ t ht => .of_kind ht rfl) fun t ht => ?_)
    (fun _ ht => ht.2) (fun _ => leads_exprs hne (by decide))
    (fun _ => leads_ne (k := .assign) (by decide)) fun left' hl => ?_
  · rw [ht]
    decide
  · refine .bind_kind_at (.bind_advance fun _ _ => ?_)
    rw [if_pos rfl]
    refine bind_rangeClause_some hx (fun y hy => ?_) fun t ht => ht.ends rfl
    refine .bind_recording (.pure ?_)
    rw [Bare.stmtForm, Bare.stmtForm, hl, hy]

-- =============================================================== labels

/-- The colon after a lone name makes it a label. -/
theorem bind_labelBefore_some {β : Type} {P : β → Prop} {f : Option Ident → Parser β}
    {left : List Expr} {n : Ident} (hleft : asLabel left = some n)
    (hf : (f (some n)).Rereads h (.kind .colon :: us) F P) :
    (labelBefore .statement left >>= f).Rereads h (.kind .colon :: us) F P := by
  have hlabel : (labelBefore .statement left).Rereads h [] (·.kind = .colon) (· = some n) := by
    refine .bind_isAt_true (fun _ ht => ht) ?_
    rw [Bool.and_true, show SimpleMode.statement.labelAllowed = true from rfl, if_pos rfl]
    exact .pure hleft
  exact .bind hlabel (fun _ ht => ht.2) fun _ ho => ho ▸ hf

theorem simpleStmt_labeled {n : Ident} {s : Stmt} (hn : BareNames parse false (nameExprs [n]))
    (hs : StmtRereads parse s) :
    (simpleStmt parse .statement).Rereads false (Render.stmtForm (.labeled n s)) (·.kind = .semi)
      fun draft => Bare.stmtForm draft.form = Bare.stmtForm (.labeled n s) := by
  refine .bind_here fun _ => bind_rangeClause_none (fun t ht => ?_) ?_
  · rw [show t.kind = .ident from ht.2.1]
    decide
  have hname : (exprList parse).Rereads false [.name n.name] (·.kind = .colon)
      fun left => left.map Bare.expr = (nameExprs [n]).map Bare.expr := by
    refine exprList_names (List.cons_ne_nil _ _) hn fun t ht => ?_
    rw [ht]
    decide
  refine .bind hname (fun t ht => ht.2) fun left hl => ?_
  · obtain ⟨⟨i, sp, form⟩, rfl, hx⟩ := Bare.singleton_of_eq (x := ⟨0, .nowhere, .ident n⟩) hl
    obtain ⟨m, hm, hident⟩ := Bare.ident_of_eq (exprForm_of_bare hx)
    obtain rfl : form = .ident m := hm
    refine bind_labelBefore_some rfl (.bind_advance fun _ _ => ?_)
    refine .bind_last hs fun s' hs' => .bind_spanFrom fun _ => .pure ?_
    rw [Bare.stmtForm, Bare.stmtForm, hident, hs']

end Grammar

end GoSource
