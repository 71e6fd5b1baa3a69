/-
Statements, in a store and as trees.

What has been read as an expression and is looked at again, because it may
be a label or a name on the left of `:=`, has its row in the store by then;
so what is found there decides as the expression does.
-/
import GoSource.Proofs.Arena.Statement
import GoSource.Proofs.Storage.TypeExpr

namespace GoSource.Stored.Grammar

open GoSource.Stored.Parser

variable {R : Reader} {parse : SubParser} {tree : GoSource.SubParser} (hp : parse.Mimics tree)

include hp

-- =============================================================== blocks

theorem nextStmt_mimics {ss : List StmtId} {ss' : List GoSource.Stmt}
    (h : each Reader.stmt R ss = some ss') :
    Mimics R (nextStmt parse ss) (GoSource.Grammar.nextStmt tree ss')
      (turn (each Reader.stmt)) := by
  refine .choice (.pure (turn_stop h)) (.bind_look fun o => ?_)
  cases o with
  | some sp => exact .pure (turn_again h)
  | none =>
    refine .bind hp.statement fun R' s s' hle hs => ?_
    have hmore := each_cons hs (each_le (hle.node .stmt) h)
    exact .choice (.pure (turn_again hmore)) (.bind_look fun _ => .pure (turn_again hmore))

theorem stmtList_mimics :
    Mimics R (stmtList parse) (GoSource.Grammar.stmtList tree) Reader.stmts := by
  refine .bind (.repeating each_nil fun R₁ ss ss' _ => nextStmt_mimics hp)
    fun R₁ ss ss' _ hss => .of_bind_pure ?_
  exact .bind_listStmts (each_reverse hss) fun R₂ r _ hr => .pure hr

theorem block_mimics : Mimics R (block parse) (GoSource.Grammar.block tree) Block.read := by
  refine .unrestricted (.bind_look fun lBrace => .bind (stmtList_mimics hp) fun R₁ r ss _ hr => ?_)
  exact .bind_look fun rBrace => .pure (by simp [Block.read, hr])

-- ==================================================== simple statements

omit hp in
theorem single_mimics {is : List ExprId} {xs : List GoSource.Expr}
    (h : each Reader.expr R is = some xs) :
    Mimics R (single is) (GoSource.Grammar.single xs) Reader.expr := by
  cases mapM_eq_some_iff.mp h with
  | nil => exact .unexpected
  | cons hx hrest =>
    cases hrest with
    | nil => exact .pure hx
    | cons => exact .unexpected

omit hp in
theorem definedNames_mimics {is : List ExprId} {xs : List GoSource.Expr}
    (h : each Reader.expr R is = some xs) :
    Mimics R (definedNames is) (GoSource.Grammar.definedNames xs) (each Ident.read) := by
  unfold definedNames GoSource.Grammar.definedNames
  induction is generalizing R xs with
  | nil =>
    obtain rfl := Option.some.inj h
    exact .pure rfl
  | cons i is ih =>
    obtain ⟨⟨_, sp, form⟩, xs, hx, hxs, rfl⟩ := each_cons_iff.mp h
    rw [List.mapM_cons, List.mapM_cons]
    refine .bind (?_ : Mimics R _ _ Ident.read) fun R₁ n n' hle hn => ?_
    · refine .find (.exprRow hx) fun row hrow => ?_
      cases Expr.sameForm hrow with
      | ident => exact .pure (Expr.read_ident.mp hrow)
      | _ => exact .known (.exprSpan hx) .unexpectedAt
    · refine .bind (ih (each_le (hle.node .expr) hxs)) fun R₂ ns ns' hle hns => .pure ?_
      exact each_cons (Ident.read_le hle _ hn) hns

omit hp in
theorem asLabel_finds {is : List ExprId} {xs : List GoSource.Expr}
    (h : each Reader.expr R is = some xs) :
    Finds R (asLabel is) fun o => maybe Ident.read R o = some (GoSource.Grammar.asLabel xs) := by
  cases mapM_eq_some_iff.mp h with
  | nil => exact .pure rfl
  | @cons i x _ _ hx hrest =>
    obtain ⟨_, _, form⟩ := x
    cases hrest with
    | cons => cases form <;> exact .pure rfl
    | nil =>
      refine .bind (.exprRow hx) fun row hrow => ?_
      cases Expr.sameForm hrow with
      | ident => exact .pure (maybe_some (Expr.read_ident.mp hrow))
      | _ => exact .pure rfl

theorem rangeClause_mimics {mode : SimpleMode} :
    Mimics R (rangeClause parse mode) (GoSource.Grammar.rangeClause tree mode)
      (maybe Reader.expr) := by
  refine .ite (fun _ => .bind_look fun o => ?_) fun _ => .pure rfl
  cases o with
  | none => exact .pure rfl
  | some sp => exact .map hp.expression fun _ _ _ _ => maybe_some

theorem definition_mimics {mode : SimpleMode} {left : List ExprId} {left' : List GoSource.Expr}
    (h : each Reader.expr R left = some left') :
    Mimics R (definition parse mode left) (GoSource.Grammar.definition tree mode left')
      Stmt.read := by
  refine .bind (definedNames_mimics h) fun R₁ names names' hle₁ hnames => .bind_look fun op => ?_
  refine .bind (rangeClause_mimics hp) fun R₂ o o' hle₂ ho => ?_
  obtain ⟨rfl, rfl⟩ | ⟨i, x, rfl, rfl, hx⟩ := maybe_cases ho
  · refine .bind (exprList_mimics hp) fun R₃ values values' hle₃ hvalues => ?_
    have hnames := each_le (Ident.read_le (hle₂.trans hle₃)) hnames
    refine .bind_listIdents hnames fun R₄ r hle₄ hr => ?_
    refine .bind_listExprs (each_le (hle₄.node .expr) hvalues) fun R₅ r' hle₅ hr' => .pure ?_
    have hr := hle₅.list _ _ hr
    simp [Stmt.read, hr, hr']
  · have hleft := each_le ((hle₁.trans hle₂).node .expr) h
    refine .bind_listExprs hleft fun R₃ r hle₃ hr => .pure ?_
    have hx := hle₃.node _ _ hx
    simp [Stmt.read, hr, hx]

theorem assignment_mimics {mode : SimpleMode} {left : List ExprId} {left' : List GoSource.Expr}
    {op : AssignOp} (h : each Reader.expr R left = some left') :
    Mimics R (assignment parse mode left op) (GoSource.Grammar.assignment tree mode left' op)
      Stmt.read := by
  refine .bind_look fun opToken => ?_
  refine .joinIte (maybe Reader.expr) (fun _ => rangeClause_mimics hp) (fun _ => .pure rfl) ?_
  intro R₁ o o' hle₁ ho
  have hleft := each_le (hle₁.node .expr) h
  obtain ⟨rfl, rfl⟩ | ⟨i, x, rfl, rfl, hx⟩ := maybe_cases ho
  · refine .bind (exprList_mimics hp) fun R₂ right right' hle₂ hright => ?_
    refine .bind_listExprs (each_le (hle₂.node .expr) hleft) fun R₃ r hle₃ hr => ?_
    refine .bind_listExprs (each_le (hle₃.node .expr) hright) fun R₄ r' hle₄ hr' => .pure ?_
    have hr := hle₄.list _ _ hr
    simp [Stmt.read, hr, hr']
  · refine .bind_listExprs hleft fun R₂ r hle₂ hr => .pure ?_
    have hx := hle₂.node _ _ hx
    simp [Stmt.read, hr, hx]

theorem afterExprs_mimics {mode : SimpleMode} {left : List ExprId} {left' : List GoSource.Expr}
    (h : each Reader.expr R left = some left') :
    Mimics R (afterExprs parse mode left) (GoSource.Grammar.afterExprs tree mode left')
      Stmt.read := by
  refine .bind_look fun kind => ?_
  generalize hop : AssignOp.ofKind kind = o
  cases kind with
  | arrow =>
    refine .bind (single_mimics h) fun R₁ chan chan' _ hchan => .bind_look fun _ => ?_
    refine .bind hp.expression fun R₂ i x hle hx => .pure ?_
    have hchan := hle.node _ _ hchan
    simp [Stmt.read, hchan, hx]
  | increment | decrement =>
    refine .bind (single_mimics h) fun R₁ i x _ hx => .bind_look fun _ => .pure ?_
    simp [Stmt.read, hx]
  | define => exact definition_mimics hp h
  | _ =>
    simp only [hop]
    cases o with
    | some op => exact assignment_mimics hp h
    | none => exact .map (single_mimics h) fun R' i x _ hx => by simp [Stmt.read, hx]

omit hp in
theorem labelBefore_mimics {mode : SimpleMode} {left : List ExprId} {left' : List GoSource.Expr}
    (h : each Reader.expr R left = some left') :
    Mimics R (labelBefore mode left) (GoSource.Grammar.labelBefore mode left')
      (maybe Ident.read) := by
  refine .bind_look fun colon => .ite (fun _ => .of_bind_pure ?_) fun _ => .pure rfl
  exact .find (asLabel_finds h) fun o ho => .pure ho

theorem simpleStmt_mimics {mode : SimpleMode} :
    Mimics R (simpleStmt parse mode) (GoSource.Grammar.simpleStmt tree mode) Draft.read := by
  refine .bind_look fun start => .bind (rangeClause_mimics hp) fun R₁ o o' _ ho => ?_
  obtain ⟨rfl, rfl⟩ | ⟨i, x, rfl, rfl, hx⟩ := maybe_cases ho
  · refine .bind (exprList_mimics hp) fun R₂ left left' _ hleft => ?_
    refine .bind (labelBefore_mimics hleft) fun R₃ o o' hle ho => ?_
    obtain ⟨rfl, rfl⟩ | ⟨label, label', rfl, rfl, hlabel⟩ := maybe_cases ho
    · refine .bind (afterExprs_mimics hp (each_le (hle.node .expr) hleft)) fun R₄ s form _ hs => ?_
      exact .bind_look fun sp => .pure (by simp [Draft.read, hs])
    · refine .bind_look fun _ => .bind hp.statement fun R₄ s s' hle hs => .bind_look fun sp => ?_
      have hlabel := Ident.read_le hle _ hlabel
      exact .pure (by simp [Draft.read, Stmt.read, hlabel, hs])
  · refine .bind_look fun sp => .withEmpty fun hempty => .pure ?_
    simp [Draft.read, Stmt.read, hempty, hx]

-- ============================================================== headers

omit hp in
theorem condition_mimics {d : Draft} {d' : GoSource.Draft} (h : d.read R = some d') :
    Mimics R (condition d) (GoSource.Grammar.condition d') Reader.expr := by
  obtain ⟨stmt, sp⟩ := d
  obtain ⟨form, sp'⟩ := d'
  obtain ⟨hstmt, rfl : sp = sp'⟩ := Draft.read_eq_some.mp h
  cases Stmt.sameForm hstmt with
  | expr => exact .pure (Stmt.read_expr.mp hstmt)
  | _ => exact .unexpectedAt

omit hp in
theorem keep_mimics {d : Draft} {d' : GoSource.Draft} (h : d.read R = some d') :
    Mimics R (keep d) (GoSource.Grammar.keep d') Reader.stmt := by
  obtain ⟨hstmt, hspan⟩ := Draft.read_eq_some.mp h
  rw [keep, GoSource.Grammar.keep, hspan]
  exact .newStmt hstmt

theorem ifHeader_mimics :
    Mimics R (ifHeader parse) (GoSource.Grammar.ifHeader tree)
      (both (maybe Reader.stmt) Reader.expr) := by
  refine .bind hp.simpleStmt fun R₁ first first' _ hfirst => .bind_look fun o => ?_
  cases o with
  | none =>
    refine .bind (condition_mimics hfirst) fun R₂ i x _ hx => .pure ?_
    exact both_eq_some.mpr ⟨rfl, hx⟩
  | some sp =>
    refine .bind (keep_mimics hfirst) fun R₂ init init' _ hinit => ?_
    refine .bind hp.simpleStmt fun R₃ second second' hle₃ hsecond => ?_
    refine .bind (condition_mimics hsecond) fun R₄ i x hle₄ hx => .pure ?_
    exact both_eq_some.mpr ⟨maybe_some ((hle₃.trans hle₄).node _ _ hinit), hx⟩

theorem otherwise_mimics :
    Mimics R (otherwise parse) (GoSource.Grammar.otherwise tree) Reader.stmt := by
  refine .bind_look fun kind => ?_
  cases kind with
  | kwIf => exact hp.ifStmt
  | lBrace =>
    refine .bind hp.block fun R' b b' _ hb => ?_
    rw [Block.span_of_read hb]
    exact .newStmt (by simp [Stmt.read, hb])
  | _ => exact .unexpected

theorem ifStmt_mimics :
    Mimics R (ifStmt parse) (GoSource.Grammar.ifStmt tree) Reader.stmt := by
  refine .bind_look fun start => .bind (.asHeader (ifHeader_mimics hp)) ?_
  rintro R₁ ⟨init, i⟩ ⟨init', x⟩ _ h
  obtain ⟨hinit, hx⟩ := both_eq_some.mp h
  refine .bind hp.block fun R₂ b b' hle₂ hb => ?_
  refine .joinOption (maybe Reader.stmt)
    (fun _ => .map (otherwise_mimics hp) fun _ _ _ _ => maybe_some) (.pure rfl) ?_
  refine fun R₃ other other' hle₃ hother => .bind_look fun sp => .newStmt ?_
  have hinit : optional R₃.stmt init = some init' :=
    Sub.optional ((hle₂.trans hle₃).node .stmt) _ hinit
  have hother : optional R₃.stmt other = some other' := hother
  have hx := (hle₂.trans hle₃).node _ _ hx
  have hb := Block.read_le hle₃ _ hb
  simp [Stmt.read, hinit, hx, hb, hother]

theorem postStmt_mimics :
    Mimics R (postStmt parse) (GoSource.Grammar.postStmt tree) (maybe Reader.stmt) := by
  refine .choice (.pure rfl) (.bind hp.simpleStmt fun R₁ d d' _ hd => ?_)
  have keeping : Mimics R₁ (some <$> keep d) (some <$> GoSource.Grammar.keep d')
      (maybe Reader.stmt) := .map (keep_mimics hd) fun _ _ _ _ => maybe_some
  obtain ⟨stmt, sp⟩ := d
  obtain ⟨form, sp'⟩ := d'
  obtain ⟨hstmt, rfl : sp = sp'⟩ := Draft.read_eq_some.mp hd
  cases Stmt.sameForm hstmt with
  | shortVar => exact .unexpectedAt
  | _ => exact keeping

theorem forClause_mimics {init : Option StmtId} {init' : Option GoSource.Stmt}
    (hinit : maybe Reader.stmt R init = some init') :
    Mimics R (forClause parse init) (GoSource.Grammar.forClause tree init') ForHeader.read := by
  refine .bind_look fun _ => .joinChoice (maybe Reader.expr) (.pure rfl)
    (.map hp.expression fun _ _ _ _ => maybe_some) fun R₁ o o' hle₁ ho => .bind_look fun _ => ?_
  refine .bind (postStmt_mimics hp) fun R₂ post post' hle₂ hpost => .pure ?_
  have hinit : optional R₂.stmt init = some init' :=
    Sub.optional ((hle₁.trans hle₂).node .stmt) _ hinit
  have ho : optional R₂.expr o = some o' := Sub.optional (hle₂.node .expr) _ ho
  have hpost : optional R₂.stmt post = some post' := hpost
  simp [ForHeader.read, hinit, ho, hpost]

theorem forHeader_mimics :
    Mimics R (forHeader parse) (GoSource.Grammar.forHeader tree) ForHeader.read := by
  have clause {R₁ : Reader} {d : Draft} {d' : GoSource.Draft} (hd : d.read R₁ = some d') :
      Mimics R₁
        (isAt .lBrace >>= fun atBody => if atBody then ForHeader.cond <$> condition d
          else keep d >>= fun init => forClause parse (some init))
        (GoSource.Parser.isAt .lBrace >>= fun atBody =>
          if atBody then .cond <$> GoSource.Grammar.condition d'
          else GoSource.Grammar.keep d' >>= fun init =>
            GoSource.Grammar.forClause tree (some init)) ForHeader.read := by
    refine .choice (.map (condition_mimics hd) fun R₂ i x _ hx => by simp [ForHeader.read, hx]) ?_
    exact .bind (keep_mimics hd) fun R₂ s s' _ hs => forClause_mimics hp (maybe_some hs)
  have range {R₁ : Reader} {d : Draft} {d' : GoSource.Draft} (hd : d.read R₁ = some d') :
      Mimics R₁ (ForHeader.range <$> keep d)
        (GoSource.ForHeader.range <$> GoSource.Grammar.keep d') ForHeader.read :=
    .map (keep_mimics hd) fun R₂ s s' _ hs => by simp [ForHeader.read, hs]
  refine .bind_look fun kind => ?_
  cases kind with
  | lBrace => exact .pure rfl
  | semi => exact forClause_mimics hp rfl
  | _ =>
    refine .bind hp.simpleStmt fun R₁ d d' _ hd => ?_
    obtain ⟨stmt, sp⟩ := d
    obtain ⟨form, sp'⟩ := d'
    cases Stmt.sameForm (Draft.read_eq_some.mp hd).1 with
    | range => exact range hd
    | _ => exact clause hd

theorem forStmt_mimics :
    Mimics R (forStmt parse) (GoSource.Grammar.forStmt tree) Stmt.read := by
  refine .bind_look fun _ => .bind (.asHeader (forHeader_mimics hp)) fun R₁ hd hd' _ hhd => ?_
  refine .bind hp.block fun R₂ b b' hle hb => .pure ?_
  have hhd := ForHeader.read_le hle _ hhd
  simp [Stmt.read, hhd, hb]

-- =========================================================== statements

theorem calledBy_mimics {keyword : String} :
    Mimics R (calledBy parse keyword) (GoSource.Grammar.calledBy tree keyword) Reader.expr := by
  refine .bind hp.expression fun R₁ i x _ hx => .find (.exprRow hx) fun row hrow => ?_
  obtain ⟨_, sp, form⟩ := x
  cases Expr.sameForm hrow with
  | call => exact .pure hx
  | _ => exact .known (.exprSpan hx) .unexpectedAt

theorem results_mimics :
    Mimics R (results parse) (GoSource.Grammar.results tree) Reader.exprs := by
  refine .bind_look fun kind => ?_
  have some : Mimics R (exprList parse >>= listExprs)
      (GoSource.Grammar.exprList tree >>= fun xs =>
        GoSource.Parser.recording (·.addExprs xs) >>= fun _ => Pure.pure xs) Reader.exprs :=
    .bind (exprList_mimics hp) fun R₁ is xs _ hxs =>
      .of_bind_pure (.bind_listExprs hxs fun R₂ r _ hr => .pure hr)
  cases kind with
  | semi | rBrace => exact .withEmpty fun hempty => .pure (hempty .exprs)
  | _ => exact some

omit hp in
theorem optionalLabel_mimics :
    Mimics R optionalLabel GoSource.Grammar.optionalLabel (maybe Ident.read) :=
  .choice (.map .ident fun _ _ _ _ => maybe_some) (.pure rfl)

omit hp in
theorem finishStmt_mimics {start : Location} {row : Stmt} {form : StmtForm}
    (h : row.read R = some form) :
    Mimics R (finishStmt start row) (GoSource.Grammar.finishStmt start form) Reader.stmt :=
  .bind_look fun _ => .newStmt h

theorem declStmt_mimics {start : Location} {group : GroupKind} :
    Mimics R (declStmt parse start group) (GoSource.Grammar.declStmt tree start group)
      Reader.stmt := by
  refine .bind hp.group fun R₁ ds ds' _ hds => .bind_listDecls hds fun R₂ r _ hr => ?_
  exact finishStmt_mimics (by simp [Stmt.read, hr])

theorem statement_mimics :
    Mimics R (statement parse) (GoSource.Grammar.statement tree) Reader.stmt := by
  refine .bind_look fun start => .bind_look fun kind => ?_
  have empty : Mimics R
      (previousEnd >>= fun stop => newStmt .empty (.point stop))
      (GoSource.Parser.previousEnd >>= fun stop => GoSource.Parser.newStmt .empty (.point stop))
      Reader.stmt := .bind_look fun _ => .newStmt rfl
  cases kind with
  | kwConst | kwVar | kwType => exact declStmt_mimics hp
  | lBrace =>
    refine .bind hp.block fun R₁ b b' _ hb => finishStmt_mimics ?_
    simp [Stmt.read, hb]
  | kwIf => exact hp.ifStmt
  | kwFor => exact .bind hp.forStmt fun R₁ s form _ hs => finishStmt_mimics hs
  | kwGo | kwDefer =>
    refine .bind_look fun _ => .bind (calledBy_mimics hp) fun R₁ i x _ hx => finishStmt_mimics ?_
    simp [Stmt.read, hx]
  | kwReturn =>
    refine .bind_look fun _ => .bind (results_mimics hp) fun R₁ r xs _ hr => finishStmt_mimics ?_
    simp [Stmt.read, hr]
  | kwBreak | kwContinue =>
    refine .bind_look fun _ => .bind optionalLabel_mimics fun R₁ o o' _ ho => finishStmt_mimics ?_
    unfold maybe at ho
    simp [Stmt.read, ho]
  | kwGoto =>
    refine .bind_look fun _ => .bind .ident fun R₁ n n' _ hn => finishStmt_mimics ?_
    simp [Stmt.read, hn]
  | kwFallthrough => exact .bind_look fun _ => finishStmt_mimics rfl
  | semi | rBrace | eof => exact empty
  | kwSwitch | kwSelect => exact .bind_look fun _ => .fail
  | _ => exact .bind hp.simpleStmt fun R₁ d d' _ hd => keep_mimics hd

-- ==================================================== type switch guards

omit hp in
theorem isGuard_finds {i : ExprId} {x : GoSource.Expr} (hx : R.expr i = some x) :
    Finds R (isGuard i) (· = GoSource.Grammar.isGuard x) := by
  refine .bind (.exprRow hx) fun row hrow => ?_
  obtain ⟨_, _, form⟩ := x
  cases Expr.sameForm hrow with
  | typeAssert =>
    obtain ⟨rfl, rfl⟩ | ⟨i, t, rfl, rfl, ht⟩ := maybe_cases (Expr.read_typeAssert.mp hrow).2
    · exact .pure rfl
    · exact .pure rfl
  | _ => exact .pure rfl

omit hp in
theorem isGuardStmt_finds {row : Stmt} {form : StmtForm} (h : row.read R = some form) :
    Finds R (isGuardStmt row) (· = GoSource.Grammar.isGuardStmt form) := by
  cases Stmt.sameForm h with
  | expr => exact isGuard_finds (Stmt.read_expr.mp h)
  | @shortVar names sp values names' values' =>
    obtain ⟨hnames, hvalues⟩ := Stmt.read_shortVar.mp h
    refine .withLength hnames fun hlength => .bind (.exprItems hvalues) fun is his => ?_
    cases mapM_eq_some_iff.mp his with
    | nil => rcases names' with _ | ⟨_, _ | _⟩ <;> exact .pure rfl
    | cons hx hrest =>
      cases hrest with
      | cons => rcases names' with _ | ⟨_, _ | _⟩ <;> exact .pure rfl
      | nil =>
        show Finds R (if names.length = 1 then isGuard _ else Pure.pure false) _
        rw [hlength]
        rcases names' with _ | ⟨n, _ | _⟩
        · exact .pure rfl
        · exact isGuard_finds hx
        · exact .pure rfl
  | _ => exact .pure rfl

theorem typeSwitchGuard_mimics :
    Mimics R (typeSwitchGuard parse) (GoSource.Grammar.typeSwitchGuard tree) Reader.stmt := by
  refine .bind_look fun _ => .bind hp.simpleStmt fun R₁ d d' _ hd => .bind_look fun _ => ?_
  obtain ⟨hstmt, hspan⟩ := Draft.read_eq_some.mp hd
  refine .known (isGuardStmt_finds hstmt) (.ite (fun _ => ?_) fun _ => hspan ▸ .unexpectedAt)
  refine .bind (keep_mimics hd) fun R₂ s s' _ hs => ?_
  exact .bind_look fun _ => .bind_look fun _ => .pure hs

end GoSource.Stored.Grammar
