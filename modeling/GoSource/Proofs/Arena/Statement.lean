/-
What statements build.

A label and the names on the left of `:=` come from expressions. These are
left behind in the arena, which is closed, so the names in them are known.

A draft is a form that has no number yet. What stands in it is held, and
the statement that is made of it, if one is, takes its place.
-/
import GoSource.Proofs.Arena.TypeExpr

namespace GoSource

open GoSource.Parser Renumber

variable {δ : NodeKind → Nat} {a₀ a : Arena}

namespace Arena

/-- A name in an expression that was recorded. -/
theorem Closed.knows_ident (ha : a.Closed) {x : Expr} {n : Ident} (hx : a.Holds (.expr x))
    (hn : x.form = .ident n) : a.Knows n.name := by
  have hparts := (ha.keepsAll_of_holds hx).1
  simp only [Visit.parts, hn, ExprForm.parts] at hparts
  exact hparts _ (List.mem_singleton_self _)

end Arena

namespace Grammar

attribute [local simp] stmtForm StmtForm.parts StmtForm.lists

-- =============================================================== blocks

instance : Ignores atListEnd := by
  refine .bind .kind fun k => ?_
  split
  · exact .pure _
  · exact .pure _
  · exact .pure _

section

variable {parse : SubParser} (hp : parse.Builds δ)

include hp

theorem stmtList_builds : Builds δ (List.map (stmt δ)) (stmtList parse) (stmtList parse) a
    fun ss b => Held a b (ss.map .stmt) [.stmts ss] := by
  refine .bind (.repeating (g := List.map (stmt δ))
    (I := fun ss b => Held a b (ss.reverse.map .stmt) []) (.nil (.refl a)) rfl fun ss b hss => ?_)
    fun ss b hss => ?_
  · refine .choice (.pure hss rfl) (.bind_look fun o => ?_)
    cases o with
    | some sp => exact .pure hss rfl
    | none =>
      refine .bind hp.statement fun s c hs => ?_
      have hmore : Held a c ((s :: ss).reverse.map .stmt) [] := by simpa using hss.append hs
      exact .choice (.pure hmore rfl) (.bind_look fun _ => .pure hmore rfl)
  · refine .bind_list (b.addStmts_adds ss.reverse) (·.addStmts_adds _) hss (by simp) (by simp) ?_
    exact fun c hss => .pure hss List.map_reverse.symm

theorem block_builds : Builds δ (Renumber.block δ) (Grammar.block parse) (Grammar.block parse) a
    fun b c => Held a c b.parts b.lists := by
  refine .unrestricted (.bind_look fun lBrace => .bind (stmtList_builds hp) fun ss b hss => ?_)
  exact .bind_look fun rBrace => .pure hss (by simp [Renumber.block])

-- ==================================================== simple statements

omit hp in
theorem single_builds {left : List Expr} (h : Held a₀ a (left.map .expr) []) :
    Builds δ (expr δ) (single left) (single (left.map (expr δ))) a
      fun x b => Held a₀ b [.expr x] [] := by
  rcases left with _ | ⟨x, _ | ⟨y, left⟩⟩
  · exact .unexpected
  · exact .pure h rfl
  · exact .unexpected

omit hp in
theorem definedNames_builds {left : List Expr} (h : ∀ x ∈ left, a.Holds (.expr x)) :
    Builds δ id (definedNames left) (definedNames (left.map (expr δ))) a
      fun names b => b = a ∧ ∀ n ∈ names, a.Knows n.name := by
  refine .closing fun ha => ?_
  unfold definedNames
  induction left with
  | nil => exact .pure ⟨rfl, nofun⟩ rfl
  | cons x left ih =>
    obtain ⟨hx, hleft⟩ := List.forall_mem_cons.mp h
    rw [List.map_cons, List.mapM_cons, List.mapM_cons]
    obtain ⟨i, sp, form⟩ := x
    cases form with
    | ident n =>
      refine .bind_pure (.bind (ih hleft) ?_)
      rintro names b ⟨rfl, hnames⟩
      exact .pure ⟨rfl, List.forall_mem_cons.mpr ⟨ha.knows_ident hx rfl, hnames⟩⟩ rfl
    | _ => exact .bind (g := id) (P := fun _ _ => False) .unexpectedAt nofun

theorem rangeClause_builds {mode : SimpleMode} :
    Builds δ (Option.map (expr δ)) (rangeClause parse mode) (rangeClause parse mode) a
      fun x b => Held a b (x.toList.map .expr) [] := by
  refine .ite (fun _ => .bind_look fun o => ?_) fun _ => .pure (.nil (.refl a)) rfl
  cases o with
  | some sp => exact .map hp.expression fun x b hx => ⟨hx, rfl⟩
  | none => exact .pure (.nil (.refl a)) rfl

variable {mode : SimpleMode} {left : List Expr}

theorem definition_builds (h : Held a₀ a (left.map .expr) []) :
    Builds δ (stmtForm δ) (definition parse mode left)
      (definition parse mode (left.map (expr δ))) a
      fun form b => Held a₀ b form.parts form.lists := by
  have hleft : ∀ x ∈ left, a.Holds (.expr x) := fun x hx => h.keeps.1 _ (List.mem_map_of_mem hx)
  refine .bind (definedNames_builds hleft) ?_
  rintro names b ⟨rfl, hnames⟩
  refine .bind_look fun op => .bind (rangeClause_builds hp) fun clause c hclause => ?_
  cases clause with
  | some x =>
    refine .bind_list (c.addExprs_adds left) (·.addExprs_adds _) (h.append hclause) (by simp)
      (by simp) fun d hd => ?_
    exact .pure hd rfl
  | none =>
    refine .bind (exprList_builds hp) fun values d hvalues => ?_
    have hall := (Held.names h.grows hnames).append (hvalues.since hclause.grows)
    refine .bind_list (d.addIdents_adds names) (·.addIdents_adds names) hall (by simp) (by simp) ?_
    intro e hall
    refine .bind_list (e.addExprs_adds values) (·.addExprs_adds _) hall (by simp) (by simp) ?_
    exact fun f hall => .pure (hall.congr (by simp) (by simp)) rfl

theorem assignment_builds {op : AssignOp} (h : Held a₀ a (left.map .expr) []) :
    Builds δ (stmtForm δ) (assignment parse mode left op)
      (assignment parse mode (left.map (expr δ)) op) a
      fun form b => Held a₀ b form.parts form.lists := by
  refine .bind_look fun op => .joinIte (fun _ => rangeClause_builds hp)
    (fun _ => .pure (.nil (.refl a)) rfl) fun clause b hclause => ?_
  cases clause with
  | some x =>
    refine .bind_list (b.addExprs_adds left) (·.addExprs_adds _) (h.append hclause) (by simp)
      (by simp) fun c hc => ?_
    exact .pure hc rfl
  | none =>
    refine .bind (exprList_builds hp) fun right c hright => ?_
    have hall := h.append (hright.since hclause.grows)
    refine .bind_list (c.addExprs_adds left) (·.addExprs_adds _) hall (by simp) (by simp) ?_
    intro d hall
    refine .bind_list (d.addExprs_adds right) (·.addExprs_adds _) hall (by simp) (by simp) ?_
    exact fun e hall => .pure (hall.congr (by simp) (by simp)) rfl

theorem afterExprs_builds (h : Held a₀ a (left.map .expr) []) :
    Builds δ (stmtForm δ) (afterExprs parse mode left)
      (afterExprs parse mode (left.map (expr δ))) a
      fun form b => Held a₀ b form.parts form.lists := by
  refine .bind_look fun kind => ?_
  split
  · refine .bind (single_builds h) fun chan b hchan => .bind_look fun _ => ?_
    exact .bind hp.expression fun x c hx => .pure (hchan.append hx) rfl
  iterate 2
    refine .bind (single_builds h) fun x b hx => ?_
    exact .bind_look fun _ => .pure hx rfl
  · exact definition_builds hp h
  · split
    · exact assignment_builds hp h
    · exact .map (single_builds h) fun x b hx => ⟨hx, rfl⟩

omit hp in
theorem asLabel_exprs : asLabel (left.map (expr δ)) = asLabel left := by
  rcases left with _ | ⟨⟨i, sp, form⟩, _ | ⟨y, left⟩⟩
  · rfl
  · cases form <;> rfl
  · simp [asLabel]

omit hp in
theorem labelBefore_builds (h : ∀ x ∈ left, a.Holds (.expr x)) :
    Builds δ id (labelBefore mode left) (labelBefore mode (left.map (expr δ))) a
      fun label b => b = a ∧ ∀ n ∈ label, a.Knows n.name := by
  refine .closing fun ha => .bind_look fun colon => .ite (fun _ => .pure ⟨rfl, ?_⟩ ?_) fun _ => ?_
  · intro n hn
    unfold asLabel at hn
    split at hn
    · cases hn
      exact ha.knows_ident (h _ (List.mem_singleton_self _)) rfl
    · exact nomatch hn
  · exact asLabel_exprs
  · exact .pure ⟨rfl, nofun⟩ rfl

theorem simpleStmt_builds : Builds δ (draft δ) (simpleStmt parse mode) (simpleStmt parse mode) a
    fun d b => Held a b d.form.parts d.form.lists := by
  refine .bind_look fun start => .bind (rangeClause_builds hp) fun clause b hclause => ?_
  cases clause with
  | some x =>
    refine .bind_look fun sp => .pure (hclause.congr rfl (by simp)) ?_
    simp [draft]
  | none =>
    refine .bind (exprList_builds hp) fun left c hleft => ?_
    have hleft := hleft.since hclause.grows
    refine .bind (labelBefore_builds fun x hx => hleft.keeps.1 _ (List.mem_map_of_mem hx)) ?_
    rintro label c ⟨rfl, hlabel⟩
    cases label with
    | none =>
      refine .bind (afterExprs_builds hp hleft) fun form d hform => ?_
      exact .bind_look fun sp => .pure hform rfl
    | some label =>
      have hlabel : Held a c [.name label] [] :=
        .name hleft.grows (hlabel label rfl)
      refine .bind_look fun _ => .bind hp.statement fun s d hs => ?_
      exact .bind_look fun sp => .pure (hlabel.append hs) (by simp [draft])

-- ============================================================== headers

variable {d : Draft}

omit hp in
theorem condition_builds (h : Held a₀ a d.form.parts d.form.lists) :
    Builds δ (expr δ) (condition d) (condition (draft δ d)) a
      fun x b => Held a₀ b [.expr x] [] := by
  obtain ⟨form, sp⟩ := d
  cases form with
  | expr x => exact .pure h rfl
  | _ => exact .unexpectedAt

omit hp in
theorem keep_builds (h : Held a₀ a d.form.parts d.form.lists) :
    Builds δ (stmt δ) (keep d) (keep (draft δ d)) a fun s b => Held a₀ b [.stmt s] [] :=
  .newStmt h rfl

theorem ifHeader_builds :
    Builds δ (fun r => (r.1.map (stmt δ), expr δ r.2)) (ifHeader parse) (ifHeader parse) a
      fun r b => Held a b (r.1.toList.map .stmt ++ [.expr r.2]) [] := by
  refine .bind hp.simpleStmt fun first b hfirst => .bind_look fun o => ?_
  cases o with
  | none => exact .bind (condition_builds hfirst) fun x c hx => .pure hx rfl
  | some sp =>
    refine .bind (keep_builds hfirst) fun init c hinit => ?_
    refine .bind hp.simpleStmt fun second d hsecond => ?_
    exact .bind (condition_builds hsecond) fun x e hx => .pure (hinit.append hx) rfl

theorem otherwise_builds : Builds δ (stmt δ) (otherwise parse) (otherwise parse) a
    fun s b => Held a b [.stmt s] [] := by
  refine .bind_look fun kind => ?_
  split
  · exact hp .ifStmt (.nil (.refl a))
  · exact .bind hp.block fun body b hbody => .newStmt (f := .block body) hbody (by simp)
  · exact .unexpected

theorem ifStmt_builds : Builds δ (stmt δ) (ifStmt parse) (ifStmt parse) a
    fun s b => Held a b [.stmt s] [] := by
  refine .bind_look fun _ => ?_
  refine .bind (.asHeader (ifHeader_builds hp)) fun ⟨init, cond⟩ b hheader => ?_
  refine .bind hp.block fun body c hbody => ?_
  refine .joinOption (g := Option.map (stmt δ)) (P := fun s d => Held c d (s.toList.map .stmt) [])
    (fun _ => .map (otherwise_builds hp) fun s d hs => ⟨hs, rfl⟩) (.pure (.nil (.refl c)) rfl) ?_
  intro other d hother
  refine .bind_look fun sp => .newStmt ((hheader.append (hbody.append hother)).congr ?_ ?_) ?_
  · simp
  · exact fun l hl => .inl (by simpa using hl)
  · simp

theorem postStmt_builds :
    Builds δ (Option.map (stmt δ)) (postStmt parse) (postStmt parse) a
      fun s b => Held a b (s.toList.map .stmt) [] := by
  refine .choice (.pure (.nil (.refl a)) rfl) (.bind hp.simpleStmt fun d b hd => ?_)
  have kept : Builds δ (Option.map (stmt δ)) (some <$> keep d) (some <$> keep (draft δ d)) b
      fun s c => Held a c (s.toList.map .stmt) [] :=
    .map (keep_builds hd) fun s c hs => ⟨hs, rfl⟩
  obtain ⟨form, sp⟩ := d
  cases form with
  | shortVar => exact .unexpectedAt
  | _ => exact kept

theorem forClause_builds (init : Option Stmt) (h : Held a₀ a (init.toList.map .stmt) []) :
    Builds δ (Renumber.forHeader δ) (forClause parse init)
      (forClause parse (init.map (stmt δ))) a fun header b => Held a₀ b header.parts [] := by
  refine .bind_look fun _ => ?_
  refine .joinChoice (g := Option.map (expr δ)) (P := fun x b => Held a b (x.toList.map .expr) [])
    (.pure (.nil (.refl a)) rfl) (.map hp.expression fun x b hx => ⟨hx, rfl⟩) fun cond b hcond => ?_
  refine .bind_look fun _ => .bind (postStmt_builds hp) fun post c hpost => ?_
  exact .pure (h.append (hcond.append hpost)) (by simp [Renumber.forHeader])

theorem forHeader_builds :
    Builds δ (Renumber.forHeader δ) (Grammar.forHeader parse) (Grammar.forHeader parse) a
      fun header b => Held a b header.parts [] := by
  refine .bind_look fun kind => ?_
  split
  · exact .pure (.nil (.refl a)) rfl
  · exact forClause_builds hp none (.nil (.refl a))
  · refine .bind hp.simpleStmt fun d b hd => ?_
    have other : Builds δ (Renumber.forHeader δ)
        (do
          if (← isAt .lBrace) then ForHeader.cond <$> condition d
          else
            let init ← keep d
            forClause parse (some init))
        (do
          if (← isAt .lBrace) then ForHeader.cond <$> condition (draft δ d)
          else
            let init ← keep (draft δ d)
            forClause parse (some init)) b fun header c => Held a c header.parts [] := by
      refine .choice (.map (condition_builds hd) fun x c hx => ⟨hx, rfl⟩) ?_
      exact .bind (keep_builds hd) fun init c hinit => forClause_builds hp (some init) hinit
    have ranged : Builds δ (Renumber.forHeader δ) (ForHeader.range <$> keep d)
        (ForHeader.range <$> keep (draft δ d)) b fun header c => Held a c header.parts [] :=
      .map (keep_builds hd) fun s c hs => ⟨hs, rfl⟩
    obtain ⟨form, sp⟩ := d
    cases form with
    | range => exact ranged
    | _ => exact other

theorem forStmt_builds : Builds δ (stmtForm δ) (forStmt parse) (forStmt parse) a
    fun form b => Held a b form.parts form.lists := by
  refine .bind_look fun _ => .bind (.asHeader (forHeader_builds hp)) fun header b hheader => ?_
  exact .bind hp.block fun body c hbody => .pure (hheader.append hbody) (by simp)

-- =========================================================== statements

theorem calledBy_builds {keyword : String} :
    Builds δ (expr δ) (calledBy parse keyword) (calledBy parse keyword) a
      fun x b => Held a b [.expr x] [] := by
  refine .bind hp.expression fun x b hx => ?_
  obtain ⟨i, sp, form⟩ := x
  cases form with
  | call => exact .pure hx rfl
  | _ => exact .unexpectedAt

theorem results_builds : Builds δ (List.map (expr δ)) (results parse) (results parse) a
    fun xs b => Held a b (xs.map .expr) [.exprs xs] := by
  have none : Held a a (([] : List Expr).map .expr) [.exprs []] :=
    (Held.nil (.refl a)).congr rfl (by simp)
  refine .bind_look fun kind => ?_
  split
  · exact .pure none rfl
  · exact .pure none rfl
  · refine .bind (exprList_builds hp) fun xs b hxs => ?_
    refine .bind_list (b.addExprs_adds xs) (·.addExprs_adds _) hxs (by simp) (by simp) ?_
    exact fun c hxs => .pure hxs rfl

omit hp in
theorem optionalLabel_builds : Builds δ id optionalLabel optionalLabel a
    fun label b => Held a b (label.toList.map .name) [] :=
  .choice (.map .ident fun _ _ hn => ⟨hn, rfl⟩) (.pure (.nil (.refl a)) rfl)

omit hp in
theorem finishStmt_builds {start : Location} {f : StmtForm} {q : Parser Stmt}
    (h : Held a₀ a f.parts f.lists) (hq : q = finishStmt start (stmtForm δ f)) :
    Builds δ (stmt δ) (finishStmt start f) q a fun s b => Held a₀ b [.stmt s] [] := by
  subst hq
  exact .bind_look fun sp => .newStmt h rfl

theorem declStmt_builds {start : Location} {group : GroupKind} :
    Builds δ (stmt δ) (declStmt parse start group) (declStmt parse start group) a
      fun s b => Held a b [.stmt s] [] := by
  refine .bind hp.group fun ds b hds => ?_
  refine .bind_list (b.addDecls_adds ds) (·.addDecls_adds _) hds (by simp) (by simp) fun c hds => ?_
  exact finishStmt_builds hds (by simp)

theorem statement_builds : Builds δ (stmt δ) (Grammar.statement parse) (Grammar.statement parse) a
    fun s b => Held a b [.stmt s] [] := by
  refine .bind_look fun start => .bind_look fun kind => ?_
  split
  iterate 3 exact declStmt_builds hp
  · exact .bind hp.block fun body b h => finishStmt_builds h (by simp)
  · exact hp .ifStmt (.nil (.refl a))
  · exact .bind (hp .forStmt (.nil (.refl a))) fun form b h => finishStmt_builds h rfl
  iterate 2
    refine .bind_look fun _ => .bind (calledBy_builds hp) fun x b hx => ?_
    exact finishStmt_builds hx (by simp)
  · refine .bind_look fun _ => .bind (results_builds hp) fun xs b hxs => ?_
    exact finishStmt_builds hxs (by simp)
  iterate 2
    exact .bind_look fun _ => .bind optionalLabel_builds fun label b h => finishStmt_builds h rfl
  · exact .bind_look fun _ => .bind .ident fun n b h => finishStmt_builds h rfl
  · exact .bind_look fun _ => finishStmt_builds (.nil (.refl a)) rfl
  iterate 3 exact .bind_look fun sp => .newStmt (.nil (.refl a)) rfl
  · exact .bind_look fun _ => .throw
  · exact .bind_look fun _ => .throw
  · exact .bind hp.simpleStmt fun d b hd => keep_builds hd

-- ==================================================== type switch guards

omit hp in
theorem isGuard_expr (x : Expr) : isGuard (expr δ x) = isGuard x := by
  obtain ⟨i, sp, form⟩ := x
  cases form with
  | typeAssert x t => cases t <;> rfl
  | _ => rfl

omit hp in
theorem isGuardStmt_form (form : StmtForm) : isGuardStmt (stmtForm δ form) = isGuardStmt form := by
  cases form with
  | expr x => exact isGuard_expr x
  | shortVar names op values =>
    rcases names with _ | ⟨n, _ | ⟨m, names⟩⟩ <;> rcases values with _ | ⟨x, _ | ⟨y, values⟩⟩ <;>
      simp [isGuardStmt, isGuard_expr]
  | _ => rfl

theorem typeSwitchGuard_builds :
    Builds δ (stmt δ) (typeSwitchGuard parse) (typeSwitchGuard parse) a
      fun s b => Held a b [.stmt s] [] := by
  refine .bind_look fun _ => .bind hp.simpleStmt fun d b hd => .bind_look fun _ => ?_
  have hguard : isGuardStmt (draft δ d).form = isGuardStmt d.form := isGuardStmt_form d.form
  rw [hguard]
  refine .ite (fun _ => .bind (keep_builds hd) fun s c hs => ?_) fun _ => .unexpectedAt
  exact .bind_look fun _ => .bind_look fun _ => .pure hs rfl

end

end Grammar

end GoSource
