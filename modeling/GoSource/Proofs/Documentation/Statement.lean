/-
Statements are read the same without comments, but for the documentation.

A statement may contain declarations, so what is returned without comments is
the statement undocumented. What the parser asks of a statement that it has
read is whether it is of a certain form, and that stays the same.
-/
import GoSource.Proofs.Documentation.Expression
import GoSource.Proofs.Running.Woven

namespace GoSource

open GoSource.Parser Undocumented

variable {parse : SubParser} [hp : parse.Echoes]

namespace SubParser.Echoes

theorem block : GoSource.Echoes Undocumented.block (parse .block) (parse .block) := hp.echoes .block

theorem statement : GoSource.Echoes stmt (parse .statement) (parse .statement) :=
  hp.echoes .statement

theorem simpleStmt (mode : SimpleMode) :
    GoSource.Echoes draft (parse (.simpleStmt mode)) (parse (.simpleStmt mode)) :=
  hp.echoes (.simpleStmt mode)

theorem group (kind : GroupKind) :
    GoSource.Echoes (List.map decl) (parse (.group kind)) (parse (.group kind)) :=
  hp.echoes (.group kind)

end SubParser.Echoes

namespace Grammar

open Echoes (bind bind_heedless choice joinChoice joinOption)

attribute [local simp] stmtForm

-- =============================================================== blocks

instance : Heedless atListEnd := .of_composed fun _ => inferInstance

theorem stmtList_echoes : Echoes (List.map stmt) (stmtList parse) (stmtList parse) := by
  refine bind (.repeating (g := List.map stmt) rfl fun stmts => ?_) fun stmts => ?_
  · refine choice (.pure rfl) (bind_heedless fun semi => ?_)
    cases semi with
    | some sp => exact .pure rfl
    | none =>
      refine bind hp.statement fun s => choice (.pure rfl) ?_
      exact bind_heedless fun _ => .pure rfl
  · refine bind (.recording (fun a => (a.addStmts_adds _).count) fun a => (a.addStmts_adds _).count)
      fun _ => ?_
    exact .pure List.map_reverse.symm

theorem block_echoes : Echoes Undocumented.block (Grammar.block parse) (Grammar.block parse) := by
  refine .unrestricted (bind_heedless fun lBrace => bind stmtList_echoes fun stmts => ?_)
  exact bind_heedless fun rBrace => .pure (by simp [Undocumented.block])

-- ==================================================== simple statements

instance (left : List Expr) : Heedless (single left) := .of_composed fun _ => inferInstance

instance (left : List Expr) : Heedless (definedNames left) := .of_composed fun _ => inferInstance

instance (mode : SimpleMode) : Heedless (rangeClause parse mode) :=
  (inferInstance : Composed parse (rangeClause parse mode)).heedless

variable {mode : SimpleMode} {left : List Expr}

theorem definition_echoes :
    Echoes stmtForm (definition parse mode left) (definition parse mode left) := by
  refine bind_heedless fun names => bind_heedless fun op => bind_heedless fun clause => ?_
  cases clause with
  | some x => exact bind_heedless fun _ => .pure rfl
  | none =>
    refine bind_heedless fun values => bind_heedless fun _ => bind_heedless fun _ => ?_
    exact .pure rfl

theorem assignment_echoes {op : AssignOp} :
    Echoes stmtForm (assignment parse mode left op) (assignment parse mode left op) := by
  refine bind_heedless fun opToken => .joinIte (g := id) Heedless.echoes Heedless.echoes ?_
  intro clause
  cases clause with
  | some x => exact bind_heedless fun _ => .pure rfl
  | none =>
    refine bind_heedless fun right => bind_heedless fun _ => bind_heedless fun _ => ?_
    exact .pure rfl

theorem afterExprs_echoes :
    Echoes stmtForm (afterExprs parse mode left) (afterExprs parse mode left) := by
  refine bind_heedless fun kind => ?_
  split
  · exact bind_heedless fun chan => bind_heedless fun _ => bind_heedless fun x => .pure rfl
  iterate 2 exact bind_heedless fun x => bind_heedless fun _ => .pure rfl
  · exact definition_echoes
  · split
    · exact assignment_echoes
    · exact Heedless.echoes.map fun x => rfl

instance : Heedless (labelBefore mode left) := .of_composed fun _ => inferInstance

theorem simpleStmt_echoes : Echoes draft (simpleStmt parse mode) (simpleStmt parse mode) := by
  refine bind_heedless fun start => bind_heedless fun clause => ?_
  cases clause with
  | some x => exact bind_heedless fun sp => .pure (by simp [draft])
  | none =>
    refine bind_heedless fun left => bind_heedless fun label => ?_
    cases label with
    | none =>
      refine bind afterExprs_echoes fun form => ?_
      exact bind_heedless fun sp => .pure rfl
    | some label =>
      refine bind_heedless fun _ => bind hp.statement fun s => ?_
      exact bind_heedless fun sp => .pure (by simp [draft])

-- ============================================================== headers

variable {d : Draft}

theorem condition_echoes : Echoes id (condition d) (condition (draft d)) := by
  obtain ⟨form, sp⟩ := d
  cases form with
  | expr x => exact .pure rfl
  | _ => exact (Heedless.unexpectedAt ..).echoes

theorem keep_echoes : Echoes stmt (keep d) (keep (draft d)) := .newStmt rfl

theorem ifHeader_echoes :
    Echoes (fun r => (r.1.map stmt, r.2)) (ifHeader parse) (ifHeader parse) := by
  refine bind (hp.simpleStmt .plain) fun first => bind_heedless fun semi => ?_
  cases semi with
  | none => exact bind condition_echoes fun cond => .pure rfl
  | some sp =>
    refine bind keep_echoes fun init => bind (hp.simpleStmt .plain) fun second => ?_
    exact bind condition_echoes fun cond => .pure rfl

theorem otherwise_echoes : Echoes stmt (otherwise parse) (otherwise parse) := by
  refine bind_heedless fun kind => ?_
  split
  · exact hp.echoes .ifStmt
  · refine bind hp.block fun b => ?_
    rw [span_block]
    exact .newStmt (by simp)
  · exact bind_heedless fun t => .ite .throw (bind_heedless fun _ => .throw)

theorem ifStmt_echoes : Echoes stmt (ifStmt parse) (ifStmt parse) := by
  refine bind_heedless fun kw => bind (.asHeader ifHeader_echoes) fun ⟨init, cond⟩ => ?_
  refine bind hp.block fun body => ?_
  refine joinOption (g := Option.map stmt) (fun _ => otherwise_echoes.map fun s => rfl)
    (.pure rfl) fun other => ?_
  exact bind_heedless fun sp => .newStmt (by simp)

theorem postStmt_echoes : Echoes (Option.map stmt) (postStmt parse) (postStmt parse) := by
  refine choice (.pure rfl) (bind (hp.simpleStmt .plain) fun d => ?_)
  have kept : Echoes (Option.map stmt) (some <$> keep d) (some <$> keep (draft d)) :=
    keep_echoes.map fun s => rfl
  obtain ⟨form, sp⟩ := d
  cases form with
  | shortVar => exact bind_heedless fun _ => .throw
  | _ => exact kept

theorem forClause_echoes (init : Option Stmt) :
    Echoes Undocumented.forHeader (forClause parse init) (forClause parse (init.map stmt)) := by
  refine bind_heedless fun _ => joinChoice (g := id) (.pure rfl)
    (Heedless.map inferInstance).echoes fun cond => ?_
  refine bind_heedless fun _ => bind postStmt_echoes fun post => ?_
  exact .pure (by simp [Undocumented.forHeader])

theorem forHeader_echoes :
    Echoes Undocumented.forHeader (Grammar.forHeader parse) (Grammar.forHeader parse) := by
  refine bind_heedless fun kind => ?_
  split
  · exact .pure rfl
  · exact forClause_echoes none
  · refine bind (hp.simpleStmt .forHeader) fun d => ?_
    have other : Echoes Undocumented.forHeader
        (do
          if (← isAt .lBrace) then ForHeader.cond <$> condition d
          else
            let init ← keep d
            forClause parse (some init))
        (do
          if (← isAt .lBrace) then ForHeader.cond <$> condition (draft d)
          else
            let init ← keep (draft d)
            forClause parse (some init)) := by
      refine choice (condition_echoes.map fun x => rfl) ?_
      exact bind keep_echoes fun init => forClause_echoes (some init)
    have ranged : Echoes Undocumented.forHeader (ForHeader.range <$> keep d)
        (ForHeader.range <$> keep (draft d)) :=
      keep_echoes.map fun s => rfl
    obtain ⟨form, sp⟩ := d
    cases form with
    | range => exact ranged
    | _ => exact other

theorem forStmt_echoes : Echoes stmtForm (forStmt parse) (forStmt parse) := by
  refine bind_heedless fun _ => bind (.asHeader forHeader_echoes) fun header => ?_
  exact bind hp.block fun body => .pure (by simp)

-- =========================================================== statements

instance (keyword : String) : Heedless (calledBy parse keyword) :=
  (inferInstance : Composed parse (calledBy parse keyword)).heedless

instance : Heedless (results parse) := (inferInstance : Composed parse (results parse)).heedless

instance : Heedless optionalLabel := .of_composed fun _ => inferInstance

theorem finishStmt_echoes {start : Location} {form form' : StmtForm}
    (hform : form' = stmtForm form) :
    Echoes stmt (finishStmt start form) (finishStmt start form') :=
  bind_heedless fun _ => .newStmt hform

theorem declStmt_echoes {start : Location} {kind : GroupKind} :
    Echoes stmt (declStmt parse start kind) (declStmt parse start kind) := by
  refine bind (hp.group kind) fun ds => ?_
  refine bind (.recording (fun a => (a.addDecls_adds _).count) fun a => (a.addDecls_adds _).count)
    fun _ => ?_
  exact finishStmt_echoes (by simp)

theorem statement_echoes : Echoes stmt (Grammar.statement parse) (Grammar.statement parse) := by
  refine bind_heedless fun start => bind_heedless fun kind => ?_
  split
  iterate 3 exact declStmt_echoes
  · exact bind hp.block fun b => finishStmt_echoes (by simp)
  · exact hp.echoes .ifStmt
  · exact bind (hp.echoes .forStmt) fun form => finishStmt_echoes rfl
  iterate 6 exact bind_heedless fun _ => bind_heedless fun x => finishStmt_echoes rfl
  · exact bind_heedless fun _ => finishStmt_echoes rfl
  iterate 3 exact bind_heedless fun _ => .newStmt rfl
  iterate 2 exact bind_heedless fun t => .throw
  · exact bind (hp.simpleStmt .statement) fun d => keep_echoes

-- ==================================================== type switch guards

theorem isGuardStmt_undocumented (form : StmtForm) :
    isGuardStmt (stmtForm form) = isGuardStmt form := by
  cases form <;> rfl

theorem typeSwitchGuard_echoes :
    Echoes stmt (Grammar.typeSwitchGuard parse) (Grammar.typeSwitchGuard parse) := by
  refine bind_heedless fun _ => bind (hp.simpleStmt .plain) fun d => bind_heedless fun _ => ?_
  have hguard : isGuardStmt (draft d).form = isGuardStmt d.form := isGuardStmt_undocumented d.form
  rw [hguard]
  refine .ite (bind keep_echoes fun s => ?_) (bind_heedless fun _ => .throw)
  exact bind_heedless fun _ => bind_heedless fun _ => .pure rfl

end Grammar

end GoSource
