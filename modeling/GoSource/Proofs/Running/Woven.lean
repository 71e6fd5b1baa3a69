/-
What all other productions are put together from.

Statements, blocks and lists of declarations are parsed by the operations
that make up expressions and types, and by further productions of any kind,
a header among them (`Woven`). Three productions are left out, because they
see comments and build declarations: imports, functions, and groups of
constants, variables or types (`Production.documents`). And one is left out
because it makes `x.(type)` acceptable (`Production.grants`): no other does,
and what it does next is woven (`Grammar.typeSwitchGuard_woven`).
-/
import GoSource.Parse
import GoSource.Proofs.Running.Composed

namespace GoSource

open GoSource.Parser

variable {α β : Type}

-- ======================================================== what is composed

namespace Grammar

open Composed

variable {parse : SubParser}

instance : Composed parse atListEnd := by
  refine after fun kind => ?_
  split
  · exact pure _
  · exact pure _
  · exact pure _

instance (left : List Expr) : Composed parse (single left) := by
  unfold single
  split
  · exact pure _
  · exact unexpected _

instance (left : List Expr) : Composed parse (definedNames left) := by
  unfold definedNames
  induction left with
  | nil => exact pure _
  | cons x left ih =>
    rw [List.mapM_cons]
    refine bind ?_ fun name => bind ih fun names => pure _
    split
    · exact pure _
    · exact unexpectedAt ..

instance (mode : SimpleMode) : Composed parse (rangeClause parse mode) := by
  refine ite (after fun range => ?_) (pure _)
  cases range with
  | some sp => exact map inferInstance
  | none => exact pure _

instance (mode : SimpleMode) (left : List Expr) : Composed parse (definition parse mode left) := by
  refine after fun names => after fun op => after fun clause => ?_
  cases clause with
  | some x => exact after fun _ => pure _
  | none => exact after fun values => after fun _ => after fun _ => pure _

instance (mode : SimpleMode) (left : List Expr) (op : AssignOp) :
    Composed parse (assignment parse mode left op) := by
  have finish (clause : Option Expr) (token : Token) : Composed parse (
      match clause with
      | some x => do
        recording (·.addExprs left)
        Pure.pure (StmtForm.range left false x)
      | none => do
        let right ← exprList parse
        recording (·.addExprs left)
        recording (·.addExprs right)
        Pure.pure (StmtForm.assign left op token.span right)) := by
    cases clause with
    | some x => exact after fun _ => pure _
    | none => exact after fun right => after fun _ => after fun _ => pure _
  refine after fun token => ?_
  by_cases hop : op = .assign
  · rw [if_pos hop]
    exact after fun clause => finish clause token
  · rw [if_neg hop]
    exact finish none token

instance (mode : SimpleMode) (left : List Expr) : Composed parse (afterExprs parse mode left) := by
  refine after fun kind => ?_
  split
  · exact after fun chan => after fun _ => after fun x => pure _
  iterate 2 exact after fun x => after fun _ => pure _
  · exact inferInstance
  · split
    · exact inferInstance
    · exact map inferInstance

instance (mode : SimpleMode) (left : List Expr) : Composed parse (labelBefore mode left) :=
  after fun _ => ite (pure _) (pure _)

instance (d : Draft) : Composed parse (condition d) := by
  unfold condition
  split
  · exact pure _
  · exact unexpectedAt ..

instance (d : Draft) : Composed parse (keep d) := newStmt _ _

instance (keyword : String) : Composed parse (calledBy parse keyword) := by
  refine after fun x => ?_
  split
  · exact pure _
  · exact unexpectedAt ..

instance : Composed parse (results parse) := by
  refine after fun kind => ?_
  split
  · exact pure _
  · exact pure _
  · exact after fun xs => after fun _ => pure _

instance : Composed parse optionalLabel := choice (map inferInstance) (pure _)

instance (start : Location) (form : StmtForm) : Composed parse (finishStmt start form) :=
  after fun _ => newStmt _ _

instance : Composed parse expectSemi := choice (pure _) (map inferInstance)

-- ========================================================= declarations

instance : Composed parse importName := by
  refine after fun kind => ?_
  split
  · exact after fun _ => pure _
  · exact after fun _ => pure _
  · exact pure _

instance : Composed parse importPath := by
  have path : Composed parse (literalValue >>= fun r =>
      match r.1 with
      | .string bytes => do
        recording (·.addName (Text.lossyText bytes))
        Pure.pure (Text.lossyText bytes, r.2)
      | _ => Parser.unexpectedAt r.2 "import path" "literal") := by
    refine after fun ⟨value, sp⟩ => ?_
    cases value with
    | string bytes => exact after fun _ => pure _
    | _ => exact unexpectedAt ..
  refine after fun kind => ?_
  split
  · exact path
  · exact path
  · exact unexpected _

instance : Composed parse importSpec := after fun _ => after fun _ => pure _

instance : Composed parse (itemsUntil .rParen .semi fun _ => importSpec) :=
  itemsUntil_composed (fun _ => inferInstance) .importSpecs rfl

instance : Composed parse (initializer parse) := by
  refine after fun assign => ?_
  cases assign with
  | some sp => exact map inferInstance
  | none => exact pure _

instance : Composed parse (constType parse) := by
  refine after fun kind => ?_
  split
  iterate 4 exact pure _
  exact map inferInstance

instance (doc : List String) (iota : Nat) : Composed parse (constSpec parse doc iota) := by
  refine after fun names => after fun t => after fun values => ?_
  have finish (values : List Expr) : Composed parse (do
      recording (·.addIdents names)
      recording (·.addExprs values)
      Pure.pure (⟨doc, names, t, values, iota⟩ : ConstSpec)) :=
    after fun _ => after fun _ => pure _
  cases values with
  | some values => exact finish values
  | none => exact ite (after fun values => finish values) (finish [])

instance (doc : List String) : Composed parse (varSpec parse doc) :=
  after fun _ => joinChoice (pure _) (map inferInstance) fun _ =>
    after fun _ => after fun _ => after fun _ => pure _

instance (doc : List String) : Composed parse (typeSpec parse doc) :=
  after fun _ => after fun _ => after fun _ => pure _

instance : Composed parse (receiver parse) := after fun _ => ite (pure _) (unexpectedAt ..)

end Grammar

-- ================================================================ woven

/-- The productions that see comments. -/
def Production.documents : Production α → Bool
  | group _ | functionDecl | importDecl => true
  | _ => false

/-- The production that makes `x.(type)` acceptable. -/
def Production.grants : Production α → Bool
  | typeSwitchGuard => true
  | _ => false

/-- Put together from what is composed and further productions. -/
class inductive Woven (parse : SubParser) : {α : Type} → Parser α → Prop where
  | composed {α : Type} {p : Parser α} (hp : Composed @parse p) : Woven @parse p
  | bind {α β : Type} {p : Parser α} {u : α → Parser β} (hp : Woven @parse p)
      (hu : ∀ x, Woven @parse (u x)) : Woven @parse (p >>= u)
  | unrestricted {α : Type} {p : Parser α} (hp : Woven @parse p) : Woven @parse (unrestricted p)
  | asHeader {α : Type} {p : Parser α} (hp : Woven @parse p) : Woven @parse (asHeader p)
  | repeating {σ : Type} (loop : Grammar.Loop σ) (hturn : ∀ x, Woven @parse (loop.turn parse x))
      (x : σ) : Woven @parse (repeating (loop.turn parse) x)
  | production {α : Type} (p : Production α) (hp : p.grants = false) : Woven @parse (parse p)

namespace Woven

variable {parse : SubParser} {p q : Parser α} {u : α → Parser β}

instance [hp : Composed parse p] : Woven parse p := composed hp

instance : Woven parse (parse .block) := production _ rfl
instance : Woven parse (parse .statement) := production _ rfl
instance (mode : SimpleMode) : Woven parse (parse (.simpleStmt mode)) := production _ rfl
instance : Woven parse (parse .ifStmt) := production _ rfl
instance : Woven parse (parse .forStmt) := production _ rfl
instance (kind : GroupKind) : Woven parse (parse (.group kind)) := production _ rfl
instance : Woven parse (parse .functionDecl) := production _ rfl
instance : Woven parse (parse .importDecl) := production _ rfl
instance : Woven parse (parse .file) := production _ rfl

theorem pure (x : α) : Woven parse (Pure.pure x : Parser α) := inferInstance

/-- After something that is known to be woven. -/
theorem after [hp : Woven parse p] (hu : ∀ x, Woven parse (u x)) : Woven parse (p >>= u) :=
  bind hp hu

theorem map {f : α → β} (hp : Woven parse p) : Woven parse (f <$> p) := by
  rw [map_eq_pure_bind]
  exact bind hp fun _ => pure _

theorem ite {c : Prop} [Decidable c] (hp : Woven parse p) (hq : Woven parse q) :
    Woven parse (if c then p else q) := by
  split
  · exact hp
  · exact hq

/-- A choice by something that has been looked at. -/
theorem choice {c : Parser Bool} [Woven parse c] (hp : Woven parse p) (hq : Woven parse q) :
    Woven parse (c >>= fun b => if b = true then p else q) :=
  after fun _ => ite hp hq

/-- The same, where both ways meet afterwards. -/
theorem joinChoice {c : Parser Bool} [Woven parse c] (hp : Woven parse p) (hq : Woven parse q)
    (hu : ∀ x, Woven parse (u x)) :
    Woven parse (c >>= fun b => if b = true then p >>= u else q >>= u) :=
  choice (bind hp hu) (bind hq hu)

end Woven

namespace Grammar

open Woven

variable {parse : SubParser}

-- =============================================================== blocks

instance : Woven parse (stmtList parse) := by
  refine bind (repeating .stmts (fun stmts => ?_) []) fun _ => after fun _ => pure _
  refine choice (pure _) (after fun semi => ?_)
  cases semi with
  | some sp => exact pure _
  | none => exact after fun s => choice (pure _) (after fun _ => pure _)

theorem block_woven : Woven parse (block parse) :=
  unrestricted (after fun _ => after fun _ => after fun _ => pure _)

-- =========================================================== statements

theorem simpleStmt_woven (mode : SimpleMode) : Woven parse (simpleStmt parse mode) := by
  refine after fun start => after fun clause => ?_
  cases clause with
  | some x => exact after fun _ => pure _
  | none =>
    refine after fun left => after fun label => ?_
    cases label with
    | some label => exact after fun _ => after fun s => after fun _ => pure _
    | none => exact after fun form => after fun _ => pure _

instance : Woven parse (ifHeader parse) := by
  refine after fun first => after fun semi => ?_
  cases semi with
  | none => exact after fun cond => pure _
  | some sp => exact after fun init => after fun second => after fun cond => pure _

instance : Woven parse (otherwise parse) := by
  refine after fun kind => ?_
  split
  · exact inferInstance
  · exact after fun b => inferInstance
  · exact inferInstance

theorem ifStmt_woven : Woven parse (ifStmt parse) := by
  have finish (start : Location) (init : Option Stmt) (cond : Expr) (body : Block)
      (other : Option Stmt) : Woven parse (spanFrom start >>= fun sp =>
        newStmt (.ifStmt init cond body other) sp) :=
    after fun _ => inferInstance
  refine after fun kw => bind (asHeader inferInstance) fun ⟨init, cond⟩ => after fun body => ?_
  refine after fun els => ?_
  cases els with
  | some sp => exact bind (map inferInstance) fun other => finish _ init cond body other
  | none => exact finish _ init cond body none

instance : Woven parse (postStmt parse) := by
  refine choice (pure _) (after fun d => ?_)
  split
  · exact inferInstance
  · exact map inferInstance

instance (init : Option Stmt) : Woven parse (forClause parse init) := by
  have finish (cond : Option Expr) : Woven parse (expect .semi >>= fun _ =>
      postStmt parse >>= fun post => Pure.pure (ForHeader.clause init cond post)) :=
    after fun _ => after fun _ => pure _
  exact after fun _ => joinChoice (pure _) (map inferInstance) finish

instance : Woven parse (forHeader parse) := by
  refine after fun kind => ?_
  split
  · exact pure _
  · exact inferInstance
  · refine after fun d => ?_
    split
    · exact map inferInstance
    · exact choice (map inferInstance) (after fun init => inferInstance)

theorem forStmt_woven : Woven parse (forStmt parse) :=
  after fun _ => bind (asHeader inferInstance) fun _ => after fun _ => pure _

instance (start : Location) (kind : GroupKind) : Woven parse (declStmt parse start kind) :=
  after fun _ => after fun _ => inferInstance

theorem statement_woven : Woven parse (statement parse) := by
  refine after fun start => after fun kind => ?_
  split
  iterate 3 exact inferInstance
  · exact after fun b => inferInstance
  · exact inferInstance
  · exact after fun form => inferInstance
  iterate 6 exact after fun _ => after fun x => inferInstance
  · exact after fun _ => inferInstance
  iterate 3 exact after fun _ => inferInstance
  iterate 2 exact after fun t => inferInstance
  · exact after fun _ => inferInstance

/-- Once `x.(type)` is acceptable, the rest is woven. -/
theorem typeSwitchGuard_woven : ∃ rest : Parser Stmt, Woven parse rest ∧
    typeSwitchGuard parse = (allowGuard true >>= fun _ => rest) := by
  refine ⟨_, ?_, rfl⟩
  exact after fun _ => after fun _ => ite
    (after fun _ => after fun _ => after fun _ => pure _) inferInstance

-- ================================================================ files

instance : Woven parse (topLevelDecl parse) := by
  refine after fun kind => ?_
  split
  · exact inferInstance
  · exact choice (after fun d => pure _) inferInstance

instance : Woven parse (imports parse) :=
  bind (repeating .imports (fun _ => choice (after fun _ => after fun _ => pure _) (pure _)) [])
    fun _ => after fun _ => pure _

theorem declsWith_woven {decl : Parser (List Decl)} (hdecl : Woven parse decl)
    (loop : Loop (List Decl)) (hloop : loop.turn parse = nextDecl decl) :
    Woven parse (declsWith decl) := by
  have hturn : ∀ ds, Woven parse (loop.turn parse ds) := fun ds => by
    rw [hloop]
    exact choice (pure _) (bind hdecl fun more => after fun _ => pure _)
  refine bind ?_ fun _ => after fun _ => pure _
  rw [← hloop]
  exact repeating loop hturn []

instance : Woven parse (declarations parse) :=
  declsWith_woven (choice (after fun _ => pure _) inferInstance) .anyDecls rfl

theorem file_woven : Woven parse (file parse) :=
  after fun _ => after fun _ => after fun _ => after fun _ => after fun _ =>
    bind (declsWith_woven inferInstance .decls rfl) fun _ => after fun _ => pure _

end Grammar

-- ========================================================== productions

open Grammar in
theorem Production.body_woven {parse : SubParser} {p : Production α} (hp : p.documents = false)
    (hgrants : p.grants = false) : Woven parse (p.body parse) := by
  by_cases hpart : p.isPart = true
  · exact .composed (Production.body_composed hpart)
  cases p with
  | block => exact block_woven
  | statement => exact statement_woven
  | simpleStmt mode => exact simpleStmt_woven mode
  | ifStmt => exact ifStmt_woven
  | forStmt => exact forStmt_woven
  | file => exact file_woven
  | typeSwitchGuard => exact nomatch hgrants
  | group | functionDecl | importDecl => exact nomatch hp
  | _ => exact absurd rfl hpart

/-- What holds of all that is woven, also behind the permission for
`x.(type)`, holds of the bodies. -/
theorem Production.body_cases {parse : SubParser} {P : Parser α → Prop} {p : Production α}
    (hp : p.documents = false) (woven : ∀ {q : Parser α}, Woven parse q → P q)
    (granted : ∀ {q : Parser α}, Woven parse q → P (allowGuard true >>= fun _ => q)) :
    P (p.body parse) := by
  by_cases hgrants : p.grants = false
  · exact woven (body_woven hp hgrants)
  cases p with
  | typeSwitchGuard =>
    obtain ⟨rest, hrest, hbody⟩ := @Grammar.typeSwitchGuard_woven @parse
    exact (congrArg P hbody).mpr (granted hrest)
  | _ => exact absurd rfl hgrants

instance Entry.wholeExpr_woven {parse : SubParser} : Woven parse (wholeExpr parse) :=
  .after fun _ => .after fun _ => .after fun _ => .pure _

instance Entry.wholeStmts_woven {parse : SubParser} : Woven parse (wholeStmts parse) :=
  .after fun _ => .after fun _ => .pure _

theorem Entry.parser_woven {parse : SubParser} {entry : Entry} (h : entry ≠ .typeSwitchGuard) :
    Woven parse (entry.parser parse) := by
  cases entry with
  | typeSwitchGuard => exact absurd rfl h
  | _ => exact .map inferInstance

end GoSource
