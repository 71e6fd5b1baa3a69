/-
What the productions within expressions and types are put together from.

A body does few things: it looks at the current token or at the modes,
takes the token, adds to the arena, fails, repeats something, and parses
further productions, between brackets or not. It does nothing that is not
one of these or a sequence of them, and so it is `Composed`. What is kept
by each of them, whatever it is, is then kept by every body; and to look
at the bodies one by one is left to this module. No declaration is built
by any of them.

The arena is asked for the number of a new node only, and that is how many
of its kind there are (`Arena.Counted`). What is repeated is one of the
repetitions of the grammar, and `Grammar.Loop` lists them.
-/
import GoSource.Grammar
import GoSource.Proofs.Arena.Entry

namespace GoSource

open GoSource.Parser

variable {α β : Type}

-- ========================================================== repetitions

namespace Grammar

/-- The repetitions of the grammar, by what is passed from turn to
turn. -/
inductive Loop : Type → Type where
  /-- Binary operators of at least some precedence. -/
  | operators (levels least : Nat) : Loop Expr
  | suffixes : Loop Expr
  | arguments : Loop (List Expr × Option Span)
  | expressions : Loop (List Expr)
  | names : Loop (List Ident)
  | elements : Loop (Nat × List Element)
  | leadingNames : Loop LeadingNames
  | unnamedParams : Loop (List Param)
  | namedParams : Loop (List Ident × List Param)
  | fields : Loop (Nat × List Field)
  | methods : Loop (Nat × List InterfaceElement)
  | stmts : Loop (List Stmt)
  | specs (kind : GroupKind) : Loop (Nat × List Decl)
  | importSpecs : Loop (Nat × List ImportSpec)
  | imports : Loop (List Decl)
  /-- What follows the imports of a file. -/
  | decls : Loop (List Decl)
  /-- Declarations without a package clause. -/
  | anyDecls : Loop (List Decl)

/-- What is repeated. -/
def Loop.turn (parse : SubParser) {σ : Type} : Loop σ → σ → Parser (Turn σ)
  | operators levels least => nextOperator (binaryExpr parse levels) least
  | suffixes => suffix parse
  | arguments => nextArgument parse
  | expressions => afterComma (parse .expression)
  | names => afterComma ident
  | elements => nextItem .rBrace .comma fun _ => element parse
  | leadingNames => leadingName
  | unnamedParams => unnamedParam parse
  | namedParams => namedParam parse
  | fields => nextItem .rBrace .semi fun _ => parse .fieldDecl
  | methods => nextItem .rBrace .semi fun _ => interfaceElement parse
  | stmts => nextStmt parse
  | specs kind => nextItem .rParen .semi (listedSpec parse kind)
  | importSpecs => nextItem .rParen .semi fun _ => importSpec
  | imports => nextImport parse
  | decls => nextDecl (topLevelDecl parse)
  | anyDecls => nextDecl (anyDecl parse)

end Grammar

-- =========================================================== operations

/-- Something that is read off the cursor and the modes. -/
def Parsing.Looks (f : Parsing → α) : Prop :=
  ∀ s t : Parsing, t.current = s.current → t.previousEnd = s.previousEnd →
    t.inHeader = s.inHeader → t.guardAllowed = s.guardAllowed → f t = f s

/-- What is returned depends on the numbers of nodes alone, and so does how
many are added. -/
def Arena.Counted (add : Arena → α × Arena) : Prop :=
  ∀ a b : Arena, (∀ k, b.count k = a.count k) →
    (add b).1 = (add a).1 ∧ ∀ k, (add b).2.count k = (add a).2.count k

/-- The productions within expressions and types, which themselves return
neither statements nor declarations. -/
def Production.isPart : Production α → Bool
  | expression | unaryExpr | primaryExpr | operand | indexOrSlice _ | call _
  | compositeLit _ _ | type | signature | parameters | structType | fieldDecl
  | interfaceType => true
  | _ => false

/-- Put together from operations and further productions. -/
class inductive Composed (parse : SubParser) : {α : Type} → Parser α → Prop where
  | look {α : Type} {f : Parsing → α} (hf : Parsing.Looks f) :
      Composed @parse (fun s => .ok (f s) s)
  | advance : Composed @parse advance
  | disallowGuard : Composed @parse (allowGuard false)
  | pure {α : Type} (x : α) : Composed @parse (Pure.pure x : Parser α)
  | throw {α : Type} (e : ParseError) : Composed @parse (MonadExcept.throw e : Parser α)
  | unexpectedAt {α : Type} (sp : Span) (wanted got : String) :
      Composed @parse (unexpectedAt sp wanted got : Parser α)
  | building {α : Type} {add : Arena → α × Arena} (hadd : Arena.Counted add)
      (hdecls : ∀ a, (add a).2.entries .decl = a.entries .decl) : Composed @parse (building add)
  | bind {α β : Type} {p : Parser α} {u : α → Parser β} (hp : Composed @parse p)
      (hu : ∀ x, Composed @parse (u x)) : Composed @parse (p >>= u)
  | unrestricted {α : Type} {p : Parser α} (hp : Composed @parse p) :
      Composed @parse (unrestricted p)
  | repeating {σ : Type} (loop : Grammar.Loop σ)
      (hturn : ∀ x, Composed @parse (loop.turn parse x)) (x : σ) :
      Composed @parse (repeating (loop.turn parse) x)
  | production {α : Type} (p : Production α) (hp : p.isPart = true) : Composed @parse (parse p)

namespace Composed

variable {parse : SubParser} {p q : Parser α} {u : α → Parser β}

-- ============================================================= sequence

/-- After something that is known to be composed. -/
theorem after [hp : Composed parse p] (hu : ∀ x, Composed parse (u x)) :
    Composed parse (p >>= u) := bind hp hu

theorem map {f : α → β} (hp : Composed parse p) : Composed parse (f <$> p) := by
  rw [map_eq_pure_bind]
  exact bind hp fun _ => pure _

theorem ite {c : Prop} [Decidable c] (hp : Composed parse p) (hq : Composed parse q) :
    Composed parse (if c then p else q) := by
  split
  · exact hp
  · exact hq

/-- A choice by something that has been looked at. -/
theorem choice {c : Parser Bool} [Composed parse c] (hp : Composed parse p)
    (hq : Composed parse q) : Composed parse (c >>= fun b => if b = true then p else q) :=
  after fun _ => ite hp hq

/-- The same, where both ways meet afterwards. -/
theorem joinChoice {c : Parser Bool} [Composed parse c] (hp : Composed parse p)
    (hq : Composed parse q) (hu : ∀ x, Composed parse (u x)) :
    Composed parse (c >>= fun b => if b = true then p >>= u else q >>= u) :=
  choice (bind hp hu) (bind hq hu)

attribute [instance] advance disallowGuard pure throw unexpectedAt

-- ============================================================== looking

instance kind : Composed parse kind := look fun _ _ h _ _ _ => by rw [h]

instance current : Composed parse current := look fun _ _ h _ _ _ => h

instance here : Composed parse here := look fun _ _ h _ _ _ => by rw [h]

instance previousEnd : Composed parse previousEnd := look fun _ _ _ h _ _ => h

instance inHeader : Composed parse inHeader := look fun _ _ _ _ h _ => h

instance guardAllowed : Composed parse guardAllowed := look fun _ _ _ _ _ h => h

-- ======================================================== single tokens

instance spanFrom (start : Location) : Composed parse (spanFrom start) := after fun _ => pure _

instance isAt (k : Token.Kind) : Composed parse (isAt k) := after fun _ => pure _

instance eat (k : Token.Kind) : Composed parse (eat k) :=
  choice (after fun _ => pure _) (pure _)

instance unexpected (wanted : String) : Composed parse (unexpected wanted : Parser α) :=
  bind current fun _ => ite (throw _) (unexpectedAt ..)

instance expect (k : Token.Kind) : Composed parse (expect k) :=
  choice (after fun _ => pure _) (unexpected _)

instance literalValue : Composed parse literalValue := by
  refine bind current fun t => ite ?_ (unexpected _)
  split
  · exact after fun _ => pure _
  · exact throw _

-- ================================================================ arena

/-- A new node is numbered by how many there are of its kind. -/
theorem node {add : Arena → α × Arena} {visit : Arena → Visit} {kind : NodeKind}
    (hkind : kind ≠ .decl) (hadd : ∀ a : Arena, a.AddsNode kind (visit a) (add a).2)
    (hx : ∀ a b : Arena, b.count kind = a.count kind → (add b).1 = (add a).1) :
    Composed parse (Parser.building add) := by
  refine building (fun a b hab => ⟨hx a b (hab kind), fun k => ?_⟩) fun a => ?_
  · rw [(hadd b).count, (hadd a).count, hab]
  · rw [(hadd a).entries, if_neg hkind.symm]

instance newExpr (f : ExprForm) (sp : Span) : Composed parse (newExpr f sp) := by
  refine node (by decide) (·.addExpr_adds f) fun a b hab => ?_
  have hsize : b.exprs.size = a.exprs.size := by simpa [Arena.count, Arena.entries] using hab
  simp [Arena.addExpr, Arena.nextNode, hsize]

instance newType (f : TypeForm) (sp : Span) : Composed parse (newType f sp) := by
  refine node (by decide) (·.addType_adds f) fun a b hab => ?_
  have hsize : b.types.size = a.types.size := by simpa [Arena.count, Arena.entries] using hab
  simp [Arena.addType, Arena.nextNode, hsize]

instance newStmt (f : StmtForm) (sp : Span) : Composed parse (newStmt f sp) := by
  refine node (by decide) (·.addStmt_adds f) fun a b hab => ?_
  have hsize : b.stmts.size = a.stmts.size := by simpa [Arena.count, Arena.entries] using hab
  simp [Arena.addStmt, Arena.nextNode, hsize]

instance newField (f : FieldForm) (sp : Span) : Composed parse (newField f sp) := by
  refine node (by decide) (·.addField_adds f) fun a b hab => ?_
  have hsize : b.fields.size = a.fields.size := by simpa [Arena.count, Arena.entries] using hab
  simp [Arena.addField, Arena.nextNode, hsize]

instance newParam (f : ParamForm) (sp : Span) : Composed parse (newParam f sp) := by
  refine node (by decide) (·.addParam_adds f) fun a b hab => ?_
  have hsize : b.params.size = a.params.size := by simpa [Arena.count, Arena.entries] using hab
  simp [Arena.addParam, Arena.nextNode, hsize]

instance newLiteral (f : Literal) (sp : Span) : Composed parse (newLiteral f sp) := by
  refine node (by decide) (·.addLiteral_adds f) fun a b hab => ?_
  have hsize : b.literals.size = a.literals.size := by
    simpa [Arena.count, Arena.entries] using hab
  simp [Arena.addLiteral, Arena.nextNode, hsize]

/-- What is recorded besides nodes. -/
theorem recording {add : Arena → Arena} (hadd : ∀ a : Arena, (add a).entries = a.entries) :
    Composed parse (recording add) := by
  have hcount (a : Arena) (k : NodeKind) : (add a).count k = a.count k := by
    rw [Arena.count, hadd, Arena.count]
  have hbuild : Composed parse (Parser.building fun a => ((), add a)) :=
    building (fun a b hab => ⟨rfl, fun k => by rw [hcount, hcount, hab]⟩) fun a =>
      congrFun (hadd a) .decl
  exact hbuild

instance addIdents (ns : List Ident) : Composed parse (Parser.recording (·.addIdents ns)) :=
  recording fun a => (a.addIdents_adds ns).entries

instance addExprs (xs : List Expr) : Composed parse (Parser.recording (·.addExprs xs)) :=
  recording fun a => (a.addExprs_adds xs).entries

instance addStmts (ss : List Stmt) : Composed parse (Parser.recording (·.addStmts ss)) :=
  recording fun a => (a.addStmts_adds ss).entries

instance addDecls (ds : List Decl) : Composed parse (Parser.recording (·.addDecls ds)) :=
  recording fun a => (a.addDecls_adds ds).entries

instance addFields (fs : List Field) : Composed parse (Parser.recording (·.addFields fs)) :=
  recording fun a => (a.addFields_adds fs).entries

instance addParams (ps : List Param) : Composed parse (Parser.recording (·.addParams ps)) :=
  recording fun a => (a.addParams_adds ps).entries

instance addElements (es : List Element) : Composed parse (Parser.recording (·.addElements es)) :=
  recording fun a => (a.addElements_adds es).entries

instance addInterfaceElements (es : List InterfaceElement) :
    Composed parse (Parser.recording (·.addInterfaceElements es)) :=
  recording fun a => (a.addInterfaceElements_adds es).entries

instance addImportSpecs (specs : List ImportSpec) :
    Composed parse (Parser.recording (·.addImportSpecs specs)) :=
  recording fun a => (a.addImportSpecs_adds specs).entries

instance addDocLines (lines : List String) :
    Composed parse (Parser.recording (·.addDocLines lines)) :=
  recording fun a => (a.addDocLines_adds lines).entries

instance addName (text : String) : Composed parse (Parser.recording (·.addName text)) :=
  recording fun a => (a.addName_adds text).entries

instance ident : Composed parse ident :=
  choice (after fun _ => after fun _ => pure _) (unexpected _)

instance literal : Composed parse literal := after fun _ => newLiteral _ _

-- ==================================================== further productions

instance : Composed parse (parse .expression) := production _ rfl
instance : Composed parse (parse .unaryExpr) := production _ rfl
instance : Composed parse (parse .primaryExpr) := production _ rfl
instance : Composed parse (parse .operand) := production _ rfl
instance (x : Expr) : Composed parse (parse (.indexOrSlice x)) := production _ rfl
instance (f : Expr) : Composed parse (parse (.call f)) := production _ rfl
instance (t : Option TypeExpr) (start : Location) :
    Composed parse (parse (.compositeLit t start)) :=
  production _ rfl
instance : Composed parse (parse .type) := production _ rfl
instance : Composed parse (parse .signature) := production _ rfl
instance : Composed parse (parse .parameters) := production _ rfl
instance : Composed parse (parse .structType) := production _ rfl
instance : Composed parse (parse .fieldDecl) := production _ rfl
instance : Composed parse (parse .interfaceType) := production _ rfl

end Composed

namespace Grammar

open Composed

variable {parse : SubParser}

-- ============================================================= sequences

theorem afterCommas_composed {item : Parser α} [hitem : Composed parse item]
    (loop : Loop (List α)) (hloop : loop.turn parse = afterComma item) (first : α) :
    Composed parse (afterCommas item first) := by
  have hturn : ∀ items, Composed parse (loop.turn parse items) := fun items => by
    rw [hloop]
    refine after fun comma => ?_
    cases comma with
    | none => exact pure _
    | some sp => exact bind hitem fun _ => pure _
  refine bind ?_ fun _ => pure _
  rw [← hloop]
  exact repeating loop hturn [first]

theorem itemsUntil_composed {close separator : Token.Kind} {item : Nat → Parser α}
    (hitem : ∀ i, Composed parse (item i)) (loop : Loop (Nat × List α))
    (hloop : loop.turn parse = nextItem close separator item) :
    Composed parse (itemsUntil close separator item) := by
  have hturn : ∀ st, Composed parse (loop.turn parse st) := fun ⟨count, items⟩ => by
    rw [hloop]
    refine choice (pure _) (bind (hitem count) fun x => after fun o => ?_)
    cases o with
    | none => exact pure _
    | some sp => exact pure _
  refine bind ?_ fun _ => pure _
  rw [← hloop]
  exact repeating loop hturn (0, [])

instance : Composed parse (exprList parse) := after (afterCommas_composed .expressions rfl)

instance : Composed parse (commaSeparated Parser.ident) :=
  after (afterCommas_composed .names rfl)

-- =========================================================== expressions

theorem binaryExpr_composed (levels least : Nat) :
    Composed parse (binaryExpr parse levels least) := by
  induction levels generalizing least with
  | zero => exact inferInstanceAs (Composed parse (parse .unaryExpr))
  | succ levels ih =>
    refine after fun first => ?_
    refine repeating (.operators levels least) (fun left => after fun kind => ?_) _
    split
    · refine ite (after fun op => bind (ih _) fun right => ?_) (pure _)
      exact after fun _ => pure _
    · exact pure _

instance (x : Expr) : Composed parse (toType x) := by
  unfold toType
  split
  · exact pure _
  · exact newType _ _
  · exact newType _ _
  · exact unexpectedAt ..

theorem selectorOrAssertion_composed (x : Expr) : Composed parse (selectorOrAssertion parse x) := by
  have finish (t : Option TypeExpr) : Composed parse (expect .rParen >>= fun rParen =>
      Parser.newExpr (.typeAssert x t rParen) (x.span.through rParen)) :=
    after fun _ => newExpr _ _
  have type : Composed parse (some <$> Parser.unrestricted (parse .type)) :=
    map (unrestricted inferInstance)
  refine after fun _ => choice (after fun name => newExpr _ _) (choice ?_ (unexpected _))
  refine after fun _ => choice (choice ?_ (after finish)) (bind type finish)
  exact after fun _ => after fun _ => finish none

instance (x : Expr) : Composed parse (suffixes parse x) := by
  refine repeating .suffixes (fun y => after fun kind => ?_) x
  split
  · exact map (selectorOrAssertion_composed y)
  · exact map inferInstance
  · exact map inferInstance
  · exact after fun inHeader => ite (after fun t => map inferInstance) (pure _)
  · exact pure _

instance : Composed parse (upperBounds parse) := by
  refine choice (pure _) (after fun high => after fun colon => ?_)
  cases colon with
  | none => exact pure _
  | some sp => exact after fun _ => pure _

theorem indexOrSlice_composed (x : Expr) : Composed parse (indexOrSlice parse x) := by
  refine unrestricted (after fun lBrack => joinChoice (pure _) (map inferInstance) fun low => ?_)
  have slice : Composed parse (expect .colon >>= fun _ => upperBounds parse >>= fun bounds =>
      expect .rBrack >>= fun rBrack => Parser.newExpr
        (.slice x lBrack low bounds.1 bounds.2 rBrack) (x.span.through rBrack)) :=
    after fun _ => after fun bounds => after fun rBrack => newExpr _ _
  refine after fun colon => ?_
  rcases low with _ | i
  · exact slice
  · cases colon with
    | true => exact slice
    | false => exact after fun rBrack => newExpr _ _

theorem call_composed (f : Expr) : Composed parse (call parse f) := by
  refine unrestricted (after fun lParen => ?_)
  refine bind (repeating .arguments (fun ⟨args, dots⟩ => ?_) _) fun _ => ?_
  · refine choice (pure _) (after fun arg => after fun ellipsis => ?_)
    cases ellipsis with
    | some sp => exact after fun _ => pure _
    | none =>
      refine after fun comma => ?_
      cases comma with
      | some sp => exact pure _
      | none => exact pure _
  · exact after fun rParen => after fun _ => newExpr _ _

-- =================================================== composite literals

instance : Composed parse (elementPart parse) := choice (after fun _ => inferInstance) inferInstance

instance : Composed parse (Grammar.element parse) := by
  refine after fun first => after fun colon => ?_
  cases colon with
  | none => exact pure _
  | some sp => exact after fun _ => pure _

theorem compositeLit_composed (t : Option TypeExpr) (start : Location) :
    Composed parse (compositeLit parse t start) := by
  refine unrestricted (after fun lBrace => ?_)
  refine bind (itemsUntil_composed (fun _ => inferInstance) .elements rfl) ?_
  exact fun elements => after fun rBrace => after fun _ => newExpr _ _

-- ============================================================= operands

instance (arrow : Span) : Composed parse (receiveChan parse arrow) :=
  after fun _ => after fun _ => after fun _ => newType _ _

theorem unaryExpr_composed : Composed parse (unaryExpr parse) := by
  refine after fun kind => ?_
  split
  · exact inferInstance
  · refine after fun op => after fun isChan => ite ?_ ?_
    · exact after fun t => after fun x => inferInstance
    · exact after fun x => newExpr _ _

theorem primaryExpr_composed : Composed parse (primaryExpr parse) := after fun _ => inferInstance

theorem operand_composed : Composed parse (operand parse) := by
  have literal : Composed parse (Parser.literal >>= fun l => Parser.newExpr (.literal l) l.span) :=
    after fun _ => newExpr _ _
  have type : Composed parse (parse .type >>= fun t => Parser.newExpr (.type t) t.span) :=
    after fun _ => newExpr _ _
  refine after fun kind => ?_
  split
  · exact after fun name => newExpr _ _
  iterate 6 exact literal
  · exact after fun _ => bind (unrestricted inferInstance) fun x => after fun _ => pure _
  · refine after fun func => after fun sig => choice (after fun brace => throw _) ?_
    exact after fun t => newExpr _ _
  iterate 5 exact type
  · exact unexpected _

-- ================================================================ types

instance (first : Ident) : Composed parse (qualifiedType first) := by
  have finish (form : TypeForm) : Composed parse (spanFrom first.span.start >>= fun sp =>
      Parser.newType form sp) :=
    after fun _ => newType _ _
  refine after fun point => ?_
  cases point with
  | some sp => exact after fun name => after fun _ => finish _
  | none => exact finish (.name none first)

instance : Composed parse typeName := after fun _ => inferInstance

instance (start : Location) (form : TypeForm) : Composed parse (finishType start form) :=
  after fun _ => newType _ _

theorem bracketType_composed (start : Location) : Composed parse (bracketType parse start) := by
  have finish (length : ArrayLength) : Composed parse (expect .rBrack >>= fun _ => parse .type >>=
      fun elem => finishType start (.array length elem)) :=
    after fun _ => after fun elem => inferInstance
  refine after fun close => ?_
  cases close with
  | some sp => exact after fun elem => inferInstance
  | none =>
    refine after fun ellipsis => ?_
    cases ellipsis with
    | some dots => exact finish (.dots dots)
    | none => exact bind (map (unrestricted inferInstance)) finish

theorem type_composed : Composed parse (Grammar.type parse) := by
  refine after fun start => after fun kind => ?_
  split
  · exact inferInstance
  · exact after fun _ => bind (unrestricted inferInstance) fun t => after fun _ => pure _
  · exact after fun arrow => inferInstance
  · exact after fun _ => bracketType_composed start
  · exact after fun _ => after fun elem => inferInstance
  · refine after fun _ => after fun _ => bind (unrestricted inferInstance) fun key => ?_
    exact after fun _ => after fun value => inferInstance
  · have finish (dir : ChanDir) : Composed parse (parse .type >>= fun elem =>
        finishType start (.chan dir elem)) :=
      after fun _ => inferInstance
    refine after fun _ => after fun arrow => ?_
    cases arrow with
    | some sp => exact finish .send
    | none => exact finish .both
  · exact after fun _ => after fun sig => inferInstance
  · exact after fun fields => inferInstance
  · exact after fun elements => inferInstance
  · exact unexpected _

-- =========================================================== parameters

instance : Composed parse leadingNames := by
  refine repeating .leadingNames (fun state => ?_) _
  cases state with
  | undecided names =>
    refine choice (after fun name => after fun kind => ?_) (pure _)
    split
    · exact after fun _ => choice (pure _) (pure _)
    · exact pure _
    · exact pure _
    · exact pure _
  | types | qualified | named => exact pure _

instance (names : List Ident) (dots : Option Span) (t : TypeExpr) (start : Location) :
    Composed parse (finishParam names dots t start) :=
  after fun _ => after fun _ => newParam _ _

instance (names : List Ident) : Composed parse (typeNameParams names) := by
  unfold typeNameParams
  induction names with
  | nil => exact pure _
  | cons name names ih =>
    rw [List.foldrM_cons]
    exact bind ih fun params => after fun t => after fun param => pure _

instance : Composed parse moreParams := by
  refine after fun comma => ?_
  cases comma with
  | some sp => exact after fun _ => pure _
  | none => exact pure _

instance (names : List Ident) (start : Location) :
    Composed parse (paramAfter parse names start) := by
  refine after fun dots => after fun t => after fun param => ite ?_ ?_
  · exact after fun _ => pure _
  · exact after fun _ => pure _

instance (params : List Param) : Composed parse (unnamedParams parse params) :=
  repeating .unnamedParams (fun _ => after fun _ => after fun _ => ite (pure _) (pure _)) _

instance (names : List Ident) : Composed parse (namedParams parse names) := by
  refine bind (repeating .namedParams (fun ⟨names, params⟩ => ?_) _) fun _ => pure _
  have group (start : Location) : Composed parse (paramAfter parse names start >>= fun param =>
      if param.2 = true then commaSeparated Parser.ident >>= fun more =>
        Pure.pure (Turn.again (more, param.1 :: params))
      else Pure.pure (Turn.stop ([], param.1 :: params))) :=
    after fun param => ite (after fun _ => pure _) (pure _)
  cases names with
  | nil => exact after group
  | cons name names => exact group name.span.start

theorem params_composed : Composed parse (Grammar.params parse) := by
  have unnamed (names : List Ident) : Composed parse (typeNameParams names >>= fun params =>
      isAt .rParen >>= fun close =>
        if close = true then Pure.pure params else unnamedParams parse params) :=
    after fun params => choice (pure _) inferInstance
  refine after fun leading => ?_
  cases leading with
  | named names => exact inferInstance
  | qualified names pkg =>
    refine after fun params => after fun t => after fun param => ?_
    exact choice inferInstance (pure _)
  | types names => exact unnamed names
  | undecided names => exact unnamed names

theorem parameters_composed : Composed parse (Grammar.parameters parse) := by
  refine unrestricted (after fun lParen => joinChoice (pure _) (map params_composed) ?_)
  exact fun params => after fun rParen => after fun _ => pure _

theorem signature_composed : Composed parse (Grammar.signature parse) := by
  have finish (params : ParamList) (result : Option FuncResult) :
      Composed parse (spanFrom params.span.start >>= fun sp =>
        Pure.pure (⟨params, result, sp⟩ : Signature)) :=
    after fun _ => pure _
  refine after fun params => after fun paren => after fun kind => ite ?_ (ite ?_ ?_)
  · exact bind (map (map inferInstance)) (finish params)
  · exact bind (map (map inferInstance)) (finish params)
  · exact finish params none

-- =============================================== structs and interfaces

theorem structType_composed : Composed parse (Grammar.structType parse) := by
  refine after fun _ => after fun _ => bind (unrestricted ?_) fun fields => ?_
  · exact itemsUntil_composed (fun _ => inferInstance) .fields rfl
  · exact after fun _ => after fun _ => pure _

instance : Composed parse (fieldParts parse) := by
  refine after fun start => after fun kind => ?_
  split
  · exact after fun _ => after fun elem => after fun t => pure _
  · refine after fun first => after fun kind => ?_
    split
    iterate 5 exact after fun t => pure _
    refine bind (afterCommas_composed .names rfl first) fun names => ?_
    exact after fun t => after fun _ => pure _
  · exact unexpected _

theorem fieldDecl_composed : Composed parse (Grammar.fieldDecl parse) := by
  have finish (names : List Ident) (t : TypeExpr) (start : Location) (tag : Option Lit) :
      Composed parse (spanFrom start >>= fun sp => Parser.newField ⟨names, t, tag⟩ sp) :=
    after fun _ => newField _ _
  refine after fun start => after fun ⟨names, t⟩ => after fun kind => ?_
  split
  · exact bind (map literal) (finish names t start)
  · exact bind (map literal) (finish names t start)
  · exact finish names t start none

theorem interfaceElement_composed : Composed parse (Grammar.interfaceElement parse) :=
  after fun _ => choice (after fun _ => pure _) (after fun _ => pure _)

theorem interfaceType_composed : Composed parse (Grammar.interfaceType parse) := by
  refine after fun _ => after fun _ => bind (unrestricted ?_) fun elements => ?_
  · exact itemsUntil_composed (fun _ => interfaceElement_composed) .methods rfl
  · exact after fun _ => after fun _ => pure _

attribute [instance] binaryExpr_composed selectorOrAssertion_composed bracketType_composed
  params_composed interfaceElement_composed

end Grammar

open Grammar in
theorem Production.body_composed {parse : SubParser} {p : Production α} (hp : p.isPart = true) :
    Composed parse (p.body parse) := by
  cases p with
  | expression => exact binaryExpr_composed BinaryOp.levels 1
  | unaryExpr => exact unaryExpr_composed
  | primaryExpr => exact primaryExpr_composed
  | operand => exact operand_composed
  | indexOrSlice x => exact indexOrSlice_composed x
  | call f => exact call_composed f
  | compositeLit t start => exact compositeLit_composed t start
  | type => exact type_composed
  | signature => exact signature_composed
  | parameters => exact parameters_composed
  | structType => exact structType_composed
  | fieldDecl => exact fieldDecl_composed
  | interfaceType => exact interfaceType_composed
  | _ => exact nomatch hp

end GoSource
