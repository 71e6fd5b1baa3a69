/-
What the productions that see comments are put together from.

Imports, functions and groups ask for the comments that wait, and build
declarations; all else that they do is woven, and so they are
`Documenting`. With that there is one way in which every production but the
guard of a type switch is put together (`Production.body_documenting`), and
with them the parts of the grammar that have no production of their own
(`Grammar.Fragment`).
-/
import GoSource.Proofs.Running.Woven

namespace GoSource

open GoSource.Parser

variable {α β : Type}

/-- Put together from what is woven, comments and new declarations. -/
class inductive Documenting (parse : SubParser) : {α : Type} → Parser α → Prop where
  | woven {α : Type} {p : Parser α} (hp : Woven @parse p) : Documenting @parse p
  | docLines (start : Location) : Documenting @parse (docLines start)
  | newDecl (form : DeclForm) (sp : Span) : Documenting @parse (newDecl form sp)
  | bind {α β : Type} {p : Parser α} {u : α → Parser β} (hp : Documenting @parse p)
      (hu : ∀ x, Documenting @parse (u x)) : Documenting @parse (p >>= u)
  | unrestricted {α : Type} {p : Parser α} (hp : Documenting @parse p) :
      Documenting @parse (unrestricted p)
  | repeating {σ : Type} (loop : Grammar.Loop σ)
      (hturn : ∀ x, Documenting @parse (loop.turn parse x)) (x : σ) :
      Documenting @parse (repeating (loop.turn parse) x)

namespace Documenting

variable {parse : SubParser} {p q : Parser α} {u : α → Parser β}

instance [hp : Woven parse p] : Documenting parse p := woven hp

attribute [instance] docLines newDecl

theorem pure (x : α) : Documenting parse (Pure.pure x : Parser α) := inferInstance

/-- After something that is known to be documenting. -/
theorem after [hp : Documenting parse p] (hu : ∀ x, Documenting parse (u x)) :
    Documenting parse (p >>= u) := bind hp hu

theorem ite {c : Prop} [Decidable c] (hp : Documenting parse p) (hq : Documenting parse q) :
    Documenting parse (if c then p else q) := by
  split
  · exact hp
  · exact hq

/-- A choice by something that has been looked at, after which both ways
meet. -/
theorem joinChoice {c : Parser Bool} [Documenting parse c] (hp : Documenting parse p)
    (hq : Documenting parse q) (hu : ∀ x, Documenting parse (u x)) :
    Documenting parse (c >>= fun b => if b = true then p >>= u else q >>= u) :=
  after fun _ => ite (bind hp hu) (bind hq hu)

instance doc (start : Location) : Documenting parse (doc start) :=
  after fun _ => after fun _ => pure _

end Documenting

namespace Grammar

open Documenting

variable {parse : SubParser}

-- ================================================================ groups

instance (k : GroupKind) (doc : List String) (start : Location) (iota : Nat) :
    Documenting parse (spec parse k doc start iota) := by
  have finish (form : DeclForm) :
      Documenting parse (spanFrom start >>= Parser.newDecl form) :=
    after fun _ => inferInstance
  cases k with
  | const => exact bind (woven (.map inferInstance)) finish
  | var => exact bind (woven (.map inferInstance)) finish
  | type => exact bind (woven (.map inferInstance)) finish

instance (k : GroupKind) (iota : Nat) : Documenting parse (listedSpec parse k iota) :=
  after fun _ => after fun _ => inferInstance

instance (k : GroupKind) :
    Documenting parse (itemsUntil .rParen .semi (listedSpec parse k)) := by
  refine bind (repeating (.specs k) (fun ⟨count, items⟩ => ?_) _) fun _ => pure _
  refine after fun _ => ite (pure _) (after fun d => after fun sep => ?_)
  cases sep with
  | some sp => exact pure _
  | none => exact pure _

theorem group_documenting (k : GroupKind) : Documenting parse (Grammar.group parse k) := by
  refine after fun start => after fun lines => after fun _ => after fun paren => ?_
  cases paren with
  | none => exact after fun _ => after fun _ => pure _
  | some sp => exact bind (unrestricted inferInstance) fun _ => after fun _ => pure _

-- ===================================================== functions, imports

theorem functionDecl_documenting : Documenting parse (functionDecl parse) := by
  refine after fun start => after fun lines => after fun sp => ?_
  refine joinChoice (woven (.map inferInstance)) (pure _) fun recv => ?_
  refine after fun name => after fun sig => ?_
  refine joinChoice (woven (.map inferInstance)) (pure _) fun body => ?_
  exact after fun _ => inferInstance

theorem importDecl_documenting : Documenting parse importDecl := by
  refine after fun start => after fun lines => after fun sp => after fun paren => ?_
  have finish (specs : List ImportSpec) : Documenting parse (do
      recording (·.addImportSpecs specs)
      Parser.newDecl (.imports ⟨lines, sp, specs⟩) (← spanFrom start)) :=
    after fun _ => after fun _ => inferInstance
  cases paren with
  | some sp' => exact after fun specs => after fun _ => finish specs
  | none => exact after fun spec => finish [spec]

end Grammar

open Grammar in
theorem Production.body_documenting {parse : SubParser} {p : Production α}
    (hp : p.grants = false) : Documenting parse (p.body parse) := by
  by_cases hdocuments : p.documents = false
  · exact .woven (body_woven hdocuments hp)
  cases p with
  | group k => exact group_documenting k
  | functionDecl => exact functionDecl_documenting
  | importDecl => exact importDecl_documenting
  | _ => exact absurd rfl hdocuments

-- ============================================================ fragments

namespace Grammar

/-- What is read of the grammar without being a production, by what it
returns: what several productions have in common, and what one has been cut
into. -/
inductive Fragment : Type → Type where
  | ident : Fragment Ident
  | names : Fragment (List Ident)
  | literalValue : Fragment (Literal × Span)
  | literal : Fragment Lit
  | expectSemi : Fragment Unit
  | binaryExpr (levels least : Nat) : Fragment Expr
  | exprList : Fragment (List Expr)
  | suffixes (x : Expr) : Fragment Expr
  | selectorOrAssertion (x : Expr) : Fragment Expr
  | toType (x : Expr) : Fragment TypeExpr
  | upperBounds : Fragment (Option Expr × Option Expr)
  | elementPart : Fragment Expr
  | element : Fragment Element
  | receiveChan (arrow : Span) : Fragment TypeExpr
  | qualifiedType (first : Ident) : Fragment TypeExpr
  | typeName : Fragment TypeExpr
  | bracketType (start : Location) : Fragment TypeExpr
  | leadingNames : Fragment LeadingNames
  | finishParam (names : List Ident) (dots : Option Span) (type : TypeExpr) (start : Location) :
      Fragment Param
  | typeNameParams (names : List Ident) : Fragment (List Param)
  | paramAfter (names : List Ident) (start : Location) : Fragment (Param × Bool)
  | unnamedParams (params : List Param) : Fragment (List Param)
  | namedParams (names : List Ident) : Fragment (List Param)
  | params : Fragment (List Param)
  | fieldParts : Fragment (List Ident × TypeExpr)
  | interfaceElement : Fragment InterfaceElement
  | stmtList : Fragment (List Stmt)
  | single (left : List Expr) : Fragment Expr
  | definedNames (left : List Expr) : Fragment (List Ident)
  | rangeClause (mode : SimpleMode) : Fragment (Option Expr)
  | definition (mode : SimpleMode) (left : List Expr) : Fragment StmtForm
  | assignment (mode : SimpleMode) (left : List Expr) (op : AssignOp) : Fragment StmtForm
  | afterExprs (mode : SimpleMode) (left : List Expr) : Fragment StmtForm
  | condition (draft : Draft) : Fragment Expr
  | ifHeader : Fragment (Option Stmt × Expr)
  | otherwise : Fragment Stmt
  | postStmt : Fragment (Option Stmt)
  | forClause (init : Option Stmt) : Fragment ForHeader
  | forHeader : Fragment ForHeader
  | calledBy (keyword : String) : Fragment Expr
  | results : Fragment (List Expr)
  | optionalLabel : Fragment (Option Ident)
  | declStmt (start : Location) (kind : GroupKind) : Fragment Stmt
  | initializer : Fragment (Option (List Expr))
  | constType : Fragment (Option TypeExpr)
  | constSpec (doc : List String) (iota : Nat) : Fragment ConstSpec
  | varSpec (doc : List String) : Fragment VarSpec
  | typeSpec (doc : List String) : Fragment TypeSpec
  | spec (kind : GroupKind) (doc : List String) (start : Location) (iota : Nat) : Fragment Decl
  | listedSpec (kind : GroupKind) (iota : Nat) : Fragment Decl
  | receiver : Fragment ParamList
  | importName : Fragment (Option ImportName)
  | importPath : Fragment (String × Span)
  | importSpec : Fragment ImportSpec
  | topLevelDecl : Fragment (List Decl)
  | imports : Fragment (List Decl)
  | declarations : Fragment (List Decl)

/-- How a fragment is parsed. -/
def Fragment.parser (parse : SubParser) {α : Type} : Fragment α → Parser α
  | .ident => Parser.ident
  | .names => commaSeparated Parser.ident
  | .literalValue => Parser.literalValue
  | .literal => Parser.literal
  | .expectSemi => Parser.expectSemi
  | .binaryExpr levels least => Grammar.binaryExpr parse levels least
  | .exprList => Grammar.exprList parse
  | .suffixes x => Grammar.suffixes parse x
  | .selectorOrAssertion x => Grammar.selectorOrAssertion parse x
  | .toType x => Grammar.toType x
  | .upperBounds => Grammar.upperBounds parse
  | .elementPart => Grammar.elementPart parse
  | .element => Grammar.element parse
  | .receiveChan arrow => Grammar.receiveChan parse arrow
  | .qualifiedType first => Grammar.qualifiedType first
  | .typeName => Grammar.typeName
  | .bracketType start => Grammar.bracketType parse start
  | .leadingNames => Grammar.leadingNames
  | .finishParam ns dots type start => Grammar.finishParam ns dots type start
  | .typeNameParams ns => Grammar.typeNameParams ns
  | .paramAfter ns start => Grammar.paramAfter parse ns start
  | .unnamedParams ps => Grammar.unnamedParams parse ps
  | .namedParams ns => Grammar.namedParams parse ns
  | .params => Grammar.params parse
  | .fieldParts => Grammar.fieldParts parse
  | .interfaceElement => Grammar.interfaceElement parse
  | .stmtList => Grammar.stmtList parse
  | .single left => Grammar.single left
  | .definedNames left => Grammar.definedNames left
  | .rangeClause mode => Grammar.rangeClause parse mode
  | .definition mode left => Grammar.definition parse mode left
  | .assignment mode left op => Grammar.assignment parse mode left op
  | .afterExprs mode left => Grammar.afterExprs parse mode left
  | .condition draft => Grammar.condition draft
  | .ifHeader => Grammar.ifHeader parse
  | .otherwise => Grammar.otherwise parse
  | .postStmt => Grammar.postStmt parse
  | .forClause init => Grammar.forClause parse init
  | .forHeader => Grammar.forHeader parse
  | .calledBy keyword => Grammar.calledBy parse keyword
  | .results => Grammar.results parse
  | .optionalLabel => Grammar.optionalLabel
  | .declStmt start kind => Grammar.declStmt parse start kind
  | .initializer => Grammar.initializer parse
  | .constType => Grammar.constType parse
  | .constSpec doc iota => Grammar.constSpec parse doc iota
  | .varSpec doc => Grammar.varSpec parse doc
  | .typeSpec doc => Grammar.typeSpec parse doc
  | .spec kind doc start iota => Grammar.spec parse kind doc start iota
  | .listedSpec kind iota => Grammar.listedSpec parse kind iota
  | .receiver => Grammar.receiver parse
  | .importName => Grammar.importName
  | .importPath => Grammar.importPath
  | .importSpec => Grammar.importSpec
  | .topLevelDecl => Grammar.topLevelDecl parse
  | .imports => Grammar.imports parse
  | .declarations => Grammar.declarations parse

theorem Fragment.parser_documenting {parse : SubParser} (f : Fragment α) :
    Documenting parse (f.parser parse) := by
  cases f <;> unfold Fragment.parser <;> infer_instance

end Grammar

end GoSource
