/-
Declarations that come last.

A declaration may be documented, and then it sees the comments before it;
but if there are none it makes no difference. In parentheses it is the
parenthesis that comes last. This settles what every production does where
two inputs part, if one ends there and the other has a semicolon
(`Grammar.parse_parting`).
-/
import GoSource.Proofs.Parting.Statement

namespace GoSource

open GoSource.Parser

variable {α β : Type} {f : Fork} {s t : Parsing} {parse : SubParser}

theorem Parser.Unswayed.bind_docLines (hsilent : f.silent = true) {start : Location}
    {g : List String → Parser β} (h : Unswayed f s t (g [])) :
    Unswayed f s t (docLines start >>= g) := by
  intro ts hst y s' hy
  obtain ⟨hs, ht⟩ := hst.silent hsilent
  obtain ⟨lines, s₁, hlines, hy⟩ := bind_eq_ok.mp hy
  rw [hs.docLines start] at hlines
  cases hlines
  obtain ⟨us, t', ht', h'⟩ := h ts hst y s' hy
  exact ⟨us, t', bind_eq_ok.mpr ⟨[], t, ht.docLines start, ht'⟩, h'⟩

theorem Parser.Unswayed.doc (hsilent : f.silent = true) (start : Location) :
    Unswayed f s t (Parser.doc start) :=
  bind_docLines hsilent (.bind .recording fun _ _ _ => .pure)

namespace Grammar

open Unswayed

variable (hf : f.second.current.kind.isEnd = true) (hsilent : f.silent = true)
  (hsound : parse.Sound)
  (hparse : ∀ {α : Type} (p : Production α), p.comesLast = true → ∀ s t, Unswayed f s t (parse p))
  (hnear : ∀ {α : Type} {p : Parser α}, Woven parse p → p.Nearsighted f)

-- ================================================================ specs

section

include hf hparse

theorem constType_unswayed : Unswayed f s t (constType parse) := by
  refine bind_kind_alike hf rfl .pure fun _ => ?_
  split
  iterate 4 exact .pure
  exact .map (hparse .type rfl _ _)

theorem typeSpec_unswayed (doc : List String) : Unswayed f s t (typeSpec parse doc) := by
  refine .bind .ident fun name _ _ => bind_eat (.of_isEnd hf rfl) (fun _ _ _ => ?_) ?_
  · exact .bind (hparse .type rfl _ _) fun _ _ _ => .pure
  · exact .bind (hparse .type rfl _ _) fun _ _ _ => .pure

include hsound

theorem initializer_unswayed : Unswayed f s t (initializer parse) :=
  bind_eat (.of_isEnd hf rfl) (fun _ _ _ => .map (exprList_unswayed hf hsound hparse)) .pure

theorem constSpec_unswayed (doc : List String) (iota : Nat) :
    Unswayed f s t (constSpec parse doc iota) := by
  have finish (names : List Ident) (type : Option TypeExpr) (values : List Expr) (s t : Parsing) :
      Unswayed f s t (recording (·.addIdents names) >>= fun _ =>
        recording (·.addExprs values) >>= fun _ =>
          (Pure.pure ⟨doc, names, type, values, iota⟩ : Parser ConstSpec)) :=
    .bind .recording fun _ _ _ => .bind .recording fun _ _ _ => .pure
  refine .bind (names_unswayed hf hsound) fun names _ _ => ?_
  refine .bind (constType_unswayed hf hparse) fun type _ _ => ?_
  refine .bind (initializer_unswayed hf hsound hparse) fun values _ _ => ?_
  cases values with
  | some values => exact .bind .pure (finish names type)
  | none =>
    refine .ite (.bind (.of_fails fun _ _ _ => unexpected_ne_ok) (finish names type)) ?_
    exact .bind .pure (finish names type)

theorem varSpec_unswayed (doc : List String) : Unswayed f s t (varSpec parse doc) := by
  refine .bind (names_unswayed hf hsound) fun names _ _ => ?_
  refine joinAt (.of_isEnd hf rfl) (fun _ => .pure) (.map (hparse .type rfl _ _)) ?_
  exact fun type _ _ => .bind (initializer_unswayed hf hsound hparse) fun _ _ _ =>
    .bind .recording fun _ _ _ => .bind .recording fun _ _ _ => .pure

theorem spec_unswayed (k : GroupKind) (doc : List String) (start : Location) (iota : Nat) :
    Unswayed f s t (spec parse k doc start iota) := by
  have finish (form : DeclForm) (s t : Parsing) :
      Unswayed f s t (spanFrom start >>= newDecl form) :=
    bind_spanFrom fun _ => .building
  cases k with
  | const => exact .bind (.map (constSpec_unswayed hf hsound hparse doc iota)) finish
  | var => exact .bind (.map (varSpec_unswayed hf hsound hparse doc)) finish
  | type => exact .bind (.map (typeSpec_unswayed hf hparse doc)) finish

omit hf hparse hsound in
theorem spec_stuck (k : GroupKind) (doc : List String) (start : Location) (iota : Nat) :
    Stuck f (spec parse k doc start iota) := by
  cases k with
  | const => exact .bind (.map (.bind (.bind .ident)))
  | var => exact .bind (.map (.bind (.bind .ident)))
  | type => exact .bind (.map (.bind .ident))

include hsilent hnear

theorem group_unswayed (k : GroupKind) : Unswayed f s t (Grammar.group parse k) := by
  refine of_stuck (.after (hnear inferInstance) fun start => .after (.docLines hsilent start)
    fun lines => .after .advance fun _ => .bind_eat rfl ?_) fun hs => ?_
  · exact .after .recording fun _ => .bind (spec_stuck k lines start 0)
  refine bind_here hs (bind_docLines hsilent (bind_advance hs ?_))
  refine bind_eat (.of_isEnd hf rfl) (fun _ _ _ => ?_) ?_
  · have hspecs : Documenting parse (itemsUntil .rParen .semi (listedSpec parse k)) :=
      inferInstance
    refine inside (.unrestricted (hspecs.nearsighted hsilent hsound hnear)) (fun _ => ?_) ?_
    · exact .bind (.expect rfl)
    · exact fun decls _ _ => .bind (.expect rfl) fun _ _ _ => .pure
  · exact .bind .recording fun _ _ _ =>
      .bind (spec_unswayed hf hsound hparse k [] _ 0) fun _ _ _ => .pure

-- ============================================================ functions

omit hf hsilent hsound hnear in
theorem receiver_unswayed : Unswayed f s t (receiver parse) := by
  refine .bind (hparse .parameters rfl _ _) fun list _ _ => .ite .pure ?_
  exact .of_fails fun _ _ _ => unexpectedAt_ne_ok

omit hsound in
theorem functionDecl_unswayed : Unswayed f s t (functionDecl parse) := by
  refine of_stuck (.after (hnear inferInstance) fun start => .after (.doc hsilent start)
    fun lines => .bind (.expect rfl)) fun hs => ?_
  refine bind_here hs (.bind (.doc hsilent _) fun lines _ _ => .bind (.expect rfl) ?_)
  intro funcSpan s t
  refine joinAt (.of_isEnd hf rfl) (fun _ => .map (receiver_unswayed hparse)) .pure ?_
  refine fun recv _ _ => .bind .ident fun name _ _ => .bind (hparse .signature rfl _ _) ?_
  refine fun sig s t => joinAt (.of_isEnd hf rfl) (fun _ => ?_) .pure ?_
  · exact .map (hparse .block rfl _ _)
  · exact fun body s t => bind_spanFrom fun _ => .building

-- ============================================================== imports

omit hsilent hsound hparse hnear in
theorem importName_unswayed : Unswayed f s t importName := by
  refine bind_kind_alike hf rfl .pure fun hs => ?_
  split
  · exact bind_advance (Fork.not_ends hs) .pure
  · exact .bind .ident fun _ _ _ => .pure
  · exact .pure

omit hsilent hsound hparse hnear in
theorem importPath_unswayed : Unswayed f s t importPath := by
  refine bind_kind_alike hf rfl (.of_fails fun _ _ _ => unexpected_ne_ok) fun hs => ?_
  split
  iterate 2
    refine .bind (.literalValue (Fork.not_ends hs)) fun x s t => ?_
    dsimp only
    split
    · exact .bind .recording fun _ _ _ => .pure
    · exact .of_fails fun _ _ _ => unexpectedAt_ne_ok
  exact .of_fails fun _ _ _ => unexpected_ne_ok

omit hsilent hsound hparse hnear in
theorem importSpec_unswayed : Unswayed f s t importSpec :=
  .bind (importName_unswayed hf) fun _ _ _ => .bind (importPath_unswayed hf) fun _ _ _ => .pure

omit hsound hparse in
theorem importDecl_unswayed : Unswayed f s t importDecl := by
  have finish (start : Location) (lines : List String) (sp : Span) (specs : List ImportSpec)
      (s t : Parsing) : Unswayed f s t (recording (·.addImportSpecs specs) >>= fun _ =>
        spanFrom start >>= newDecl (.imports ⟨lines, sp, specs⟩)) :=
    .bind .recording fun _ _ _ => bind_spanFrom fun _ => .building
  refine of_stuck (.after (hnear inferInstance) fun start => .after (.doc hsilent start)
    fun lines => .bind (.expect rfl)) fun hs => ?_
  refine bind_here hs (.bind (.doc hsilent _) fun lines _ _ => .bind (.expect rfl) ?_)
  refine fun importSpan s t => bind_eat (.of_isEnd hf rfl) (fun _ _ _ => ?_) ?_
  · refine inside (hnear inferInstance) (fun _ => .bind (.expect rfl)) fun specs _ _ => ?_
    exact .bind (.expect rfl) fun _ _ _ => finish _ lines importSpan specs _ _
  · exact .bind (importSpec_unswayed hf) fun spec => finish _ lines importSpan [spec]

-- ================================================================ files

omit hsilent hsound hnear in
theorem topLevelDecl_unswayed : Unswayed f s t (topLevelDecl parse) := by
  have func : Unswayed f s t (isAt .kwFunc >>= fun b =>
      if b = true then parse .functionDecl >>= fun d => Pure.pure [d]
      else unexpected "declaration") :=
    ifAt (.of_isEnd hf rfl) (fun _ => .bind (hparse .functionDecl rfl _ _) fun _ _ _ => .pure)
      (.of_fails fun _ _ _ => unexpected_ne_ok)
  refine bind_kind_alike hf rfl func fun _ => ?_
  split
  · exact hparse (.group _) rfl _ _
  · exact func

omit hsilent hsound hnear in
theorem anyDecl_unswayed : Unswayed f s t (anyDecl parse) :=
  ifAt (.of_isEnd hf rfl) (fun _ => .bind (hparse .importDecl rfl _ _) fun _ _ _ => .pure)
    (topLevelDecl_unswayed hf hparse)

end

-- ========================================================== productions

omit hsound hparse hnear in
include hf hsilent in
/-- All productions but statements and those for a field or a whole input
may come last. -/
theorem parse_parting {p : Production α} (hp : p.comesLast = true) (depth : Nat)
    (s t : Parsing) : Unswayed f s t (Grammar.parse depth p) := by
  induction depth generalizing α s t with
  | zero => exact fun _ _ _ _ h => nomatch h
  | succ depth ih =>
    have hsound : SubParser.Sound (Grammar.parse depth) := parse_sound depth
    have hnear {α : Type} {p : Parser α} (hp : Woven (Grammar.parse depth) p) : p.Nearsighted f :=
      hp.nearsighted hsound fun p => parse_nearsighted_of_silent hsilent p depth
    have hparse {α : Type} (p : Production α) (hp : p.comesLast = true) := ih hp
    have hstuck {α : Type} (p : Production α) (hp : p.needsToken = true) :
        Stuck f (Grammar.parse depth p) := parse_stuck hp depth
    by_cases htype : p.endsType = true
    · exact parse_unswayed (Bool.or_eq_true_iff.mpr (.inl hf)) htype _ s t
    rw [Grammar.parse_succ]
    refine .during ?_
    cases p with
    | expression => exact binaryExpr_unswayed hf hsound hparse _ _ _ _
    | unaryExpr => exact unaryExpr_unswayed hf hsound hparse
    | primaryExpr => exact primaryExpr_unswayed hf hsound hparse
    | operand => exact operand_unswayed hf hparse
    | indexOrSlice x => exact indexOrSlice_unswayed hf hparse x
    | call x => exact call_unswayed hf hsound hparse x
    | compositeLit t start => exact compositeLit_unswayed hf hsound hparse t start
    | block => exact block_unswayed hnear
    | ifStmt => exact ifStmt_unswayed hf hparse hstuck hnear
    | forStmt => exact forStmt_unswayed hparse hstuck hnear
    | group k => exact group_unswayed hf hsilent hsound hparse hnear k
    | functionDecl => exact functionDecl_unswayed hf hsilent hparse hnear
    | importDecl => exact importDecl_unswayed hf hsilent hnear
    | type | signature | parameters | structType | interfaceType => exact absurd rfl htype
    | statement | simpleStmt _ | fieldDecl | file | typeSwitchGuard => exact nomatch hp

omit hsound hparse hnear in
include hf hsilent in
/-- So may statements, with the exception of `return`. -/
theorem parse_statement_parting (hreturns : f.Returns) (depth : Nat) (s t : Parsing) :
    Unswayed f s t (Grammar.parse depth .statement) ∧
      Unswayed f s t (Grammar.parse depth (.simpleStmt .statement)) := by
  induction depth generalizing s t with
  | zero => exact ⟨.of_fails fun _ _ _ h => (nomatch h), .of_fails fun _ _ _ h => nomatch h⟩
  | succ depth ih =>
    have hsound : SubParser.Sound (Grammar.parse depth) := parse_sound depth
    have hnear {α : Type} {p : Parser α} (hp : Woven (Grammar.parse depth) p) : p.Nearsighted f :=
      hp.nearsighted hsound fun p => parse_nearsighted_of_silent hsilent p depth
    have hparse {α : Type} (p : Production α) (hp : p.comesLast = true) :=
      parse_parting hf hsilent hp depth
    have hstuck {α : Type} (p : Production α) (hp : p.needsToken = true) :
        Stuck f (Grammar.parse depth p) := parse_stuck hp depth
    rw [Grammar.parse_succ, Grammar.parse_succ]
    constructor
    · exact .during (statement_unswayed hf hsound hparse hstuck hreturns fun s t => (ih s t).2)
    · exact .during (simpleStmt_unswayed hf hsound hparse hstuck hnear (fun s t => (ih s t).1) _)

end Grammar

end GoSource
