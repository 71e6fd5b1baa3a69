/-
How deep expressions and types nest.

`parse.Nests n` says of a way to parse further productions that none of
its results nests deeper than `n`. A production puts a fixed number of
levels around what it gets from them. The most are put by an expression:
its operators of each precedence may have as their right operand an
expression of higher precedence, and there are five.

Productions that continue something say how deep the whole nests. What is
continued is an operand of the whole, so it may be as deep as the whole.
-/
import GoSource.Grammar
import GoSource.Proofs.Nesting.Level
import GoSource.Proofs.Parsing.Yields

namespace GoSource

open GoSource.Parser

-- ========================================================== productions

/-- The result of a production nests no deeper than that. -/
def Production.Nests (n : Nat) {α : Type} : Production α → α → Prop
  | .expression, x | .unaryExpr, x | .primaryExpr, x | .operand, x => (Visit.expr x).Nests n
  | .indexOrSlice x, y | .call x, y => ∀ k, n ≤ k → (Visit.expr x).Nests k → (Visit.expr y).Nests k
  | .compositeLit t _, y =>
    ∀ k, n ≤ k + 1 → (∀ u ∈ t, (Visit.type u).Nests k) → (Visit.expr y).Nests (k + 1)
  | .type, t => (Visit.type t).Nests n
  | .signature, sig => Part.Nest n sig.parts
  | .parameters, ps => Part.Nest n ps.parts
  | .structType, fs => Part.Nest n (fs.map .field)
  | .fieldDecl, f => (Visit.field f).Nests n
  | .interfaceType, es => Part.Nest n (es.flatMap InterfaceElement.parts)
  | .block, b => Part.Nest n b.parts
  | .statement, s | .ifStmt, s | .typeSwitchGuard, s => (Visit.stmt s).Nests n
  | .simpleStmt _, d => Part.Nest n d.form.parts
  | .forStmt, form => Part.Nest n form.parts
  | .group _, ds => Part.Nest n (ds.map .decl)
  | .functionDecl, d | .importDecl, d => (Visit.decl d).Nests n
  | .file, f => (Visit.file f).Nests n

def SubParser.Nests (n : Nat) (parse : SubParser) : Prop :=
  ∀ {α : Type} (p : Production α), (parse p).Yields (p.Nests n)

variable {α : Type} {n k : Nat}

namespace SubParser.Nests

variable {parse : SubParser} (hp : parse.Nests n)

include hp

theorem expression : (parse .expression).Yields fun x => (Visit.expr x).Nests n := hp .expression

theorem type : (parse .type).Yields fun t => (Visit.type t).Nests n := hp .type

theorem signature : (parse .signature).Yields fun sig => Part.Nest n sig.parts := hp .signature

theorem parameters : (parse .parameters).Yields fun ps => Part.Nest n ps.parts := hp .parameters

theorem block : (parse .block).Yields fun b => Part.Nest n b.parts := hp .block

theorem statement : (parse .statement).Yields fun s => (Visit.stmt s).Nests n := hp .statement

theorem simpleStmt {mode : SimpleMode} :
    (parse (.simpleStmt mode)).Yields fun d => Part.Nest n d.form.parts := hp (.simpleStmt mode)

end SubParser.Nests

-- ================================================================ nodes

namespace Parser

variable {sp : Span}

/-- An expression that continues nothing. -/
theorem newExpr_nests {form : ExprForm} (h : Part.Nest n form.parts) (hop : form.operand = none) :
    (newExpr form sp).Yields fun x => (Visit.expr x).Nests (n + 1) :=
  .building fun _ => .of_parts h (congrArg (Option.map Visit.expr) hop)

/-- An expression that continues an operand. -/
theorem newExpr_continues {form : ExprForm} {x : Expr} {ps : List Part}
    (hparts : form.parts = .expr x :: ps) (hop : form.operand = some x)
    (hx : (Visit.expr x).Nests (n + 1)) (hps : Part.Nest n ps) :
    (newExpr form sp).Yields fun y => (Visit.expr y).Nests (n + 1) :=
  .building fun _ => .of_operand hparts (congrArg (Option.map Visit.expr) hop) hx hps

theorem newType_nests {form : TypeForm} (h : Part.Nest n form.parts) :
    (newType form sp).Yields fun t => (Visit.type t).Nests (n + 1) :=
  .building fun _ => .of_parts h rfl

theorem newStmt_nests {form : StmtForm} (h : Part.Nest n form.parts) :
    (newStmt form sp).Yields fun s => (Visit.stmt s).Nests (n + 1) :=
  .building fun _ => .of_parts h rfl

theorem newDecl_nests {form : DeclForm} (h : Part.Nest n form.parts) :
    (newDecl form sp).Yields fun d => (Visit.decl d).Nests (n + 1) :=
  .building fun _ => .of_parts h rfl

theorem literal_nests (l : Lit) : (Visit.literal l).Nests n := .leaf rfl

end Parser

namespace Grammar

-- ================================================================ lists

theorem afterCommas_nests {item : Parser α} {first : α} {P : α → Prop} (hfirst : P first)
    (h : item.Yields P) : (afterCommas item first).Yields fun as => ∀ a ∈ as, P a := by
  refine .bind (.repeating (I := fun as => ∀ a ∈ as, P a) (by simpa using hfirst) fun as has => ?_)
    fun as has => .pure (by simpa using has)
  refine .bind_any fun o => ?_
  cases o with
  | none => exact .pure has
  | some sp => exact .bind h fun a ha => .pure (List.forall_mem_cons.mpr ⟨ha, has⟩)

theorem commaSeparated_nests {item : Parser α} {P : α → Prop} (h : item.Yields P) :
    (commaSeparated item).Yields fun as => ∀ a ∈ as, P a :=
  .bind h fun _ ha => afterCommas_nests ha h

theorem itemsUntil_nests {close separator : Token.Kind} {item : Nat → Parser α} {P : α → Prop}
    (h : ∀ i, (item i).Yields P) :
    (itemsUntil close separator item).Yields fun as => ∀ a ∈ as, P a := by
  refine .bind (.repeating (I := fun st => ∀ a ∈ st.2, P a) nofun fun ⟨i, as⟩ has => ?_)
    fun ⟨i, as⟩ has => .pure (by simpa using has)
  refine .choice (.pure has) (.bind (h i) fun a ha => .bind_any fun o => ?_)
  have hmore : ∀ b ∈ a :: as, P b := List.forall_mem_cons.mpr ⟨ha, has⟩
  cases o with
  | none => exact .pure hmore
  | some sp => exact .pure hmore

-- =========================================================== expressions

variable {parse : SubParser} (hp : parse.Nests n)

include hp

theorem binaryExpr_nests (levels least : Nat) :
    (binaryExpr parse levels least).Yields fun x => (Visit.expr x).Nests (n + levels) := by
  induction levels generalizing least with
  | zero => exact hp .unaryExpr
  | succ levels ih =>
    refine .bind (hp .unaryExpr) fun first hfirst => ?_
    have hfirst : (Visit.expr first).Nests (n + (levels + 1)) := hfirst.mono (Nat.le_add_right _ _)
    refine .repeating hfirst fun left hleft => .bind_any fun k => ?_
    split
    · refine .ite (fun _ => .bind_any fun t => .bind (ih _) fun right hright => ?_) fun _ => ?_
      · refine .bind (newExpr_continues rfl rfl hleft ?_) fun x hx => .pure hx
        simpa using hright
      · exact .pure hleft
    · exact .pure hleft

theorem exprList_nests : (exprList parse).Yields fun xs => ∀ x ∈ xs, (Visit.expr x).Nests n :=
  commaSeparated_nests hp.expression

omit hp in
theorem toType_nests {x : Expr} (hx : (Visit.expr x).Nests (k + 1)) :
    (toType x).Yields fun t => (Visit.type t).Nests k := by
  obtain ⟨i, sp, form⟩ := x
  unfold toType
  split
  · next t ht =>
    obtain rfl : form = .type t := ht
    exact .pure (hx.of_attached (List.mem_singleton_self _))
  · exact .building fun _ => .leaf rfl
  · exact .building fun _ => .leaf rfl
  · exact .unexpectedAt

theorem selectorOrAssertion_nests {x : Expr} (hx : (Visit.expr x).Nests (k + 1)) (hk : n ≤ k) :
    (selectorOrAssertion parse x).Yields fun y => (Visit.expr y).Nests (k + 1) := by
  refine .bind_any fun _ => .choice (.bind_any fun name => ?_) (.choice ?_ .unexpected)
  · exact newExpr_continues rfl rfl hx (by simp)
  · refine .bind_any fun _ => .choice (.choice ?_ ?_) ?_
    · refine .bind_any fun _ => .bind_any fun _ => .bind_pure (.bind_any fun rParen => ?_)
      exact newExpr_continues rfl rfl hx (by simp)
    · exact .bind_unexpected
    · refine .bind_map (.unrestricted hp.type) fun t ht => .bind_any fun rParen => ?_
      have ht : (Visit.type t).Nests k := ht.mono hk
      exact newExpr_continues rfl rfl hx (by simpa using ht)

theorem suffixes_nests {x : Expr} (hx : (Visit.expr x).Nests (k + 1)) (hk : n ≤ k) :
    (suffixes parse x).Yields fun y => (Visit.expr y).Nests (k + 1) := by
  refine .repeating hx fun y hy => .bind_any fun kind => ?_
  split
  · exact .map (selectorOrAssertion_nests hp hy hk)
  · exact .map ((hp (.indexOrSlice y)).imp fun z hz => hz (k + 1) (by omega) hy)
  · exact .map ((hp (.call y)).imp fun z hz => hz (k + 1) (by omega) hy)
  · refine .bind_any fun h => .ite (fun _ => .bind (toType_nests hy) fun t ht => ?_)
      fun _ => .pure hy
    refine .map ((hp (.compositeLit (some t) t.span.start)).imp fun z hz => hz k (by omega) ?_)
    rintro u ⟨⟩
    exact ht
  · exact .pure hy

theorem upperBounds_nests : (upperBounds parse).Yields fun bounds =>
    (∀ x ∈ bounds.1, (Visit.expr x).Nests n) ∧ ∀ x ∈ bounds.2, (Visit.expr x).Nests n := by
  refine .choice (.pure ⟨nofun, nofun⟩)
    (.bind hp.expression fun high hhigh => .bind_any fun o => ?_)
  cases o with
  | none => exact .pure ⟨fun x hx => Option.some.inj hx ▸ hhigh, nofun⟩
  | some sp =>
    refine .bind hp.expression fun top htop => .pure ⟨fun x hx => ?_, fun x hx => ?_⟩
    · exact Option.some.inj hx ▸ hhigh
    · exact Option.some.inj hx ▸ htop

theorem indexOrSlice_nests (x : Expr) :
    (indexOrSlice parse x).Yields ((Production.indexOrSlice x).Nests (n + 5)) := by
  -- Whatever is between the brackets is attached to the operand.
  have finish : ∀ {form : ExprForm} {sp : Span} {ps : List Part}, form.parts = .expr x :: ps →
      form.operand = some x → Part.Nest n ps →
        (newExpr form sp).Yields ((Production.indexOrSlice x).Nests (n + 5)) := by
    intro form sp ps hparts hop hps
    refine .building fun arena k hk hx => ?_
    obtain ⟨k, rfl⟩ : ∃ j, k = j + 1 := ⟨k - 1, by omega⟩
    exact .of_operand hparts (congrArg (Option.map Visit.expr) hop) hx (hps.mono (by omega))
  refine .unrestricted (.bind_any fun lBrack => ?_)
  refine .joinChoice (P := fun low => ∀ y ∈ low, (Visit.expr y).Nests n) (.pure nofun)
    (.map (hp.expression.imp fun y hy z hz => Option.some.inj hz ▸ hy)) fun low hlow => ?_
  have slice : (expect .colon >>= fun _ => upperBounds parse >>= fun bounds =>
      expect .rBrack >>= fun rBrack => newExpr (.slice x lBrack low bounds.1 bounds.2 rBrack)
        (x.span.through rBrack)).Yields ((Production.indexOrSlice x).Nests (n + 5)) := by
    refine .bind_any fun _ => .bind (upperBounds_nests hp) fun ⟨high, top⟩ ⟨hhigh, htop⟩ => ?_
    refine .bind_any fun rBrack => finish rfl rfl ?_
    simp_all
  refine .bind_any fun colon => ?_
  cases low with
  | none => exact slice
  | some i =>
    cases colon with
    | true => exact slice
    | false =>
      have hi : (Visit.expr i).Nests n := hlow i rfl
      exact .bind_any fun rBrack => finish rfl rfl (by simpa using hi)

theorem call_nests (f : Expr) : (call parse f).Yields ((Production.call f).Nests (n + 5)) := by
  refine .unrestricted (.bind_any fun lParen => ?_)
  refine .bind (.repeating (I := fun st => ∀ x ∈ st.1, (Visit.expr x).Nests n) nofun ?_) ?_
  · rintro ⟨args, dots⟩ hargs
    refine .choice (.pure hargs) (.bind hp.expression fun arg harg => .bind_any fun o => ?_)
    have hmore : ∀ x ∈ arg :: args, (Visit.expr x).Nests n := List.forall_mem_cons.mpr ⟨harg, hargs⟩
    cases o with
    | some sp => exact .bind_any fun _ => .pure hmore
    | none =>
      refine .bind_any fun o => ?_
      cases o with
      | some sp => exact .pure hmore
      | none => exact .pure hmore
  · rintro ⟨args, dots⟩ hargs
    refine .bind_any fun rParen => .bind_any fun _ => .building fun arena k hk hf => ?_
    obtain ⟨k, rfl⟩ : ∃ j, k = j + 1 := ⟨k - 1, by omega⟩
    have hattached : ∀ x ∈ args, (Visit.expr x).Nests k :=
      fun x hx => (hargs x hx).mono (by omega)
    refine .of_operand rfl rfl hf ?_
    cases dots <;> simpa using hattached

-- =================================================== composite literals

/-- A literal in another one is a level of its own. -/
theorem elementPart_nests :
    (elementPart parse).Yields fun x => (Visit.expr x).Nests (n + 1) := by
  refine .choice (.bind_any fun l => ?_) (hp.expression.imp fun x hx => ?_)
  · exact (hp (.compositeLit none l)).imp fun x hx => hx n (Nat.le_succ n) nofun
  · exact hx.mono (Nat.le_succ n)

theorem element_nests : (element parse).Yields fun e => Part.Nest (n + 1) e.parts := by
  refine .bind (elementPart_nests hp) fun first hfirst => .bind_any fun o => ?_
  cases o with
  | none => exact .pure (by simpa [Element.parts] using hfirst)
  | some sp =>
    refine .bind (elementPart_nests hp) fun value hvalue => .pure ?_
    simpa [Element.parts] using ⟨hfirst, hvalue⟩

theorem compositeLit_nests (t : Option TypeExpr) (start : Location) :
    (compositeLit parse t start).Yields ((Production.compositeLit t start).Nests (n + 5)) := by
  refine .unrestricted (.bind_any fun lBrace => ?_)
  refine .bind (itemsUntil_nests fun _ => element_nests hp) fun elements helements => ?_
  refine .bind_any fun rBrace => .bind_any fun _ => .building fun arena k hk ht => ?_
  refine .of_parts ?_ rfl
  have helements : ∀ e ∈ elements, Part.Nest k e.parts :=
    fun e he => (helements e he).mono (by omega)
  show Part.Nest k (t.toList.map .type ++ .mark lBrace :: (elements.flatMap Element.parts ++ _))
  simpa using ⟨ht, helements⟩

-- ============================================================= operands

theorem receiveChan_nests (arrow : Span) :
    (receiveChan parse arrow).Yields fun t => (Visit.type t).Nests (n + 1) := by
  refine .bind_any fun _ => .bind hp.type fun elem helem => .bind_any fun sp => ?_
  exact newType_nests (by simpa [TypeForm.parts] using helem)

theorem unaryExpr_nests : (unaryExpr parse).Yields fun x => (Visit.expr x).Nests (n + 2) := by
  refine .bind_any fun k => ?_
  split
  · exact (hp .primaryExpr).imp fun x hx => hx.mono (by omega)
  · refine .bind_any fun opToken => .bind_any fun atChan => .ite (fun _ => ?_) fun _ => ?_
    · refine .bind (receiveChan_nests hp opToken.span) fun t ht => ?_
      refine .bind (newExpr_nests (by simpa [ExprForm.parts] using ht) rfl) fun x hx => ?_
      exact suffixes_nests hp hx (Nat.le_succ n)
    · refine .bind (hp .unaryExpr) fun x hx => ?_
      have hx : (Visit.expr x).Nests (n + 1) := hx.mono (Nat.le_succ n)
      exact newExpr_nests (by simpa [ExprForm.parts] using hx) rfl

theorem primaryExpr_nests : (primaryExpr parse).Yields fun x => (Visit.expr x).Nests (n + 1) :=
  .bind (hp .operand) fun _ hx => suffixes_nests hp (hx.mono (Nat.le_succ n)) (Nat.le_refl n)

theorem operand_nests : (operand parse).Yields fun x => (Visit.expr x).Nests (n + 2) := by
  have literal : (Parser.literal >>= fun lit => newExpr (.literal lit) lit.span).Yields fun x =>
      (Visit.expr x).Nests (n + 2) :=
    .bind_any fun lit => newExpr_nests (by simp [ExprForm.parts, literal_nests]) rfl
  have type : (parse .type >>= fun t => newExpr (.type t) t.span).Yields fun x =>
      (Visit.expr x).Nests (n + 2) := by
    refine .bind hp.type fun t ht => ?_
    have ht : (Visit.type t).Nests (n + 1) := ht.mono (Nat.le_succ n)
    exact newExpr_nests (by simpa [ExprForm.parts] using ht) rfl
  refine .bind_any fun k => ?_
  split
  · exact .bind_any fun name => newExpr_nests (by simp [ExprForm.parts]) rfl
  iterate 6 exact literal
  · refine .bind_any fun _ => .bind (.unrestricted hp.expression) fun x hx => ?_
    exact .bind_any fun _ => .pure (hx.mono (by omega))
  · refine .bind_any fun func => .bind hp.signature fun sig hsig => ?_
    refine .choice (.bind_any fun _ => .throw) ?_
    refine .bind (newType_nests hsig) fun t ht => ?_
    exact newExpr_nests (by simpa [ExprForm.parts] using ht) rfl
  iterate 5 exact type
  · exact .unexpected

-- ================================================================ types

omit hp in
theorem qualifiedType_nests (first : Ident) :
    (qualifiedType first).Yields fun t => (Visit.type t).Nests n := by
  refine .bind_any fun o => ?_
  cases o with
  | none => exact .bind_pure (.bind_any fun _ => .building fun _ => .leaf rfl)
  | some sp =>
    exact .bind_any fun name => .bind_pure (.bind_any fun _ => .building fun _ => .leaf rfl)

omit hp in
theorem typeName_nests : typeName.Yields fun t => (Visit.type t).Nests n :=
  .bind_any fun name => qualifiedType_nests name

omit hp in
theorem finishType_nests {start : Location} {form : TypeForm} (h : Part.Nest n form.parts) :
    (finishType start form).Yields fun t => (Visit.type t).Nests (n + 1) :=
  .bind_any fun _ => newType_nests h

theorem bracketType_nests (start : Location) :
    (bracketType parse start).Yields fun t => (Visit.type t).Nests (n + 1) := by
  refine .bind_any fun o => ?_
  cases o with
  | some sp =>
    refine .bind hp.type fun elem helem => finishType_nests ?_
    simpa [TypeForm.parts] using helem
  | none =>
    refine .joinOption (P := fun len => Part.Nest n len.parts) (fun sp => .pure ?_)
      (.map ((Yields.unrestricted hp.expression).imp fun x hx => ?_)) fun len hlen => ?_
    · simp [ArrayLength.parts]
    · have hx : (Visit.expr x).Nests n := hx
      simpa [ArrayLength.parts] using hx
    · refine .bind_any fun _ => .bind hp.type fun elem helem => finishType_nests ?_
      simpa [TypeForm.parts] using ⟨hlen, helem⟩

theorem type_nests : (type parse).Yields fun t => (Visit.type t).Nests (n + 1) := by
  have elem : ∀ {start : Location} {form : TypeExpr → TypeForm},
      (∀ t, (form t).parts = [.type t]) →
        (parse .type >>= fun t => finishType start (form t)).Yields
        fun t => (Visit.type t).Nests (n + 1) := by
    intro start form hform
    refine .bind hp.type fun t ht => finishType_nests ?_
    simpa [hform] using ht
  refine .bind_any fun start => .bind_any fun kind => ?_
  split
  · exact typeName_nests
  · refine .bind_any fun _ => .bind (.unrestricted hp.type) fun t ht => .bind_any fun _ => .pure ?_
    exact ht.mono (Nat.le_succ n)
  · exact .bind_any fun arrow => receiveChan_nests hp arrow.span
  · exact .bind_any fun _ => bracketType_nests hp start
  · exact .bind_any fun _ => elem fun _ => rfl
  · refine .bind_any fun _ => .bind_any fun _ => .bind (.unrestricted hp.type) fun key hkey => ?_
    refine .bind_any fun _ => .bind hp.type fun t ht => finishType_nests ?_
    simpa [TypeForm.parts] using ⟨hkey, ht⟩
  · refine .bind_any fun _ => .joinOption (P := fun _ => True) (fun _ => .pure trivial)
      (.pure trivial) ?_
    exact fun dir _ => elem fun _ => rfl
  · exact .bind_any fun _ => .bind hp.signature fun sig hsig => finishType_nests hsig
  · exact .bind (hp .structType) fun fields hfields => finishType_nests hfields
  · exact .bind (hp .interfaceType) fun elements helements => finishType_nests helements
  · exact .unexpected

-- =========================================================== parameters

omit hp in
theorem finishParam_nests {names : List Ident} {dots : Option Span} {t : TypeExpr}
    {start : Location} (ht : (Visit.type t).Nests n) :
    (finishParam names dots t start).Yields fun p => (Visit.param p).Nests (n + 1) := by
  refine .bind_any fun _ => .bind_any fun _ => .building fun _ => .of_parts ?_ rfl
  show Part.Nest n (names.map .name ++ (dots.toList.map .mark ++ [.type t]))
  simpa using ht

omit hp in
theorem typeNameParams_nests (names : List Ident) :
    (typeNameParams names).Yields fun ps => ∀ p ∈ ps, (Visit.param p).Nests (n + 1) := by
  unfold typeNameParams
  induction names with
  | nil => exact .pure nofun
  | cons name names ih =>
    rw [List.foldrM_cons]
    refine .bind ih fun ps hps => ?_
    refine .bind (P := fun t => (Visit.type t).Nests n) (.building fun _ => .leaf rfl)
      fun t ht => ?_
    refine .bind (P := fun p => (Visit.param p).Nests (n + 1))
      (.building fun _ => .of_parts ?_ rfl) fun p hparam => .pure ?_
    · show Part.Nest n [.type t]
      simpa using ht
    · exact List.forall_mem_cons.mpr ⟨hparam, hps⟩

theorem paramAfter_nests (names : List Ident) (start : Location) :
    (paramAfter parse names start).Yields fun r => (Visit.param r.1).Nests (n + 1) := by
  refine .bind_any fun dots => .bind hp.type fun t ht => .bind (finishParam_nests ht)
    fun p hparam => ?_
  refine .ite (fun _ => .bind_any fun _ => .pure hparam) fun _ => ?_
  exact .bind_any fun more => .pure hparam

theorem unnamedParams_nests {ps : List Param} (hps : ∀ p ∈ ps, (Visit.param p).Nests (n + 1)) :
    (unnamedParams parse ps).Yields fun ps => ∀ p ∈ ps, (Visit.param p).Nests (n + 1) := by
  refine .repeating hps fun ps hps => .bind_any fun start => ?_
  refine .bind (paramAfter_nests hp [] start) fun ⟨p, more⟩ hparam => ?_
  have hmore : ∀ q ∈ p :: ps, (Visit.param q).Nests (n + 1) :=
    List.forall_mem_cons.mpr ⟨hparam, hps⟩
  exact .ite (fun _ => .pure hmore) fun _ => .pure hmore

theorem namedParams_nests (names : List Ident) :
    (namedParams parse names).Yields fun ps => ∀ p ∈ ps, (Visit.param p).Nests (n + 1) := by
  refine .bind (.repeating (I := fun st => ∀ p ∈ st.2, (Visit.param p).Nests (n + 1))
    (by simp) ?_) fun _ hps => .pure hps
  rintro ⟨names, ps⟩ hps
  have later : ∀ start, (paramAfter parse names start >>= fun r =>
      if r.2 = true then do pure (.again (← commaSeparated ident, r.1 :: ps))
      else pure (.stop ([], r.1 :: ps)) : Parser (Turn (List Ident × List Param))).Yields
        (Yields.TurnYields fun st => ∀ p ∈ st.2, (Visit.param p).Nests (n + 1)) := by
    intro start
    refine .bind (paramAfter_nests hp names start) fun r hparam => ?_
    obtain ⟨p, more⟩ := r
    have hmore : ∀ q ∈ p :: ps, (Visit.param q).Nests (n + 1) :=
      List.forall_mem_cons.mpr ⟨hparam, hps⟩
    exact .ite (fun _ => .bind_any fun _ => .pure hmore) fun _ => .pure hmore
  cases names with
  | nil => exact .bind_any fun start => later start
  | cons name names => exact .bind_pure (later _)

theorem params_nests :
    (params parse).Yields fun ps => ∀ p ∈ ps, (Visit.param p).Nests (n + 1) := by
  have types : ∀ names, (typeNameParams names >>= fun ps => isAt .rParen >>= fun atEnd =>
      if atEnd = true then pure ps else unnamedParams parse ps).Yields
        fun ps => ∀ p ∈ ps, (Visit.param p).Nests (n + 1) := by
    intro names
    refine .bind (typeNameParams_nests (n := n) names) fun ps hps => ?_
    exact .choice (.pure hps) (unnamedParams_nests hp hps)
  refine .bind_any fun found => ?_
  cases found with
  | undecided names => exact types names
  | types names => exact types names
  | named names => exact namedParams_nests hp names.reverse
  | qualified names pkg =>
    refine .bind (typeNameParams_nests (n := n) names) fun ps hps => ?_
    refine .bind (qualifiedType_nests (n := n) pkg) fun t ht => ?_
    refine .bind (finishParam_nests ht) fun p hparam => ?_
    have hmore : ∀ q ∈ p :: ps, (Visit.param q).Nests (n + 1) :=
      List.forall_mem_cons.mpr ⟨hparam, hps⟩
    exact .choice (unnamedParams_nests hp hmore) (.pure hmore)

theorem parameters_nests :
    (parameters parse).Yields fun ps => Part.Nest (n + 1) ps.parts := by
  refine .unrestricted (.bind_any fun lParen => ?_)
  refine .joinChoice (P := fun ps => ∀ p ∈ ps, (Visit.param p).Nests (n + 1)) (.pure nofun)
    (.map ((params_nests hp).imp fun ps hps => ?_)) fun ps hps => ?_
  · simpa using hps
  · refine .bind_any fun _ => .bind_any fun _ => .pure ?_
    simpa [ParamList.parts] using hps

theorem signature_nests : (signature parse).Yields fun sig => Part.Nest n sig.parts := by
  refine .bind hp.parameters fun ps hps => ?_
  have finish : ∀ {result : Option FuncResult}, (∀ r ∈ result, Part.Nest n r.parts) →
      (spanFrom ps.span.start >>= fun sp => pure ⟨ps, result, sp⟩ : Parser Signature).Yields
        fun sig => Part.Nest n sig.parts := by
    intro result hresult
    refine .bind_any fun sp => .pure ?_
    simpa [Signature.parts] using ⟨hps, hresult⟩
  refine .bind_any fun atParen => .bind_any fun k => .ite (fun _ => ?_) fun _ => .ite (fun _ => ?_)
    fun _ => .bind_pure (finish (by simp))
  · refine .bind_map (R := fun r => Part.Nest n r.parts) (.map hp.parameters) fun r hr => finish ?_
    rintro _ ⟨⟩
    exact hr
  · refine .bind_map (R := fun r => Part.Nest n r.parts) (.map (hp.type.imp fun t ht => ?_))
      fun r hr => finish ?_
    · have ht : (Visit.type t).Nests n := ht
      simpa [FuncResult.parts] using ht
    · rintro _ ⟨⟩
      exact hr

-- =============================================== structs and interfaces

theorem structType_nests :
    (structType parse).Yields fun fs => Part.Nest n (fs.map .field) := by
  refine .bind_any fun _ => .bind_any fun _ => ?_
  refine .bind (.unrestricted (itemsUntil_nests fun _ => hp .fieldDecl)) fun fields hfields => ?_
  refine .bind_any fun _ => .bind_any fun _ => .pure ?_
  simpa [Production.Nests] using hfields

theorem fieldParts_nests :
    (fieldParts parse).Yields fun parts => (Visit.type parts.2).Nests (n + 1) := by
  refine .bind_any fun start => .bind_any fun kind => ?_
  split
  · refine .bind_any fun _ => .bind (typeName_nests (n := n)) fun elem helem => ?_
    refine .bind (finishType_nests (n := n) ?_) fun t ht => .pure ht
    simpa [TypeForm.parts] using helem
  · have embedded : ∀ first, (qualifiedType first >>= fun t => pure (([] : List Ident), t)).Yields
        fun parts => (Visit.type parts.2).Nests (n + 1) :=
      fun first => .bind (qualifiedType_nests first) fun t ht => .pure ht
    refine .bind_any fun first => .bind_any fun kind => ?_
    split
    iterate 5 exact embedded first
    · refine .bind_any fun names => .bind hp.type fun t ht => .bind_any fun _ => .pure ?_
      exact ht.mono (Nat.le_succ n)
  · exact .unexpected

theorem fieldDecl_nests : (fieldDecl parse).Yields fun f => (Visit.field f).Nests (n + 2) := by
  refine .bind_any fun start => .bind (fieldParts_nests hp) fun ⟨names, t⟩ ht => ?_
  have finish : ∀ tag, (spanFrom start >>= newField ⟨names, t, tag⟩).Yields
      fun f => (Visit.field f).Nests (n + 2) := by
    refine fun tag => .bind_any fun sp => .building fun _ => .of_parts ?_ rfl
    show Part.Nest (n + 1) (names.map .name ++ .type t :: tag.toList.map .literal)
    cases tag <;> simpa [literal_nests] using ht
  refine .bind_any fun kind => ?_
  split
  iterate 2 exact .bind_any finish
  · exact .bind_pure (finish none)

theorem interfaceElement_nests :
    (interfaceElement parse).Yields fun e => Part.Nest n e.parts := by
  refine .bind_any fun name => .choice ?_ ?_
  · refine .bind hp.signature fun sig hsig => .pure ?_
    simpa [InterfaceElement.parts] using hsig
  · refine .bind (qualifiedType_nests (n := n) name) fun t ht => .pure ?_
    simpa [InterfaceElement.parts] using ht

theorem interfaceType_nests :
    (interfaceType parse).Yields fun es => Part.Nest n (es.flatMap InterfaceElement.parts) := by
  refine .bind_any fun _ => .bind_any fun _ => ?_
  refine .bind (.unrestricted (itemsUntil_nests fun _ => interfaceElement_nests hp))
    fun es hes => ?_
  refine .bind_any fun _ => .bind_any fun _ => .pure ?_
  simpa using hes

end Grammar

end GoSource
