/-
Expressions, in a store and as trees.

Each production that builds in a store does what the production does that
builds trees, if this holds of the productions below it
(`SubParser.Mimics`). Where the one has a node at hand, the other has its
number, and takes the span or the row from the store.
-/
import GoSource.Grammar
import GoSource.Proofs.Storage.Mimics
import GoSource.Proofs.Storage.SameForm
import GoSource.Storage.Grammar

namespace GoSource.Stored

open GoSource.Stored.Parser

/-- Every production in a store does what it does as one of trees. -/
structure SubParser.Mimics (parse : SubParser) (tree : GoSource.SubParser) : Prop where
  expression {R : Reader} : Stored.Mimics R parse.expression (tree .expression) Reader.expr
  unaryExpr {R : Reader} : Stored.Mimics R parse.unaryExpr (tree .unaryExpr) Reader.expr
  primaryExpr {R : Reader} : Stored.Mimics R parse.primaryExpr (tree .primaryExpr) Reader.expr
  operand {R : Reader} : Stored.Mimics R parse.operand (tree .operand) Reader.expr
  indexOrSlice {R : Reader} {i : ExprId} {x : GoSource.Expr} (hx : R.expr i = some x) :
    Stored.Mimics R (parse.indexOrSlice i) (tree (.indexOrSlice x)) Reader.expr
  call {R : Reader} {i : ExprId} {x : GoSource.Expr} (hx : R.expr i = some x) :
    Stored.Mimics R (parse.call i) (tree (.call x)) Reader.expr
  compositeLit {R : Reader} {o : Option TypeId} {t : Option GoSource.TypeExpr} {start : Location}
    (ht : maybe Reader.type R o = some t) :
    Stored.Mimics R (parse.compositeLit o start) (tree (.compositeLit t start)) Reader.expr
  type {R : Reader} : Stored.Mimics R parse.type (tree .type) Reader.type
  signature {R : Reader} : Stored.Mimics R parse.signature (tree .signature) Signature.read
  parameters {R : Reader} : Stored.Mimics R parse.parameters (tree .parameters) ParamList.read
  structType {R : Reader} : Stored.Mimics R parse.structType (tree .structType) Reader.fields
  fieldDecl {R : Reader} : Stored.Mimics R parse.fieldDecl (tree .fieldDecl) Reader.field
  interfaceType {R : Reader} :
    Stored.Mimics R parse.interfaceType (tree .interfaceType) Reader.interfaceElements
  block {R : Reader} : Stored.Mimics R parse.block (tree .block) Block.read
  statement {R : Reader} : Stored.Mimics R parse.statement (tree .statement) Reader.stmt
  simpleStmt {R : Reader} {mode : SimpleMode} :
    Stored.Mimics R (parse.simpleStmt mode) (tree (.simpleStmt mode)) Draft.read
  ifStmt {R : Reader} : Stored.Mimics R parse.ifStmt (tree .ifStmt) Reader.stmt
  forStmt {R : Reader} : Stored.Mimics R parse.forStmt (tree .forStmt) Stmt.read
  group {R : Reader} {kind : GroupKind} :
    Stored.Mimics R (parse.group kind) (tree (.group kind)) (each Reader.decl)
  functionDecl {R : Reader} : Stored.Mimics R parse.functionDecl (tree .functionDecl) Reader.decl
  importDecl {R : Reader} : Stored.Mimics R parse.importDecl (tree .importDecl) Reader.decl
  file {R : Reader} : Stored.Mimics R parse.file (tree .file) File.read
  typeSwitchGuard {R : Reader} :
    Stored.Mimics R parse.typeSwitchGuard (tree .typeSwitchGuard) Reader.stmt

namespace Grammar

-- ============================================================= sequences

section

variable {α β : Type} {R : Reader} {read : Reader → β → Option α}

theorem afterCommas_mimics {item : Parser β} {item' : GoSource.Parser α} {first : β} {x : α}
    (hmono : ∀ {R R' : Reader}, R.Le R' → ∀ y, Sub (read R y) (read R' y))
    (hfirst : read R first = some x) (h : ∀ {R}, Mimics R item item' read) :
    Mimics R (afterCommas item first) (GoSource.Grammar.afterCommas item' x) (each read) := by
  have hinit : each read R [first] = some [x] := each_cons hfirst each_nil
  refine .bind (.repeating hinit fun R₁ ys xs _ hys => ?_) fun R₁ ys xs _ hys => ?_
  · refine .bind_look fun o => ?_
    cases o with
    | none => exact .pure (turn_stop hys)
    | some sp =>
      exact .bind h fun R₂ y x hle hy => .pure (turn_again (each_cons hy (each_le (hmono hle) hys)))
  · exact .pure (each_reverse hys)

theorem commaSeparated_mimics {item : Parser β} {item' : GoSource.Parser α}
    (hmono : ∀ {R R' : Reader}, R.Le R' → ∀ y, Sub (read R y) (read R' y))
    (h : ∀ {R}, Mimics R item item' read) :
    Mimics R (commaSeparated item) (GoSource.Grammar.commaSeparated item') (each read) :=
  .bind h fun _ _ _ _ hfirst => afterCommas_mimics hmono hfirst h

theorem itemsUntil_mimics {close separator : Token.Kind} {item : Nat → Parser β}
    {item' : Nat → GoSource.Parser α}
    (hmono : ∀ {R R' : Reader}, R.Le R' → ∀ y, Sub (read R y) (read R' y))
    (h : ∀ {R} i, Mimics R (item i) (item' i) read) :
    Mimics R (itemsUntil close separator item)
      (GoSource.Grammar.itemsUntil close separator item') (each read) := by
  have hinit : both same (each read) R (0, []) = some (0, []) := rfl
  refine .bind (.repeating hinit ?_) ?_
  · rintro R₁ ⟨n, ys⟩ ⟨m, xs⟩ _ hst
    obtain ⟨hn, hys⟩ := both_eq_some.mp hst
    obtain rfl : n = m := same_eq_some.mp hn
    refine .choice (.pure (turn_stop hst)) (.bind (h n) fun R₂ y x hle hy => .bind_look fun o => ?_)
    have hmore : both same (each read) R₂ (n + 1, y :: ys) = some (n + 1, x :: xs) :=
      both_eq_some.mpr ⟨rfl, each_cons hy (each_le (hmono hle) hys)⟩
    cases o with
    | none => exact .pure (turn_stop hmore)
    | some sp => exact .pure (turn_again hmore)
  · rintro R₁ ⟨n, ys⟩ ⟨m, xs⟩ _ hst
    exact .pure (each_reverse (both_eq_some.mp hst).2)

end

-- =========================================================== expressions

variable {parse : SubParser} {tree : GoSource.SubParser} {R : Reader} (hp : parse.Mimics tree)

include hp

theorem binaryExpr_mimics (levels least : Nat) :
    Mimics R (binaryExpr parse levels least) (GoSource.Grammar.binaryExpr tree levels least)
      Reader.expr := by
  induction levels generalizing least R with
  | zero => exact hp.unaryExpr
  | succ levels ih =>
    refine .bind hp.unaryExpr fun _ first x _ hfirst => .repeating hfirst ?_
    refine fun _ left x _ hleft => .bind_look fun kind => ?_
    generalize BinaryOp.ofKind kind = o
    cases o with
    | none => exact .pure (turn_stop hleft)
    | some op =>
      refine .ite (fun _ => .bind_look fun t => ?_) fun _ => .pure (turn_stop hleft)
      refine .bind (ih _) fun R' right y hle hright => ?_
      have hleft := hle.node _ _ hleft
      refine .known (.exprSpan hleft) (.known (.exprSpan hright) (.bind (.newExpr ?_) ?_))
      · simp [Expr.read, hleft, hright]
      · exact fun _ e z _ he => .pure (turn_again he)

theorem exprList_mimics :
    Mimics R (exprList parse) (GoSource.Grammar.exprList tree) (each Reader.expr) :=
  commaSeparated_mimics (fun h => h.node .expr) hp.expression

-- ======================================================= types, reread

omit hp in
theorem toType_mimics {i : ExprId} {x : GoSource.Expr} (hx : R.expr i = some x) :
    Mimics R (toType i) (GoSource.Grammar.toType x) Reader.type := by
  refine .known (.exprSpan hx) (.find (.exprRow hx) fun row hrow => ?_)
  obtain ⟨_, sp, form⟩ := x
  cases Expr.sameForm hrow with
  | ident =>
    have hname := Expr.read_ident.mp hrow
    exact .newType (by simp [TypeExpr.read, optional, hname])
  | type => exact .pure (Expr.read_type.mp hrow)
  | @selector j n y m =>
    obtain ⟨hy, hn⟩ := Expr.read_selector.mp hrow
    refine .find (.exprRow hy) fun row hrow => ?_
    obtain ⟨_, _, form⟩ := y
    cases Expr.sameForm hrow with
    | ident =>
      have hpkg := Expr.read_ident.mp hrow
      exact .newType (by simp [TypeExpr.read, optional, hpkg, hn])
    | _ => exact .unexpectedAt
  | _ => exact .unexpectedAt

omit hp in
theorem opensComposite_finds {i : ExprId} {x : GoSource.Expr} (hx : R.expr i = some x)
    (inHeader : Bool) :
    Finds R (opensComposite inHeader i) (· = GoSource.Grammar.opensComposite inHeader x) := by
  refine .bind (.exprRow hx) fun row hrow => ?_
  obtain ⟨_, _, form⟩ := x
  cases Expr.sameForm hrow with
  | @selector _ _ y =>
    refine .bind (.exprRow (Expr.read_selector.mp hrow).1) fun row hrow => ?_
    obtain ⟨_, _, form⟩ := y
    cases Expr.sameForm hrow <;> exact .pure rfl
  | @type _ t =>
    refine .bind (.typeRow (Expr.read_type.mp hrow)) fun row hrow => ?_
    obtain ⟨_, _, form⟩ := t
    cases TypeExpr.sameForm hrow <;> exact .pure rfl
  | _ => exact .pure rfl

-- ============================================================= suffixes

theorem selectorOrAssertion_mimics {i : ExprId} {x : GoSource.Expr} (hx : R.expr i = some x) :
    Mimics R (selectorOrAssertion parse i) (GoSource.Grammar.selectorOrAssertion tree x)
      Reader.expr := by
  refine .bind_look fun _ => .known (.exprSpan hx) ?_
  refine .choice (.bind .ident ?_) (.choice ?_ .unexpected)
  · intro R' n m hle hn
    rw [Ident.span_of_read hn]
    exact .newExpr (Expr.read_selector.mpr ⟨hle.node _ _ hx, hn⟩)
  · refine .bind_look fun _ => .choice (.choice ?_ .bind_unexpected) ?_
    · refine .bind_look fun _ => .bind_look fun _ => .pure_bind (.bind_look fun rParen => ?_)
      exact .newExpr (by simp [Expr.read, optional, hx])
    · refine .bind_map (.unrestricted hp.type) ?_
      refine fun R' t t' hle ht => .bind_look fun rParen => ?_
      have hx := hle.node _ _ hx
      exact .newExpr (by simp [Expr.read, optional, hx, ht])

theorem suffixes_mimics {i : ExprId} {x : GoSource.Expr} (hx : R.expr i = some x) :
    Mimics R (suffixes parse i) (GoSource.Grammar.suffixes tree x) Reader.expr := by
  refine .repeating hx fun R' j y _ hy => .bind_look fun kind => ?_
  have again {p : Parser ExprId} {q : GoSource.Parser GoSource.Expr}
      (h : Mimics R' p q Reader.expr) :
      Mimics R' (.again <$> p) (.again <$> q) (turn Reader.expr) :=
    .map h fun _ _ _ _ => turn_again
  cases kind with
  | dot => exact again (selectorOrAssertion_mimics hp hy)
  | lBrack => exact again (hp.indexOrSlice hy)
  | lParen => exact again (hp.call hy)
  | lBrace =>
    refine .bind_look fun inHeader => .known (opensComposite_finds hy inHeader) ?_
    refine .ite (fun _ => .bind (toType_mimics hy) fun R'' t t' hle ht => ?_)
      fun _ => .pure (turn_stop hy)
    exact .known (.typeSpan ht) (.map (hp.compositeLit (maybe_some ht)) fun _ _ _ _ => turn_again)
  | _ => exact .pure (turn_stop hy)

theorem upperBounds_mimics :
    Mimics R (upperBounds parse) (GoSource.Grammar.upperBounds tree)
      (both (maybe Reader.expr) (maybe Reader.expr)) := by
  refine .choice (.pure rfl) (.bind hp.expression fun R₁ high x _ hhigh => .bind_look fun o => ?_)
  have hhigh : maybe Reader.expr R₁ (some high) = some (some x) := maybe_some hhigh
  cases o with
  | none => exact .pure (both_eq_some.mpr ⟨hhigh, rfl⟩)
  | some sp =>
    refine .bind hp.expression fun R₂ top y hle htop => .pure (both_eq_some.mpr ?_)
    exact ⟨Sub.optional (hle.node .expr) _ hhigh, maybe_some htop⟩

theorem indexOrSlice_mimics {i : ExprId} {x : GoSource.Expr} (hx : R.expr i = some x) :
    Mimics R (indexOrSlice parse i) (GoSource.Grammar.indexOrSlice tree x) Reader.expr := by
  refine .unrestricted (.known (.exprSpan hx) (.bind_look fun lBrack => ?_))
  refine .joinChoice (maybe Reader.expr) (.pure rfl) (.map hp.expression ?_) ?_
  · exact fun _ _ _ _ => maybe_some
  intro R₁ low low' hle hlow
  have hx := hle.node _ _ hx
  have slice : Mimics R₁
      (expect .colon >>= fun _ => upperBounds parse >>= fun bounds =>
        expect .rBrack >>= fun rBrack => newExpr (.slice i lBrack low bounds.1 bounds.2 rBrack)
          (x.span.through rBrack))
      (GoSource.Parser.expect .colon >>= fun _ =>
        GoSource.Grammar.upperBounds tree >>= fun bounds =>
        GoSource.Parser.expect .rBrack >>= fun rBrack =>
          GoSource.Parser.newExpr (.slice x lBrack low' bounds.1 bounds.2 rBrack)
            (x.span.through rBrack)) Reader.expr := by
    refine .bind_look fun _ => .bind (upperBounds_mimics hp) fun R₂ bounds bounds' hle hbounds => ?_
    refine .bind_look fun rBrack => .newExpr ?_
    obtain ⟨hhigh, hmax⟩ := both_eq_some.mp hbounds
    have hlow := Sub.optional (hle.node .expr) _ hlow
    have hx := hle.node _ _ hx
    unfold maybe at hhigh hmax
    simp [Expr.read, hx, hlow, hhigh, hmax]
  refine .bind_look fun colon => ?_
  obtain ⟨rfl, rfl⟩ | ⟨j, y, rfl, rfl, hy⟩ := maybe_cases hlow
  · exact slice
  · cases colon with
    | true => exact slice
    | false => exact .bind_look fun rBrack => .newExpr (by simp [Expr.read, hx, hy])

theorem nextArgument_mimics {st : List ExprId × Option Span}
    {st' : List GoSource.Expr × Option Span} (hst : both (each Reader.expr) same R st = some st') :
    Mimics R (nextArgument parse st) (GoSource.Grammar.nextArgument tree st')
      (turn (both (each Reader.expr) same)) := by
  obtain ⟨is, dots⟩ := st
  obtain ⟨xs, dots'⟩ := st'
  obtain ⟨hxs, hdots⟩ := both_eq_some.mp hst
  refine .choice (.pure (turn_stop hst)) (.bind hp.expression fun R' i x hle hx => ?_)
  have hmore (dots : Option Span) :
      both (each Reader.expr) same R' (i :: is, dots) = some (x :: xs, dots) :=
    both_eq_some.mpr ⟨each_cons hx (each_le (hle.node .expr) hxs), rfl⟩
  refine .bind_look fun o => ?_
  cases o with
  | some sp => exact .bind_look fun _ => .pure (turn_stop (hmore _))
  | none =>
    refine .bind_look fun o => ?_
    cases o with
    | some sp => exact .pure (turn_again (hmore _))
    | none => exact .pure (turn_stop (hmore _))

theorem call_mimics {i : ExprId} {x : GoSource.Expr} (hx : R.expr i = some x) :
    Mimics R (call parse i) (GoSource.Grammar.call tree x) Reader.expr := by
  refine .unrestricted (.known (.exprSpan hx) (.bind_look fun lParen => ?_))
  refine .bind (.repeating (y := ([], none)) (x := ([], none)) rfl
    fun _ _ _ _ => nextArgument_mimics hp) ?_
  rintro R₁ ⟨is, dots⟩ ⟨xs, dots'⟩ hle hst
  obtain ⟨hxs, hdots⟩ := both_eq_some.mp hst
  obtain rfl : dots = dots' := same_eq_some.mp hdots
  refine .bind_look fun rParen => .bind_listExprs (each_reverse hxs) fun R₂ r hle' hr => ?_
  have hx := hle'.node _ _ (hle.node _ _ hx)
  exact .newExpr (by simp [Expr.read, hx, hr])

-- =================================================== composite literals

theorem elementPart_mimics :
    Mimics R (elementPart parse) (GoSource.Grammar.elementPart tree) Reader.expr :=
  .choice (.bind_look fun _ => hp.compositeLit rfl) hp.expression

theorem element_mimics :
    Mimics R (element parse) (GoSource.Grammar.element tree) Element.read := by
  refine .bind (elementPart_mimics hp) fun R₁ first x _ hfirst => .bind_look fun o => ?_
  cases o with
  | none => exact .pure (by simp [Element.read, optional, hfirst])
  | some sp =>
    refine .bind (elementPart_mimics hp) fun R₂ value y hle hvalue => .pure ?_
    have hfirst := hle.node _ _ hfirst
    simp [Element.read, optional, hfirst, hvalue]

theorem compositeLit_mimics {o : Option TypeId} {t : Option GoSource.TypeExpr} {start : Location}
    (ht : maybe Reader.type R o = some t) :
    Mimics R (compositeLit parse o start) (GoSource.Grammar.compositeLit tree t start)
      Reader.expr := by
  refine .unrestricted (.bind_look fun lBrace => ?_)
  refine .bind (itemsUntil_mimics Element.read_le fun _ => element_mimics hp)
    fun R₁ es es' hle hes => ?_
  refine .bind_look fun rBrace => .bind_listElements hes fun R₂ r hle' hr => .newExpr ?_
  have ht : optional R₂.type o = some t := Sub.optional ((hle.trans hle').node .type) _ ht
  simp [Expr.read, ht, hr]

-- ============================================================= operands

theorem receiveChan_mimics {arrow : Span} :
    Mimics R (receiveChan parse arrow) (GoSource.Grammar.receiveChan tree arrow) Reader.type := by
  refine .bind_look fun _ => .bind hp.type fun R' t t' _ ht => .bind_look fun sp => ?_
  exact .newType (by simp [TypeExpr.read, ht])

theorem unaryExpr_mimics :
    Mimics R (unaryExpr parse) (GoSource.Grammar.unaryExpr tree) Reader.expr := by
  refine .bind_look fun kind => ?_
  generalize UnaryOp.ofKind kind = o
  cases o with
  | none => exact hp.primaryExpr
  | some op =>
    refine .bind_look fun opToken => .bind_look fun isChan => .ite (fun _ => ?_) fun _ => ?_
    · refine .bind (receiveChan_mimics hp) fun R₁ t t' _ ht => .known (.typeSpan ht) ?_
      refine .bind (.newExpr (Expr.read_type.mpr ht)) fun R₂ i x _ hx => ?_
      exact suffixes_mimics hp hx
    · refine .bind hp.unaryExpr fun R₁ i x _ hx => .known (.exprSpan hx) ?_
      exact .newExpr (by simp [Expr.read, hx])

theorem primaryExpr_mimics :
    Mimics R (primaryExpr parse) (GoSource.Grammar.primaryExpr tree) Reader.expr :=
  .bind hp.operand fun _ _ _ _ hx => suffixes_mimics hp hx

theorem operand_mimics :
    Mimics R (operand parse) (GoSource.Grammar.operand tree) Reader.expr := by
  have literal : Mimics R
      (Parser.literal >>= fun l => literalSpan l >>= fun span => newExpr (.literal l) span)
      (GoSource.Parser.literal >>= fun l => GoSource.Parser.newExpr (.literal l) l.span)
      Reader.expr := by
    refine .bind .literal fun R₁ l l' _ hl => .known (.literalSpan hl) (.newExpr ?_)
    simp [Expr.read, hl]
  have type : Mimics R
      (parse.type >>= fun t => typeSpan t >>= fun span => newExpr (.type t) span)
      (tree .type >>= fun t => GoSource.Parser.newExpr (.type t) t.span) Reader.expr :=
    .bind hp.type fun R₁ t t' _ ht => .known (.typeSpan ht) (.newExpr (Expr.read_type.mpr ht))
  refine .bind_look fun kind => ?_
  cases kind with
  | ident =>
    refine .bind .ident fun R₁ n m _ hn => ?_
    rw [Ident.span_of_read hn]
    exact .newExpr (Expr.read_ident.mpr hn)
  | intLit | floatLit | imagLit | runeLit | stringLit | rawStringLit => exact literal
  | lParen =>
    refine .bind_look fun _ => .bind (.unrestricted hp.expression) fun R₁ i x _ hx => ?_
    exact .bind_look fun _ => .pure hx
  | kwFunc =>
    refine .bind_look fun func => .bind hp.signature fun R₁ sig sig' _ hsig => .choice ?_ ?_
    · exact .bind_look fun t => .fail
    · rw [Signature.span_of_read hsig]
      refine .bind (.newType (by simp [TypeExpr.read, hsig])) fun R₂ t t' _ ht => ?_
      exact .newExpr (Expr.read_type.mpr ht)
  | lBrack | kwStruct | kwMap | kwChan | kwInterface => exact type
  | _ => exact .unexpected

end Grammar

end GoSource.Stored
