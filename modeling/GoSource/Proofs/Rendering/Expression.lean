/-
Expressions read back from their renderings.

An expression stands in its rendering in one of two ways. Without
parentheses it is followed by the end of all there is or by the
parenthesis that closes it (`ExprRereads`); in parentheses it may be
followed by anything that is not attached to it (`Ends`). The second
follows from the first, whatever the expression is, so that a form has to
be looked at only without parentheses, and with its parts in parentheses.

# Levels

Operands, what is attached to them, unary and binary operators are four
levels of productions. A form shows itself at one of them, and the levels
above pass on what they get because nothing follows that concerns them.
-/
import GoSource.Proofs.Derivation
import GoSource.Proofs.Rendering.Sequence

namespace GoSource

open GoSource.Parser

-- ============================================================= equality

/-- Equal apart from spans and numbers. -/
abbrev SameExpr (x y : Expr) : Prop := Bare.expr y = Bare.expr x

abbrev SameType (t u : TypeExpr) : Prop := Bare.typeExpr u = Bare.typeExpr t

-- ========================================================= what follows

/-- Behind an expression without parentheses. -/
def Closes (t : Token) : Prop :=
  t.kind = .rParen ∨ t.kind = .eof

/-- Nothing that is attached to the operand. -/
structure Detached (h : Bool) (x : Expr) (t : Token) : Prop where
  dot : t.kind ≠ .dot
  lBrack : t.kind ≠ .lBrack
  lParen : t.kind ≠ .lParen
  lBrace : t.kind = .lBrace → Grammar.opensComposite h x = false

/-- Nothing that continues the expression. -/
structure Ends (h : Bool) (x : Expr) (t : Token) : Prop extends Detached h x t where
  binary : BinaryOp.ofKind t.kind = none

/-- Nothing that continues a type. -/
structure TypeEnds (t : Token) : Prop where
  dot : t.kind ≠ .dot
  starts : Grammar.startsType t.kind = false

/-- Kinds that end an expression of whatever form. -/
def Token.Kind.endsExpr (k : Token.Kind) : Bool :=
  k ≠ .dot && k ≠ .lBrack && k ≠ .lParen && k ≠ .lBrace && BinaryOp.ofKind k = none

variable {h : Bool} {x y z : Expr} {t : Token} {k : Token.Kind}

theorem Ends.of_endsExpr (ht : t.kind.endsExpr = true) : Ends h x t := by
  simp only [Token.Kind.endsExpr, Bool.and_eq_true, decide_eq_true_eq] at ht
  obtain ⟨⟨⟨⟨hdot, hbrack⟩, hparen⟩, hbrace⟩, hop⟩ := ht
  exact ⟨⟨hdot, hbrack, hparen, fun hk => absurd hk hbrace⟩, hop⟩

theorem Ends.of_kind (ht : t.kind = k) (hk : k.endsExpr = true) : Ends h x t :=
  .of_endsExpr (by rwa [ht])

theorem binary_none (ht : t.kind.endsExpr = true) : BinaryOp.ofKind t.kind = none := by
  simp only [Token.Kind.endsExpr, Bool.and_eq_true, decide_eq_true_eq] at ht
  exact ht.2

theorem Closes.endsExpr (ht : Closes t) : t.kind.endsExpr = true := by
  obtain ht | ht := ht
  · rw [ht]
    rfl
  · rw [ht]
    rfl

theorem Closes.detached (ht : Closes t) : Detached h x t :=
  (Ends.of_endsExpr ht.endsExpr).toDetached

theorem TypeEnds.of_kind (ht : t.kind = k) (hdot : k ≠ .dot)
    (hstarts : Grammar.startsType k = false) : TypeEnds t := by
  subst ht
  exact ⟨hdot, hstarts⟩

theorem Detached.of_same (ht : Detached h x t) (hy : SameExpr x y) : Detached h y t :=
  ⟨ht.dot, ht.lBrack, ht.lParen, fun hk => by rw [opensComposite_of_bare hy, ht.lBrace hk]⟩

/-- An operator may follow an operand. -/
theorem BinaryOp.detached (op : BinaryOp) (ht : t.kind = op.kind) : Detached h x t := by
  refine ⟨?_, ?_, ?_, fun hk => ?_⟩
  · rw [ht]; cases op <;> decide
  · rw [ht]; cases op <;> decide
  · rw [ht]; cases op <;> decide
  · rw [ht] at hk
    cases op <;> exact nomatch hk

-- ======================================================= what comes back

/-- The expression comes back from its rendering. -/
def ExprRereads (parse : SubParser) (x : Expr) : Prop :=
  (parse .expression).Rereads false (Render.expr x) Closes (SameExpr x)

/-- The type comes back from its rendering. -/
def TypeRereads (parse : SubParser) (t : TypeExpr) : Prop :=
  (parse .type).Rereads false (Render.typeExpr t) TypeEnds (SameType t)

/-- The expression comes back if it is in parentheses. -/
def ExprInParens (parse : SubParser) (h : Bool) (x : Expr) : Prop :=
  (parse .expression).Rereads h (Render.parens (Render.expr x)) (Ends h x) (SameExpr x)

/-- And so does the type, whatever follows. -/
def TypeInParens (parse : SubParser) (t : TypeExpr) : Prop :=
  ∀ h, (parse .type).Rereads h (Render.parens (Render.typeExpr t)) (fun _ => True) (SameType t)

/-- The key or the value of an element. -/
def PartRereads (parse : SubParser) (x : Expr) : Prop :=
  (Grammar.elementPart parse).Rereads false (Render.part x)
    (fun t => t.kind = .comma ∨ t.kind = .colon) (SameExpr x)

def ElementRereads (parse : SubParser) (e : Element) : Prop :=
  (Grammar.element parse).Rereads false (Render.element e) (·.kind = .comma)
    fun e' => Bare.element e' = Bare.element e

/-- Types that show by their first token that they are no expression of
another form. -/
def TypeForm.isHeaded : TypeForm → Bool
  | .name _ _ | .pointer _ | .func _ | .chan .receive _ => false
  | _ => true

namespace Grammar

variable {parse : SubParser} {ss us : List Slot} {F G : Token → Prop} {R P : Expr → Prop}

-- =============================================================== levels

/-- Nothing is attached. -/
theorem suffix_stops (hF : ∀ t, F t → Detached h x t) (hP : P x) :
    (suffix parse x).Rereads h [] F (Rereads.Stops P) := by
  refine .bind_kind fun t ht => ?_
  have hd := hF t ht
  split
  · next hk => exact absurd hk hd.dot
  · next hk => exact absurd hk hd.lBrack
  · next hk => exact absurd hk hd.lParen
  · next hk =>
    refine .bind_inHeader ?_
    rw [if_neg (by rw [hd.lBrace hk]; exact Bool.false_ne_true)]
    exact .pure ⟨x, rfl, hP⟩
  · exact .pure ⟨x, rfl, hP⟩

/-- One thing is attached, and no more. -/
theorem suffixes_once (hx : (suffix parse x).Rereads h ss G (Rereads.GoesOn R)) (hne : ss ≠ [])
    (link : ∀ t, F t → G t) (hF : ∀ y t, R y → F t → Detached h y t) :
    (suffixes parse x).Rereads h ss F R := by
  rw [← List.append_nil ss]
  exact .repeating (.again hx hne link fun y hy => .stop (suffix_stops (fun t => hF y t hy) hy))

theorem primaryExpr_rereads (hx : (parse .operand).Rereads h ss F R)
    (hF : ∀ y t, R y → F t → Detached h y t) : (primaryExpr parse).Rereads h ss F R :=
  .bind_last hx fun y hy => .repeating (.stop (suffix_stops (fun t => hF y t hy) hy))

theorem unaryExpr_rereads (hx : (parse .primaryExpr).Rereads h ss F R)
    (hk : ∀ t, Leads ss F t → UnaryOp.ofKind t.kind = none) :
    (unaryExpr parse).Rereads h ss F R :=
  .bind_kind fun t ht => by
    rw [hk t ht]
    exact hx

theorem binaryExpr_rereads {levels least : Nat} (hx : (parse .unaryExpr).Rereads h ss F R)
    (hF : ∀ t, F t → BinaryOp.ofKind t.kind = none) :
    (binaryExpr parse levels least).Rereads h ss F R := by
  cases levels with
  | zero => exact hx
  | succ levels =>
    refine .bind_last hx fun y hy => .repeating (.stop (.bind_kind fun t ht => ?_))
    rw [hF t ht]
    exact .pure ⟨y, rfl, hy⟩

end Grammar

namespace Always

variable {ss : List Slot} {F : Token → Prop} {R : Expr → Prop}

theorem primaryExpr (hx : Always fun parse => (parse .operand).Rereads h ss F R)
    (hF : ∀ y t, R y → F t → Detached h y t) :
    Always fun parse => (parse .primaryExpr).Rereads h ss F R :=
  hx.deeper fun _ hx => .production (Grammar.primaryExpr_rereads hx hF)

theorem unaryExpr (hx : Always fun parse => (parse .primaryExpr).Rereads h ss F R)
    (hk : ∀ t, Leads ss F t → UnaryOp.ofKind t.kind = none) :
    Always fun parse => (parse .unaryExpr).Rereads h ss F R :=
  hx.deeper fun _ hx => .production (Grammar.unaryExpr_rereads hx hk)

theorem expression (hx : Always fun parse => (parse .unaryExpr).Rereads h ss F R)
    (hF : ∀ t, F t → BinaryOp.ofKind t.kind = none) :
    Always fun parse => (parse .expression).Rereads h ss F R :=
  hx.deeper fun _ hx => .production (Grammar.binaryExpr_rereads hx hF)

/-- An expression that shows itself as an operand. -/
theorem ofOperand (hx : Always fun parse => (parse .operand).Rereads h ss F R)
    (hk : ∀ t, Leads ss F t → UnaryOp.ofKind t.kind = none)
    (hF : ∀ t, F t → t.kind.endsExpr = true) :
    Always fun parse => (parse .expression).Rereads h ss F R :=
  ((hx.primaryExpr fun _ t _ ht => (Ends.of_endsExpr (hF t ht)).toDetached).unaryExpr hk).expression
    fun t ht => binary_none (hF t ht)

end Always

-- ========================================================== parentheses

namespace Grammar

variable {parse : SubParser}

theorem operand_parens {F : Token → Prop} (hx : ExprRereads parse x) :
    (operand parse).Rereads h (Render.parens (Render.expr x)) F (SameExpr x) := by
  refine .bind_kind_at (.bind_advance fun _ _ => ?_)
  refine .bind (.unrestricted hx) (fun t ht => .inl ht.2) fun y hy => ?_
  exact .bind_expect fun _ => .pure hy

end Grammar

variable (hx : Always (ExprRereads · x))

include hx

theorem Always.operandParens (h : Bool) (F : Token → Prop) : Always fun parse =>
    (parse .operand).Rereads h (Render.parens (Render.expr x)) F (SameExpr x) :=
  hx.deeper fun _ hx => .production (Grammar.operand_parens hx)

theorem Always.unaryParens (h : Bool) : Always fun parse =>
    (parse .unaryExpr).Rereads h (Render.parens (Render.expr x)) (Detached h x) (SameExpr x) := by
  refine ((hx.operandParens h _).primaryExpr fun _ _ hy ht => ht.of_same hy).unaryExpr
    fun t ht => ?_
  have hk : t.kind = .lParen := ht.2
  rw [hk]
  rfl

theorem Always.inParens (h : Bool) : Always (ExprInParens · h x) :=
  ((hx.unaryParens h).imp fun _ hx => hx.before fun _ ht => ht.toDetached).expression
    fun _ ht => ht.binary

omit hx

-- ================================================================ nodes

namespace Parser.Rereads

variable {F : Token → Prop}

theorem newExpr {i : Nat} {sp sp' : Span} {form form' : ExprForm}
    (hform : Bare.exprForm form' = Bare.exprForm form) :
    (Parser.newExpr form' sp').Rereads h [] F (SameExpr ⟨i, sp, form⟩) :=
  building fun _ => congrArg (Node.mk 0 .nowhere) hform

theorem newType {i : Nat} {sp sp' : Span} {form form' : TypeForm}
    (hform : Bare.typeForm form' = Bare.typeForm form) :
    (Parser.newType form' sp').Rereads h [] F (SameType ⟨i, sp, form⟩) :=
  building fun _ => congrArg (Node.mk 0 .nowhere) hform

/-- A turn that ends with what a parser returns. -/
theorem again {ss : List Slot} {R : Expr → Prop} {p : Parser Expr} (hp : p.Rereads h ss F R) :
    (Turn.again <$> p).Rereads h ss F (GoesOn R) :=
  map (hp.imp (fun _ ht => ht) fun z hz => ⟨z, rfl, hz⟩)

end Parser.Rereads

-- ============================================== operands and operators

namespace Grammar

variable {parse : SubParser} {F : Token → Prop} {i : Nat} {sp sp' sp'' : Span}

theorem operand_ident {n : Ident} :
    (operand parse).Rereads h [.name n.name] F (SameExpr ⟨i, sp, .ident n⟩) := by
  refine .bind_kind_of (fun _ ht => ht.2.1) (.bind_last ident_rereads fun m hm => .newExpr ?_)
  rw [Bare.exprForm, Bare.exprForm, hm]

theorem operand_literal {lit : Lit} :
    (operand parse).Rereads h [.literal lit.form] F (SameExpr ⟨i, sp, .literal lit⟩) := by
  have hlit : (literal >>= fun l => newExpr (.literal l) l.span).Rereads h [.literal lit.form] F
      (SameExpr ⟨i, sp, .literal lit⟩) := by
    refine .bind_last .literal fun l hl => .newExpr ?_
    rw [Bare.exprForm, Bare.exprForm, Bare.lit, Bare.lit, hl]
  refine .bind_kind fun t ht => ?_
  have hkind := Rereads.isKind_of_decode ht.2
  split
  iterate 7 first | exact hlit | simp_all [Literal.isKind]
  all_goals simp_all [Literal.isKind]

theorem unaryExpr_unary {op : UnaryOp} (hk : ∀ t, Leads ss F t → t.kind ≠ .kwChan)
    (hx : (parse .unaryExpr).Rereads h ss F (SameExpr x)) :
    (unaryExpr parse).Rereads h (.kind op.kind :: ss) F (SameExpr ⟨i, sp, .unary op sp' x⟩) := by
  refine .bind_kind_at ?_
  rw [op.ofKind_kind]
  refine .bind_advance fun _ _ => .bind_isAt_false hk ?_
  rw [Bool.and_false, if_neg Bool.false_ne_true]
  refine .bind_last hx fun y hy => .newExpr ?_
  rw [Bare.exprForm, Bare.exprForm, hy]

/-- An operator that binds tightly enough, with its right operand. -/
theorem nextOperator_rereads {op : BinaryOp} {least : Nat} {right : Nat → Parser Expr} {x' : Expr}
    (hleast : least ≤ op.precedence) (hx : SameExpr x x')
    (hy : (right (op.precedence + 1)).Rereads h ss F (SameExpr y)) :
    (nextOperator right least x').Rereads h (.kind op.kind :: ss) F
      (Rereads.GoesOn (SameExpr ⟨i, sp, .binary op sp' x y⟩)) := by
  refine .bind_kind_at ?_
  rw [op.ofKind_kind]
  show Rereads (if least ≤ op.precedence then _ else _) _ _ _ _
  rw [if_pos hleast]
  refine .bind_advance fun _ _ => .bind_last hy fun y' hy' => ?_
  refine .bind_last (.newExpr ?_) fun z hz => .pure ⟨z, rfl, hz⟩
  rw [Bare.exprForm, Bare.exprForm, hx, hy']

/-- No operator follows that binds tightly enough. -/
theorem nextOperator_stops {least : Nat} {right : Nat → Parser Expr}
    (hF : ∀ t, F t → ∀ op, BinaryOp.ofKind t.kind = some op → op.precedence < least) (hP : P x) :
    (nextOperator right least x).Rereads h [] F (Rereads.Stops P) := by
  refine .bind_kind fun t ht => ?_
  cases hop : BinaryOp.ofKind t.kind with
  | none => exact .pure ⟨x, rfl, hP⟩
  | some op =>
    have hlt := hF t ht op hop
    show Rereads (if least ≤ op.precedence then _ else _) _ _ _ _
    rw [if_neg (by omega)]
    exact .pure ⟨x, rfl, hP⟩

theorem expression_binary {op : BinaryOp} (hF : ∀ t, F t → t.kind.endsExpr = true)
    (hx : (parse .unaryExpr).Rereads h (Render.parens (Render.expr x)) (Detached h x) (SameExpr x))
    (hy : (parse .unaryExpr).Rereads h (Render.parens (Render.expr y)) (Detached h y)
      (SameExpr y)) :
    (expression parse).Rereads h
      (Render.parens (Render.expr x) ++ .kind op.kind :: Render.parens (Render.expr y)) F
      (SameExpr ⟨i, sp, .binary op sp' x y⟩) := by
  refine .bind hx (fun t ht => op.detached ht.2) fun x' hx' => .repeating ?_
  rw [← List.append_nil (_ :: _)]
  refine .again (G := F) (nextOperator_rereads (by cases op <;> decide) hx' ?_)
    (List.cons_ne_nil _ _) (fun _ ht => ht)
    fun z hz => .stop (nextOperator_stops (fun t ht op hop => ?_) hz)
  · refine binaryExpr_rereads (hy.before fun t ht => ?_) fun t ht => ?_
    · exact (Ends.of_endsExpr (hF t ht)).toDetached
    · exact binary_none (hF t ht)
  · rw [binary_none (hF t ht)] at hop
    exact nomatch hop

-- ============================================================== suffixes

variable (hy : SameExpr x y)

include hy

theorem suffix_selector {n : Ident} :
    (suffix parse y).Rereads h [.kind .dot, .name n.name] F
      (Rereads.GoesOn (SameExpr ⟨i, sp, .selector x n⟩)) := by
  refine .bind_kind_at (.again (.bind_expect fun _ => .ifAt (fun _ ht => ht.2.1) ?_))
  refine .bind_last ident_rereads fun m hm => .newExpr ?_
  rw [Bare.exprForm, Bare.exprForm, hy, hm]

theorem suffix_typeAssert {t : TypeExpr}
    (ht : TypeInParens parse t) :
    (suffix parse y).Rereads h
      (.kind .dot :: .kind .lParen :: (Render.parens (Render.typeExpr t) ++ [.kind .rParen])) F
      (Rereads.GoesOn (SameExpr ⟨i, sp, .typeAssert x (some t) sp'⟩)) := by
  refine .bind_kind_at (.again (.bind_expect fun _ => ?_))
  refine .ifNotAt (fun _ => leads_ne (k := .lParen) (by decide)) ?_
  refine .ifAt (fun _ hu => hu.2) (.bind_advance fun _ _ => ?_)
  refine .ifNotAt (fun _ => leads_ne (k := .lParen) (by decide)) ?_
  refine .bind_map (.unrestricted (ht false)) (fun _ _ => trivial) fun u hu => ?_
  refine .bind_expect fun _ => .newExpr ?_
  rw [Bare.exprForm, Bare.exprForm, Bare.optionalType, Bare.optionalType, hy, hu]

theorem indexOrSlice_index (hz : ExprInParens parse false z) :
    (indexOrSlice parse y).Rereads h
      (.kind .lBrack :: (Render.parens (Render.expr z) ++ [.kind .rBrack])) F
      (SameExpr ⟨i, sp, .index x sp' z sp''⟩) := by
  refine .unrestricted (.bind_expect fun _ => ?_)
  refine .ifNotAt (fun _ => leads_ne (k := .lParen) (by decide)) ?_
  refine .bind_map hz (fun _ hu => .of_kind hu.2 rfl) fun w hw => ?_
  refine .bind_isAt_false (fun _ => leads_ne (k := .rBrack) (by decide)) ?_
  refine .bind_expect fun _ => .newExpr ?_
  rw [Bare.exprForm, Bare.exprForm, hy, hw]

omit hy in
/-- Where there are three bounds, the last two are present. -/
theorem upperBounds_rereads {high top : Option Expr}
    (hhigh : ∀ z ∈ high, ExprInParens parse false z) (htop : ∀ z ∈ top, ExprInParens parse false z)
    (hfull : high = none → top = none) :
    (upperBounds parse).Rereads false (Render.bound high ++ Render.lastBound top) (·.kind = .rBrack)
      fun bounds => Bare.optionalExpr bounds.1 = Bare.optionalExpr high ∧
        Bare.optionalExpr bounds.2 = Bare.optionalExpr top := by
  cases high with
  | none =>
    rw [hfull rfl]
    exact .ifAt (fun _ ht => ht) (.pure ⟨rfl, rfl⟩)
  | some b =>
    refine .ifNotAt (fun _ => leads_ne (k := .lParen) (by decide)) ?_
    cases top with
    | none =>
      refine .bind (hhigh b rfl) (fun _ ht => .of_kind ht rfl) fun b' hb => ?_
      refine .bind_eat_none (fun t ht => ?_) (.pure ⟨congrArg some hb, rfl⟩)
      rw [show t.kind = .rBrack from ht]
      decide
    | some c =>
      refine .bind (hhigh b rfl) (fun _ ht => .of_kind ht.2 rfl) fun b' hb => .bind_eat fun _ => ?_
      refine .bind_last ((htop c rfl).before fun _ ht => .of_kind ht rfl) fun c' hc => ?_
      exact .pure ⟨congrArg some hb, congrArg some hc⟩

theorem indexOrSlice_slice {low high top : Option Expr}
    (hlow : ∀ z ∈ low, ExprInParens parse false z) (hhigh : ∀ z ∈ high, ExprInParens parse false z)
    (htop : ∀ z ∈ top, ExprInParens parse false z) (hfull : high = none → top = none) :
    (indexOrSlice parse y).Rereads h
      (.kind .lBrack :: (Render.bound low ++ .kind .colon ::
        (Render.bound high ++ (Render.lastBound top ++ [.kind .rBrack])))) F
      (SameExpr ⟨i, sp, .slice x sp' low high top sp''⟩) := by
  have hupper := upperBounds_rereads hhigh htop hfull
  rw [← List.append_assoc (Render.bound high)]
  refine .unrestricted (.bind_expect fun l => ?_)
  cases low with
  | none =>
    refine .ifAt (fun _ ht => ht.2) (.bind_pure (.bind_isAt_true (fun _ ht => ht.2) ?_))
    refine .bind_expect fun _ => .bind hupper (fun _ ht => ht.2) fun bounds ⟨hhigh, htop⟩ => ?_
    refine .bind_expect fun _ => .newExpr ?_
    rw [Bare.exprForm, Bare.exprForm, hy, hhigh, htop]
  | some a =>
    refine .ifNotAt (fun _ => leads_ne (k := .lParen) (by decide)) ?_
    refine .bind_map (hlow a rfl) (fun _ ht => .of_kind ht.2 rfl) fun a' ha => ?_
    refine .bind_isAt_true (fun _ ht => ht.2) ?_
    refine .bind_expect fun _ => .bind hupper (fun _ ht => ht.2) fun bounds ⟨hhigh, htop⟩ => ?_
    refine .bind_expect fun _ => .newExpr ?_
    rw [Bare.exprForm, Bare.exprForm, Bare.optionalExpr, Bare.optionalExpr, hy, ha, hhigh, htop]

omit hy

/-- The last argument, with the dots after it. -/
theorem nextArgument_last {z : Expr} {acc ws : List Expr} {dots : Option Span}
    (hz : ExprInParens parse false z) (hacc : acc.reverse.map Bare.expr = ws.map Bare.expr) :
    (nextArgument parse (acc, none)).Rereads false
      (Render.parens (Render.expr z) ++ Render.dots dots) (·.kind = .rParen)
      (Rereads.Stops fun st => st.1.reverse.map Bare.expr = (ws ++ [z]).map Bare.expr ∧
        Bare.mark st.2 = Bare.mark dots) := by
  refine .ifNotAt (fun _ => leads_ne (k := .lParen) (by decide)) ?_
  cases dots with
  | none =>
    refine .bind hz (fun _ ht => .of_kind ht rfl) fun z' hz' => ?_
    refine .bind_eat_none (fun t ht => ?_) (.bind_eat_none (fun t ht => ?_) ?_)
    · rw [show t.kind = .rParen from ht]
      decide
    · rw [show t.kind = .rParen from ht]
      decide
    · exact .pure ⟨_, rfl, map_reverse_cons hacc hz', rfl⟩
  | some d =>
    refine .bind hz (fun _ ht => .of_kind ht.2 rfl) fun z' hz' => .bind_eat fun _ => ?_
    refine .bind_eat_none (fun t ht => ?_) (.pure ⟨_, rfl, map_reverse_cons hacc hz', rfl⟩)
    rw [show t.kind = .rParen from ht]
    decide

/-- An argument with a comma after it. -/
theorem nextArgument_comma {z : Expr} {acc ws : List Expr} (hz : ExprInParens parse false z)
    (hacc : acc.reverse.map Bare.expr = ws.map Bare.expr) :
    (nextArgument parse (acc, none)).Rereads false
      (Render.parens (Render.expr z) ++ [.kind .comma]) (fun _ => True)
      (Rereads.GoesOn fun st => st.1.reverse.map Bare.expr = (ws ++ [z]).map Bare.expr ∧
        st.2 = none) := by
  refine .ifNotAt (fun _ => leads_ne (k := .lParen) (by decide)) ?_
  refine .bind hz (fun _ ht => .of_kind ht.2 rfl) fun z' hz' => ?_
  refine .bind_eat_none (fun _ => leads_ne (k := .comma) (by decide)) ?_
  exact .bind_eat fun _ => .pure ⟨_, rfl, map_reverse_cons hacc hz', rfl⟩

/-- Dots come after an argument, so they are left out if there is none. -/
theorem arguments_rereads {args : List Expr} {dots : Option Span}
    (hargs : ∀ z ∈ args, ExprInParens parse false z) (hdots : args = [] → dots = none) :
    (repeating (nextArgument parse) ([], none)).Rereads false
      (Render.commas (args.map fun z => Render.parens (Render.expr z)) ++ Render.dots dots)
      (·.kind = .rParen)
      fun st => st.1.reverse.map Bare.expr = args.map Bare.expr ∧
        Bare.mark st.2 = Bare.mark dots := by
  refine .repeating_of
    (r := fun zs => Render.commas (zs.map fun z => Render.parens (Render.expr z)) ++
      Render.dots dots)
    (J := fun zs st => ∃ ws, args = ws ++ zs ∧ st.1.reverse.map Bare.expr = ws.map Bare.expr ∧
      st.2 = none ∧ (zs = [] → args = [])) (fun zs st hst => ?_) ⟨[], rfl, rfl, rfl, id⟩
  obtain ⟨acc, dots'⟩ := st
  obtain ⟨ws, rfl, hacc, rfl, hnil⟩ := hst
  rcases zs with _ | ⟨z, _ | ⟨w, zs⟩⟩
  · rw [hdots (hnil rfl), List.append_nil]
    exact .inl (.ifAt (fun _ ht => ht) (.pure ⟨_, rfl, hacc, rfl⟩))
  · rw [List.map_singleton, Render.commas_singleton]
    exact .inl (nextArgument_last (hargs z (by simp)) hacc)
  · refine .inr ⟨w :: zs, Render.parens (Render.expr z) ++ [.kind .comma], fun _ => True, ?_,
      by simp, fun _ _ => trivial, ?_⟩
    · simp only [List.map_cons, Render.commas_cons_cons, List.append_assoc, List.cons_append,
        List.nil_append]
    · refine (nextArgument_comma (hargs z (by simp)) hacc).imp (fun _ _ => trivial) ?_
      rintro _ ⟨st, rfl, hst, hnone⟩
      exact ⟨st, rfl, ws ++ [z], by simp, hst, hnone, nofun⟩

include hy

theorem call_rereads {args : List Expr} {dots : Option Span}
    (hargs : ∀ z ∈ args, ExprInParens parse false z) (hdots : args = [] → dots = none) :
    (call parse y).Rereads h
      (.kind .lParen :: (Render.commas (Render.exprList args) ++ (Render.dots dots ++
        [.kind .rParen]))) F (SameExpr ⟨i, sp, .call x sp' args dots sp''⟩) := by
  rw [Render.exprList_eq, ← List.append_assoc]
  refine .unrestricted (.bind_expect fun l => ?_)
  refine .bind (arguments_rereads hargs hdots) (fun _ ht => ht.2)
    fun ⟨args', dots'⟩ ⟨hargs', hdots'⟩ => .bind_expect fun r => .bind_recording (.newExpr ?_)
  rw [Bare.exprForm, Bare.exprForm, Bare.exprList_eq, Bare.exprList_eq, hy, hargs', hdots']

-- =================================================== composite literals

/-- An operand that has come back names the same type. -/
theorem toType_rereads {t : TypeExpr} (hn : NamesType x t) :
    (toType y).Rereads h [] F (SameType t) := by
  have hform := exprForm_of_bare hy
  obtain ⟨j, sp, form⟩ := y
  cases hn with
  | type =>
    obtain ⟨u, rfl, hu⟩ := Bare.type_of_eq hform
    exact .pure hu
  | plain =>
    obtain ⟨m, rfl, hm⟩ := Bare.ident_of_eq hform
    exact .newType (by rw [Bare.typeForm, Bare.typeForm, hm])
  | qualified =>
    obtain ⟨⟨k, sp', form⟩, m, rfl, hz, hm⟩ := Bare.selector_of_eq hform
    obtain ⟨pkg, rfl, hpkg⟩ := Bare.ident_of_eq (exprForm_of_bare hz)
    refine .newType ?_
    rw [Bare.typeForm, Bare.typeForm, hm, Option.map_some, Option.map_some, hpkg]

theorem suffix_composite {t : TypeExpr} {es : List Element} (hn : NamesType x t)
    (hopens : opensComposite h x = true)
    (hlit : ∀ u start, SameType t u → (parse (.compositeLit (some u) start)).Rereads h
      (Render.braces (Render.ended .comma (Render.elementList es))) F
      (SameExpr ⟨i, sp, .composite (some t) es sp' sp''⟩)) :
    (suffix parse y).Rereads h (Render.braces (Render.ended .comma (Render.elementList es))) F
      (Rereads.GoesOn (SameExpr ⟨i, sp, .composite (some t) es sp' sp''⟩)) := by
  refine .bind_kind_at (.bind_inHeader ?_)
  rw [if_pos (by rw [opensComposite_of_bare hy, hopens])]
  exact .bind_taking_none (toType_rereads hy hn) fun u hu => .again (hlit u _ hu)

omit hy

/-- A type that no operator and no name begins. -/
theorem operand_type {u : TypeExpr} (hu : TypeRereads parse u) (hform : u.form.isHeaded = true) :
    (operand parse).Rereads false (Render.typeExpr u) TypeEnds (SameExpr ⟨i, sp, .type u⟩) := by
  have hread : (parse .type >>= fun v => newExpr (.type v) v.span).Rereads false
      (Render.typeExpr u) TypeEnds (SameExpr ⟨i, sp, .type u⟩) := by
    refine .bind_last hu fun v hv => .newExpr ?_
    rw [Bare.exprForm, Bare.exprForm, hv]
  obtain ⟨j, sp', form⟩ := u
  cases form with
  | chan dir t => cases dir <;> first | exact .bind_kind_at hread | exact nomatch hform
  | array | slice | map | struct | interface => exact .bind_kind_at hread
  | _ => exact nomatch hform

theorem leads_headed {u : TypeExpr} (hform : u.form.isHeaded = true) {t : Token}
    (ht : Leads (Render.typeExpr u ++ ss) G t) : UnaryOp.ofKind t.kind = none := by
  obtain ⟨j, sp', form⟩ := u
  cases form with
  | chan dir elem =>
    cases dir with
    | receive => exact nomatch hform
    | _ =>
      rw [show t.kind = .kwChan from ht.2]
      rfl
  | array | slice =>
    rw [show t.kind = .lBrack from ht.2]
    rfl
  | map =>
    rw [show t.kind = .kwMap from ht.2]
    rfl
  | struct =>
    rw [show t.kind = .kwStruct from ht.2]
    rfl
  | interface =>
    rw [show t.kind = .kwInterface from ht.2]
    rfl
  | _ => exact nomatch hform

theorem elementPart_expr (hx : ExprInParens parse false x)
    (hform : Render.isElided x.form = false) : PartRereads parse x := by
  have hpart : Render.part x = Render.parens (Render.expr x) := by
    obtain ⟨i, sp, form⟩ := x
    rw [Render.part, if_neg (by rw [hform]; exact Bool.false_ne_true)]
    rfl
  rw [PartRereads, hpart]
  refine .ifNotAt (fun _ => leads_ne (k := .lParen) (by decide)) (hx.before fun t ht => ?_)
  obtain ht | ht := ht
  · exact .of_kind ht rfl
  · exact .of_kind ht rfl

theorem elementPart_elided {es : List Element}
    (hlit : ∀ start, (parse (.compositeLit none start)).Rereads false
      (Render.braces (Render.ended .comma (Render.elementList es))) (fun _ => True)
      (SameExpr ⟨i, sp, .composite none es sp' sp''⟩)) :
    PartRereads parse ⟨i, sp, .composite none es sp' sp''⟩ :=
  .ifAt (fun _ ht => ht.2) (.bind_here fun start => (hlit start).before fun _ _ => trivial)

theorem element_value (hx : PartRereads parse x) : ElementRereads parse ⟨none, x⟩ := by
  refine .bind_last (hx.before fun _ ht => .inl ht) fun y hy => ?_
  refine .bind_eat_none (fun t ht => ?_) (.pure ?_)
  · rw [show t.kind = .comma from ht]
    decide
  · rw [Bare.element, Bare.element, hy]

theorem element_keyed (hx : PartRereads parse x) (hy : PartRereads parse y) :
    ElementRereads parse ⟨some x, y⟩ := by
  refine .bind hx (fun _ ht => .inr ht.2) fun x' hx' => .bind_eat fun _ => ?_
  refine .bind_last (hy.before fun _ ht => .inl ht) fun y' hy' => .pure ?_
  rw [Bare.element, Bare.element, Bare.optionalExpr, Bare.optionalExpr, hx', hy']

theorem leads_part {t : Token} (ht : Leads (Render.part x ++ ss) G t) :
    t.kind = .lBrace ∨ t.kind = .lParen := by
  obtain ⟨j, sp, form⟩ := x
  rw [Render.part] at ht
  split at ht
  · next hform =>
    cases form with
    | composite t es l r =>
      cases t with
      | none => exact .inl ht.2
      | some t => exact absurd hform Bool.false_ne_true
    | _ => exact absurd hform Bool.false_ne_true
  · exact .inr ht.2

theorem leads_element {e : Element} {t : Token} (ht : Leads (Render.element e) G t) :
    t.kind ≠ .rBrace := by
  have hk : t.kind = .lBrace ∨ t.kind = .lParen := by
    obtain ⟨_ | key, value⟩ := e
    · rw [Render.element, ← List.append_nil (Render.part value)] at ht
      exact leads_part ht
    · exact leads_part ht
  exact kind_ne_of_or hk (by decide) (by decide)

theorem compositeLit_rereads {t u : Option TypeExpr} {es : List Element} {start : Location}
    (hu : Bare.optionalType u = Bare.optionalType t) (hes : ∀ e ∈ es, ElementRereads parse e) :
    (compositeLit parse u start).Rereads h
      (Render.braces (Render.ended .comma (Render.elementList es))) F
      (SameExpr ⟨i, sp, .composite t es sp' sp''⟩) := by
  rw [Render.elementList_eq]
  refine .unrestricted (.bind_expect fun l => ?_)
  refine .bind (items_rereads hes (fun _ _ _ => leads_element) fun _ ht => ht) (fun _ ht => ht.2)
    fun es' hes' => .bind_expect fun r => .bind_recording (.newExpr ?_)
  rw [Bare.exprForm, Bare.exprForm, Bare.elementList_eq, Bare.elementList_eq, hu, hes']

end Grammar

-- ================================================================ forms

namespace Always

variable {i : Nat} {sp sp' sp'' : Span}

theorem operandIdent {F : Token → Prop} {n : Ident} (i : Nat) (sp : Span) : Always fun parse =>
    (parse .operand).Rereads h [.name n.name] F (SameExpr ⟨i, sp, .ident n⟩) := by
  have hop : Always fun parse => (Grammar.operand parse).Rereads h [.name n.name] F
      (SameExpr ⟨i, sp, .ident n⟩) := .of_forall fun _ => Grammar.operand_ident
  exact hop.deeper fun _ hop => .production hop

theorem operandType (i : Nat) (sp : Span) {u : TypeExpr} (hu : Always (TypeRereads · u))
    (hform : u.form.isHeaded = true) :
    Always fun parse => (parse .operand).Rereads false (Render.typeExpr u) TypeEnds
      (SameExpr ⟨i, sp, .type u⟩) :=
  hu.deeper fun _ hu => .production (Grammar.operand_type hu hform)

/-- A name without parentheses. -/
theorem bareIdent {F : Token → Prop} {n : Ident} (hF : ∀ t, F t → t.kind.endsExpr = true) :
    Always fun parse =>
      (parse .expression).Rereads h [.name n.name] F (SameExpr ⟨i, sp, .ident n⟩) := by
  refine (operandIdent i sp).ofOperand (fun t ht => ?_) hF
  rw [ht.2.1]
  rfl

theorem ident {n : Ident} : Always (ExprRereads · ⟨i, sp, .ident n⟩) :=
  bareIdent fun _ => Closes.endsExpr

theorem literal {lit : Lit} : Always (ExprRereads · ⟨i, sp, .literal lit⟩) := by
  have hop : Always fun parse => (Grammar.operand parse).Rereads false [.literal lit.form] Closes
      (SameExpr ⟨i, sp, .literal lit⟩) := .of_forall fun _ => Grammar.operand_literal
  refine (hop.deeper fun _ hop => .production hop).ofOperand (fun t ht => ?_)
    fun _ => Closes.endsExpr
  have hkind := Rereads.isKind_of_decode ht.2
  cases hk : t.kind <;> rw [hk] at hkind <;> first | rfl | exact nomatch hkind

theorem unary {op : UnaryOp} (hx : Always (ExprRereads · x)) :
    Always (ExprRereads · ⟨i, sp, .unary op sp' x⟩) := by
  have hunary : Always fun parse => (parse .unaryExpr).Rereads false
      (.kind op.kind :: Render.parens (Render.expr x)) Closes (SameExpr ⟨i, sp, .unary op sp' x⟩) :=
    (hx.unaryParens false).deeper fun _ hx => .production
      (Grammar.unaryExpr_unary (fun _ => leads_ne (k := .lParen) (by decide))
        (hx.before fun _ ht => ht.detached))
  exact hunary.expression fun _ ht => binary_none ht.endsExpr

theorem binary {op : BinaryOp} (hx : Always (ExprRereads · x)) (hy : Always (ExprRereads · y)) :
    Always (ExprRereads · ⟨i, sp, .binary op sp' x y⟩) :=
  ((hx.unaryParens false).and (hy.unaryParens false)).deeper fun _ ⟨hx, hy⟩ =>
    .production (Grammar.expression_binary (fun _ => Closes.endsExpr) hx hy)

/-- An expression that is an operand with something attached. -/
theorem ofPrimary (hz : Always fun parse =>
      (Grammar.primaryExpr parse).Rereads false (Render.expr z) Closes (SameExpr z))
    (hk : ∀ t, Leads (Render.expr z) Closes t → UnaryOp.ofKind t.kind = none) :
    Always (ExprRereads · z) := by
  have hprimary : Always fun parse =>
      (parse .primaryExpr).Rereads false (Render.expr z) Closes (SameExpr z) :=
    hz.deeper fun _ hz => .production hz
  exact (hprimary.unaryExpr hk).expression fun _ ht => binary_none ht.endsExpr

/-- The operand is in parentheses. -/
theorem ofSuffix {us : List Slot} (hz : Render.expr z = Render.parens (Render.expr x) ++ us)
    (hne : us ≠ []) (hx : Always (ExprRereads · x))
    (hsuffix : Always fun parse => ∀ y, SameExpr x y →
      (Grammar.suffix parse y).Rereads false us Closes (Rereads.GoesOn (SameExpr z))) :
    Always (ExprRereads · z) := by
  refine ofPrimary (((hx.operandParens false fun _ => True).and hsuffix).imp fun _ h => ?_) ?_
  · obtain ⟨hx, hsuffix⟩ := h
    rw [hz]
    refine .bind hx (fun _ _ => trivial) fun y hy => ?_
    exact Grammar.suffixes_once (hsuffix y hy) hne (fun _ ht => ht)
      fun _ _ _ ht => ht.detached
  · intro t ht
    rw [hz] at ht
    rw [show t.kind = .lParen from ht.2]
    rfl

theorem selector {n : Ident} (hx : Always (ExprRereads · x)) :
    Always (ExprRereads · ⟨i, sp, .selector x n⟩) :=
  .ofSuffix rfl (by simp) hx (.of_forall fun _ _ hy => Grammar.suffix_selector hy)

theorem typeAssert {t : TypeExpr} (hx : Always (ExprRereads · x))
    (ht : Always (TypeInParens · t)) : Always (ExprRereads · ⟨i, sp, .typeAssert x (some t) sp'⟩) :=
  .ofSuffix rfl (by simp) hx (ht.imp fun _ ht _ hy => Grammar.suffix_typeAssert hy ht)

/-- The same where a production of its own reads what is attached. -/
theorem ofProduction {p : Expr → Production Expr} {us : List Slot}
    (hz : Render.expr z = Render.parens (Render.expr x) ++ us) (hne : us ≠ [])
    (hx : Always (ExprRereads · x))
    (hsuffix : ∀ (parse : SubParser) y, (parse (p y)).Rereads false us Closes (SameExpr z) →
      (Grammar.suffix parse y).Rereads false us Closes (Rereads.GoesOn (SameExpr z)))
    (hbody : Always fun parse => ∀ y, SameExpr x y →
      ((p y).body parse).Rereads false us Closes (SameExpr z)) : Always (ExprRereads · z) := by
  have hparse : Always fun parse => ∀ y, SameExpr x y →
      (parse (p y)).Rereads false us Closes (SameExpr z) :=
    hbody.deeper fun _ hbody y hy => .production (hbody y hy)
  exact .ofSuffix hz hne hx (hparse.imp fun parse hparse y hy => hsuffix parse y (hparse y hy))

theorem index (hx : Always (ExprRereads · x)) (hz : Always (ExprRereads · z)) :
    Always (ExprRereads · ⟨i, sp, .index x sp' z sp''⟩) :=
  .ofProduction (p := .indexOrSlice) rfl (by simp) hx (fun _ _ hy => .bind_kind_at (.again hy))
    ((hz.inParens false).imp fun _ hz _ hy => Grammar.indexOrSlice_index hy hz)

/-- Expressions that may be missing. -/
theorem bounds {o : Option Expr} (ho : ∀ z ∈ o, Always (ExprRereads · z)) (h : Bool) :
    Always fun parse => ∀ z ∈ o, ExprInParens parse h z :=
  .option fun z hz => (ho z hz).inParens h

theorem slice {low high top : Option Expr} (hx : Always (ExprRereads · x))
    (hlow : ∀ z ∈ low, Always (ExprRereads · z)) (hhigh : ∀ z ∈ high, Always (ExprRereads · z))
    (htop : ∀ z ∈ top, Always (ExprRereads · z)) (hfull : high = none → top = none) :
    Always (ExprRereads · ⟨i, sp, .slice x sp' low high top sp''⟩) :=
  .ofProduction (p := .indexOrSlice) rfl (by simp) hx (fun _ _ hy => .bind_kind_at (.again hy))
    (((bounds hlow false).and ((bounds hhigh false).and (bounds htop false))).imp
      fun _ ⟨hlow, hhigh, htop⟩ _ hy => Grammar.indexOrSlice_slice hy hlow hhigh htop hfull)

theorem inParensAll {xs : List Expr} (hxs : ∀ x ∈ xs, Always (ExprRereads · x)) (h : Bool) :
    Always fun parse => ∀ x ∈ xs, ExprInParens parse h x :=
  .all fun x hx => (hxs x hx).inParens h

theorem call {args : List Expr} {dots : Option Span} (hx : Always (ExprRereads · x))
    (hargs : ∀ z ∈ args, Always (ExprRereads · z)) (hdots : args = [] → dots = none) :
    Always (ExprRereads · ⟨i, sp, .call x sp' args dots sp''⟩) :=
  .ofProduction (p := .call) rfl (by simp) hx (fun _ _ hy => .bind_kind_at (.again hy))
    ((inParensAll hargs false).imp fun _ hargs _ hy => Grammar.call_rereads hy hargs hdots)

-- =================================================== composite literals

theorem compositeLit {es : List Element} (hes : ∀ e ∈ es, Always (ElementRereads · e))
    (t : Option TypeExpr) : Always fun parse => ∀ u start,
      Bare.optionalType u = Bare.optionalType t → (parse (.compositeLit u start)).Rereads false
        (Render.braces (Render.ended .comma (Render.elementList es))) (fun _ => True)
        (SameExpr ⟨i, sp, .composite t es sp' sp''⟩) :=
  (all hes).deeper fun _ hes _ _ hu => .production (Grammar.compositeLit_rereads hu hes)

theorem elidedPart {es : List Element} (hes : ∀ e ∈ es, Always (ElementRereads · e)) :
    Always (PartRereads · ⟨i, sp, .composite none es sp' sp''⟩) :=
  (compositeLit hes none).imp fun _ hlit => Grammar.elementPart_elided fun start =>
    hlit none start rfl

theorem exprPart (hx : Always (ExprRereads · x)) (hform : Render.isElided x.form = false) :
    Always (PartRereads · x) :=
  (hx.inParens false).imp fun _ hx => Grammar.elementPart_expr hx hform

theorem element {key : Option Expr} {value : Expr} (hkey : ∀ z ∈ key, Always (PartRereads · z))
    (hvalue : Always (PartRereads · value)) : Always (ElementRereads · ⟨key, value⟩) := by
  cases key with
  | none => exact hvalue.imp fun _ => Grammar.element_value
  | some key => exact ((hkey key rfl).and hvalue).imp fun _ h => Grammar.element_keyed h.1 h.2

/-- The type stands as an operand in front of the braces, or a name does
that is qualified by another. -/
theorem composite {t : TypeExpr} {es : List Element} (hn : NamesType x t)
    (hopens : Grammar.opensComposite false x = true)
    (htype : ∀ u, x.form = .type u → Always (TypeRereads · u))
    (hes : ∀ e ∈ es, Always (ElementRereads · e)) :
    Always (ExprRereads · ⟨i, sp, .composite (some t) es sp' sp''⟩) := by
  have hsuffix : Always fun parse => ∀ y, SameExpr x y → (Grammar.suffix parse y).Rereads false
      (Render.braces (Render.ended .comma (Render.elementList es))) Closes
      (Rereads.GoesOn (SameExpr ⟨i, sp, .composite (some t) es sp' sp''⟩)) :=
    (compositeLit hes (some t)).imp fun _ hlit y hy =>
      Grammar.suffix_composite hy hn hopens fun u start hu =>
        (hlit (some u) start (congrArg some hu)).before fun _ _ => trivial
  cases hn with
  | @type j sp₁ =>
    have hheaded : t.form.isHeaded = true := by
      obtain ⟨j, sp, form⟩ := t
      cases form <;> first | rfl | exact nomatch hopens
    refine ofPrimary ?_ fun u hu => Grammar.leads_headed hheaded hu
    have hop := operandType j sp₁ (htype t rfl) hheaded
    refine (hop.and hsuffix).imp fun _ ⟨hop, hsuffix⟩ => ?_
    refine .bind hop (fun u hu => .of_kind hu.2 (by decide) rfl) fun y hy => ?_
    exact Grammar.suffixes_once (hsuffix y hy) (List.cons_ne_nil _ _) (fun _ ht => ht)
      fun _ _ _ ht => ht.detached
  | @plain j sp₁ n =>
    refine ofPrimary ?_ fun u hu => by rw [hu.2.1]; rfl
    have hop := operandIdent (h := false) (F := fun _ => True) (n := n) j sp₁
    refine (hop.and hsuffix).imp fun _ ⟨hop, hsuffix⟩ => ?_
    refine .bind hop (fun _ _ => trivial) fun y hy => ?_
    exact Grammar.suffixes_once (hsuffix y hy) (List.cons_ne_nil _ _) (fun _ ht => ht)
      fun _ _ _ ht => ht.detached
  | @qualified k sp₂ j sp₁ pkg n =>
    refine ofPrimary ?_ fun u hu => by rw [hu.2.1]; rfl
    have hop := operandIdent (h := false) (F := fun _ => True) (n := pkg) j sp₁
    refine (hop.and hsuffix).imp fun parse ⟨hop, hsuffix⟩ => ?_
    show (Grammar.primaryExpr parse).Rereads false ([.name pkg.name] ++
      ([.kind .dot, .name n.name] ++ Render.braces (Render.ended .comma (Render.elementList es))))
      Closes _
    refine .bind hop (fun _ _ => trivial) fun y hy => .repeating ?_
    refine .again (G := fun _ => True) (I := SameExpr ⟨k, sp₂, .selector ⟨j, sp₁, .ident pkg⟩ n⟩)
      (Grammar.suffix_selector hy) (List.cons_ne_nil _ _) (fun _ _ => trivial) fun z hz => ?_
    rw [← List.append_nil (Render.braces _)]
    exact .again (hsuffix z hz) (List.cons_ne_nil _ _) (fun _ ht => ht) fun w hw =>
      .stop (Grammar.suffix_stops (fun _ ht => ht.detached) hw)

end Always

end GoSource
