/-
How much of its tokens the span of an expression covers.

A span is joined from the spans of the operands, and parentheses leave no
node: the span of `(a)+b` starts at the name inside them. What is left out
at either end are parentheses around an operand and nothing else
(`parseSource_covered`). So an expression that starts with no parenthesis,
and ends in a bracket of its own, is covered whole; and where something is
left out, it shows, for the brackets that are covered do not match then.

# Heights

That the brackets do not match is seen from the parentheses alone. Within
tokens that are balanced, as many of them have been closed as opened, at
most, wherever one stops (`Balanced.height_prefix`).
-/
import Mathlib.Data.List.Infix
import GoSource.Proofs.Contents.Site

namespace GoSource

-- ============================================================== heights

/-- What a token adds to the number of open parentheses. -/
def Token.Kind.rise : Token.Kind → Int
  | lParen => 1
  | rParen => -1
  | _ => 0

/-- How many more parentheses are opened than closed. -/
def parenHeight : List Token → Int
  | [] => 0
  | t :: ts => t.kind.rise + parenHeight ts

section

variable {ts us vs : List Token} {t : Token}

@[simp] theorem parenHeight_nil : parenHeight [] = 0 := rfl

@[simp] theorem parenHeight_cons : parenHeight (t :: ts) = t.kind.rise + parenHeight ts := rfl

@[simp] theorem parenHeight_append :
    parenHeight (ts ++ us) = parenHeight ts + parenHeight us := by
  induction ts with
  | nil => simp
  | cons t ts ih => simp [ih, Int.add_assoc]

theorem parenHeight_opening (h : ∀ t ∈ ts, t.kind = .lParen) : parenHeight ts = ts.length := by
  induction ts with
  | nil => rfl
  | cons t ts ih =>
    rw [parenHeight_cons, h t (by simp), ih fun u hu => h u (by simp [hu]), List.length_cons]
    simp only [Token.Kind.rise]
    omega

theorem parenHeight_closing (h : ∀ t ∈ ts, t.kind = .rParen) : parenHeight ts = -ts.length := by
  induction ts with
  | nil => rfl
  | cons t ts ih =>
    rw [parenHeight_cons, h t (by simp), ih fun u hu => h u (by simp [hu]), List.length_cons]
    simp only [Token.Kind.rise]
    omega

theorem Token.Kind.rise_of_plain {k : Token.Kind} (h : k.isBracket = false) : k.rise = 0 := by
  cases k <;> first | rfl | cases h

theorem Token.Kind.Matches.rise {l r : Token.Kind} (h : l.Matches r) :
    0 ≤ l.rise ∧ l.rise + r.rise = 0 := by
  cases h <;> decide

theorem Balanced.height (h : Balanced ts) : parenHeight ts = 0 := by
  induction h with
  | nil => rfl
  | token ht => simp [Token.Kind.rise_of_plain ht]
  | append _ _ ih ih' => simp [ih, ih']
  | brackets hlr _ ih =>
    have hrise := hlr.rise
    simp only [parenHeight_cons, parenHeight_append, parenHeight_nil, ih]
    omega

/-- Balanced tokens never close more than they have opened. -/
theorem Balanced.height_prefix (h : Balanced ts) (hts : ts = us ++ vs) : 0 ≤ parenHeight us := by
  induction h generalizing us vs with
  | nil => simp [(List.append_eq_nil_iff.mp hts.symm).1]
  | @token t ht =>
    obtain ⟨rfl, -⟩ | ⟨rfl, -⟩ := List.singleton_eq_append_iff.mp hts
    · simp
    · simp [Token.Kind.rise_of_plain ht]
  | append hts' _ ih ih' =>
    obtain ⟨as, rfl, has⟩ | ⟨as, has, -⟩ := List.append_eq_append_iff.mp hts
    · simp only [parenHeight_append, hts'.height]
      have := ih' has
      omega
    · exact ih has
  | @brackets l r ts hlr hts' ih =>
    cases us with
    | nil => simp
    | cons u us =>
      obtain ⟨rfl, hus⟩ := List.cons_eq_cons.mp hts
      have hrise := hlr.rise
      rw [parenHeight_cons]
      obtain ⟨as, rfl, has⟩ | ⟨as, has, -⟩ := List.append_eq_append_iff.mp hus
      · obtain ⟨rfl, -⟩ | ⟨rfl, -⟩ := List.singleton_eq_append_iff.mp has
        · simp only [parenHeight_append, parenHeight_nil, hts'.height]
          omega
        · simp only [parenHeight_append, parenHeight_cons, parenHeight_nil, hts'.height]
          omega
      · have := ih has
        omega

end

-- ================================================================ spans

/-- The span is that of the tokens `core`, which are all of `ts` but for
parentheses that no node has kept: opening ones before them, closing ones
behind. -/
structure Covers (ls core rs ts : List Token) (sp : Span) : Prop where
  tokens : ts = ls ++ (core ++ rs)
  opening : ∀ l ∈ ls, l.kind = .lParen
  closing : ∀ r ∈ rs, r.kind = .rParen
  first : ∀ c ∈ core.head?, c.kind ≠ .lParen
  nonempty : core ≠ []
  span : sp = extent core

namespace Covers

variable {ls core rs ts ls' core' rs' us : List Token} {sp sp' : Span} {l o r t : Token}

/-- Nothing is left out. -/
theorem whole (ht : t.kind ≠ .lParen) : Covers [] (t :: ts) [] (t :: ts) (extent (t :: ts)) := by
  refine ⟨by simp, by simp, by simp, ?_, by simp, rfl⟩
  rintro c ⟨⟩
  exact ht

theorem parens (h : Covers ls core rs ts sp) (hl : l.kind = .lParen) (hr : r.kind = .rParen) :
    Covers (l :: ls) core (rs ++ [r]) (l :: (ts ++ [r])) sp := by
  refine ⟨by simp [h.tokens], ?_, ?_, h.first, h.nonempty, h.span⟩
  · simpa [hl] using h.opening
  · intro u hu
    obtain hu | rfl := by simpa using hu
    · exact h.closing u hu
    · exact hr

/-- More behind what was the end. -/
theorem extend (h : Covers ls core rs ts sp) (hus : us ≠ [])
    (hrs : ∀ r ∈ rs', r.kind = .rParen) :
    Covers ls (core ++ (rs ++ us)) rs' (ts ++ (us ++ rs')) (sp.through (extent us)) := by
  refine ⟨by simp [h.tokens], h.opening, hrs, ?_, by simp [h.nonempty], ?_⟩
  · rw [List.head?_append_of_ne_nil _ h.nonempty]
    exact h.first
  · rw [h.span, extent_append h.nonempty (by simp [hus])]
    simp [Span.through, extent, List.getLast?_append, List.getLast?_eq_some_getLast hus]

/-- A span joined with that of the last token. -/
theorem through_last (h : Covers ls core rs ts sp) (hr : us.getLast? = some r) :
    Covers ls (core ++ (rs ++ us)) [] (ts ++ us) (sp.through r.span) := by
  have hus : us ≠ [] := by
    rintro rfl
    exact nomatch hr
  have h : Covers ls (core ++ (rs ++ us)) [] (ts ++ (us ++ [])) (sp.through (extent us)) :=
    h.extend hus nofun
  simpa [Span.through, GoSource.extent, hr] using h

/-- Two spans joined. -/
theorem through (h : Covers ls core rs ts sp) (h' : Covers ls' core' rs' us sp') :
    Covers ls (core ++ (rs ++ (o :: ls' ++ core'))) rs' (ts ++ o :: us) (sp.through sp') := by
  have hmid : o :: ls' ++ core' ≠ [] := List.cons_ne_nil o (ls' ++ core')
  have h := h.extend hmid h'.closing
  rw [extent_append (by simp) h'.nonempty, ← h'.span] at h
  simpa [h'.tokens, Span.through] using h

/-- A span with a token before it. -/
theorem after (h : Covers ls core rs us sp) (ho : o.kind ≠ .lParen) :
    Covers [] (o :: (ls ++ core)) rs (o :: us) (o.span.through sp) := by
  refine ⟨by simp [h.tokens], by simp, h.closing, ?_, by simp, ?_⟩
  · rintro c ⟨⟩
    exact ho
  · rw [extent_cons (by simp [h.nonempty]), h.span]
    simp [Span.through, GoSource.extent, List.getLast?_append,
      List.getLast?_eq_some_getLast h.nonempty]

/-- Where nothing is left out in front, what is covered is balanced only if
it is everything. -/
theorem whole_of_unopened (h : Covers [] core rs ts sp) (hbalanced : Balanced ts)
    (hcore : Balanced core) : core = ts := by
  have hrs : rs = [] := by
    have hheight := hbalanced.height
    rw [h.tokens, List.nil_append, parenHeight_append, hcore.height,
      parenHeight_closing h.closing] at hheight
    rw [← List.length_eq_zero_iff]
    omega
  subst hrs
  simp [h.tokens]

/-- So it is where the parentheses in front belong to an operand. -/
theorem whole_of_balanced {xs rest : List Token} (h : Covers ls core rs ts sp)
    (hts : ts = xs ++ o :: rest) (hxs : Balanced xs) (hne : xs ≠ []) (ho : o.kind ≠ .rParen)
    (hbalanced : Balanced ts) (hcore : Balanced core) : core = ts := by
  have hls : ls = [] := by
    by_contra hls
    have hpos : 0 < parenHeight ls := by
      rw [parenHeight_opening h.opening]
      have := List.length_pos_iff.mpr hls
      omega
    have hsplit := h.tokens.symm.trans hts
    obtain ⟨as, rfl, has⟩ | ⟨as, rfl, -⟩ := List.append_eq_append_iff.mp hsplit
    · -- the operand ends within what is covered, and closes what is opened before it
      have hlow : parenHeight as < 0 := by
        have := hxs.height
        rw [parenHeight_append] at this
        omega
      obtain ⟨bs, rfl, hbs⟩ | ⟨bs, rfl, -⟩ := List.append_eq_append_iff.mp has
      · refine absurd (h.closing o ?_) ho
        rw [hbs]
        simp
      · have := hcore.height_prefix rfl
        omega
    · -- the operand is nothing but opening parentheses
      have := hxs.height
      rw [parenHeight_opening fun t ht => h.opening t (by simp [ht])] at this
      have := List.length_pos_iff.mpr hne
      omega
  subst hls
  exact h.whole_of_unopened hbalanced hcore

end Covers

-- ========================================================== productions

/-- Parentheses stand around all of the tokens. -/
def Enclosed (ts : List Token) : Prop :=
  ∃ l us r, ts = l :: (us ++ [r]) ∧ l.kind = .lParen ∧ Balanced us

/-- What starts with an operand is not enclosed, even if the operand is. -/
theorem not_enclosed_operand {xs rest : List Token} {o : Token} (hxs : Balanced xs)
    (hne : xs ≠ []) : ¬ Enclosed (xs ++ o :: rest) := by
  rintro ⟨l, us, r, hts, hl, hus⟩
  cases xs with
  | nil => exact hne rfl
  | cons x xs =>
    rw [List.cons_append, List.cons_eq_cons] at hts
    obtain ⟨rfl, hts⟩ := hts
    have hpre : ∃ as, us = xs ++ as := by
      obtain ⟨as, rfl, -⟩ | ⟨as, rfl, has⟩ := List.append_eq_append_iff.mp hts
      · exact ⟨as, rfl⟩
      · obtain ⟨rfl, -⟩ | ⟨-, hnil⟩ := List.singleton_eq_append_iff.mp has
        · exact ⟨[], by simp⟩
        · exact nomatch hnil
    obtain ⟨as, rfl⟩ := hpre
    have hhigh := hus.height_prefix rfl
    have hflat := hxs.height
    rw [parenHeight_cons, hl] at hflat
    simp only [Token.Kind.rise] at hflat
    omega

namespace ExprForm

/-- Expressions that are more than an operand. -/
def isCompound : ExprForm → Bool
  | ident _ | literal _ | type _ => false
  | _ => true

/-- Expressions that end in a token of their own. -/
def endsItself : ExprForm → Bool
  | index _ _ _ _ | slice _ _ _ _ _ _ | call _ _ _ _ _ | selector _ _ | typeAssert _ _ _
  | composite _ _ _ _ => true
  | _ => false

/-- Expressions that start with a token of their own. -/
def startsItself : ExprForm → Bool
  | unary _ _ _ | composite none _ _ _ => true
  | _ => false

end ExprForm

/-- The tokens that the production of an expression took: no parentheses
around all of them. -/
structure Expr.TakenFrom (ts : List Token) (x : Expr) : Prop where
  derives : (∃ m, Derives (.expr m) ts x) ∨ Derives .part ts x
  bare : ¬ Enclosed ts

/-- What the span of an expression covers of them. Where anything is left
out, what is covered is not balanced. -/
def Expr.Covered (ts : List Token) (x : Expr) : Prop :=
  ∃ ls core rs, Covers ls core rs ts x.span ∧ (Balanced core ↔ core = ts) ∧
    (x.form.startsItself = true → ls = []) ∧ (x.form.endsItself = true → rs = [])

theorem Derives.balanced {m : Mode} {ts : List Token} {x : Expr} (h : Derives (.expr m) ts x) :
    Balanced ts :=
  (h.lies rfl).1.balanced

/-- What an expression is made of, within the parentheses around it. -/
structure Expr.Produced (ts : List Token) (x : Expr) : Prop where
  taken : x.TakenFrom ts
  balanced : Balanced ts
  covered : x.Covered ts

/-- What the spans of expressions and types cover. -/
def Phrase.Frames : (p : Phrase) → List Token → p.Result → Prop
  | .name, ts, n => ∃ t, ts = [t] ∧ t.kind = .ident ∧ n.span = t.span
  | .literal, ts, lit => ∃ t, ts = [t] ∧ t.kind ≠ .lParen ∧ lit.span = t.span
  | .expr _, ts, x => (∃ ls core rs, Covers ls core rs ts x.span) ∧
    (∀ t, NamesType x t → t.span = x.span) ∧
    (x.form.isCompound = true → ∃ pre us post, ts = pre ++ (us ++ post) ∧ x.Produced us)
  | .typeName, ts, t | .type, ts, t => ∃ ls core rs, Covers ls core rs ts t.span
  | _, _, _ => True

namespace Expr.Produced

variable {m m' : Mode} {xs ts us rest ls core rs : List Token} {x y : Expr} {o r : Token}
  {form : ExprForm} {i : Nat}

theorem within (h : x.Produced ts) :
    ∃ pre us post, ts = pre ++ (us ++ post) ∧ x.Produced us :=
  ⟨[], ts, [], by simp, h⟩

theorem frames (h : x.Produced ts) (hx : ∀ t, NamesType x t → t.span = x.span) :
    (Phrase.expr m).Frames ts x := by
  obtain ⟨ls, core, rs, hcovers, -⟩ := h.covered
  exact ⟨⟨ls, core, rs, hcovers⟩, hx, fun _ => h.within⟩

theorem of_covers (htaken : x.TakenFrom ts) (hbalanced : Balanced ts)
    (hcovers : Covers ls core rs ts x.span) (hwhole : Balanced core → core = ts)
    (hstarts : x.form.startsItself = true → ls = [])
    (hends : x.form.endsItself = true → rs = []) : x.Produced ts := by
  refine ⟨htaken, hbalanced, ls, core, rs, hcovers, ⟨hwhole, fun hcore => ?_⟩, hstarts, hends⟩
  rw [hcore]
  exact hbalanced

/-- An operand with something behind it that ends in a token of its own. -/
theorem suffix (h : Derives (.expr m) (xs ++ o :: rest) ⟨i, x.span.through r.span, form⟩)
    (hx : Derives (.expr m') xs x) (ih : (Phrase.expr m').Frames xs x)
    (ho : o.kind ≠ .rParen) (hr : (o :: rest).getLast? = some r)
    (hform : form.startsItself = false) :
    Expr.Produced (xs ++ o :: rest) ⟨i, x.span.through r.span, form⟩ := by
  obtain ⟨⟨ls, core, rs, hcovers⟩, -⟩ := ih
  have hne := hx.ne_nil rfl
  have hcovers := hcovers.through_last hr
  refine .of_covers ⟨.inl ⟨m, h⟩, not_enclosed_operand hx.balanced hne⟩ h.balanced hcovers ?_ ?_
    fun _ => rfl
  · exact hcovers.whole_of_balanced rfl hx.balanced hne ho h.balanced
  · simp [hform]

/-- Something with a token of its own in front. -/
theorem leading (h : (∃ m, Derives (.expr m) (o :: us) x) ∨ Derives .part (o :: us) x)
    (hbalanced : Balanced (o :: us)) (ho : o.kind ≠ .lParen)
    (hcovers : Covers [] core rs (o :: us) x.span)
    (hends : x.form.endsItself = true → rs = []) : Expr.Produced (o :: us) x := by
  have hbare : ¬ Enclosed (o :: us) := by
    rintro ⟨l, vs, r, hts, hl, -⟩
    obtain ⟨rfl, -⟩ := List.cons_eq_cons.mp hts
    exact ho hl
  exact .of_covers ⟨h, hbare⟩ hbalanced hcovers (hcovers.whole_of_unopened hbalanced)
    (fun _ => rfl) hends

theorem selector {n : Ident} (hx : Derives (.expr m) xs x) (ho : o.kind = .dot)
    (hn : Derives .name us n) (ih : (Phrase.expr m).Frames xs x) (ih' : Phrase.name.Frames us n) :
    Expr.Produced (xs ++ o :: us) ⟨i, x.span.through n.span, .selector x n⟩ := by
  obtain ⟨t, rfl, -, hspan⟩ := ih'
  have h := hx.selector (i := i) ho hn
  rw [hspan] at h ⊢
  exact suffix h hx ih (by simp [ho]) rfl rfl

theorem composite {es : List Token} {elements : List Element} {t : TypeExpr} {l : Token}
    (hx : Derives (.expr m) xs x) (hopens : Grammar.opensComposite m.inHeader x = true)
    (ht : NamesType x t) (hl : l.kind = .lBrace)
    (hes : Derives (.listed .comma .element) es elements) (hr : r.kind = .rBrace)
    (ih : (Phrase.expr m).Frames xs x) :
    Expr.Produced (xs ++ l :: (es ++ [r]))
      ⟨i, ⟨t.span.start, r.span.stop⟩, .composite (some t) elements l.span r.span⟩ := by
  have h := hx.composite (i := i) hopens ht hl hes hr
  rw [ih.2.1 t ht] at h ⊢
  exact suffix h hx ih (by simp [hl]) (by simp [List.getLast?_cons]) rfl

theorem elided {es : List Token} {elements : List Element} {l : Token} (hl : l.kind = .lBrace)
    (hes : Derives (.listed .comma .element) es elements) (hr : r.kind = .rBrace) :
    Expr.Produced (l :: (es ++ [r]))
      ⟨i, ⟨l.span.start, r.span.stop⟩, .composite none elements l.span r.span⟩ := by
  have h := Derives.elided (i := i) hl hes hr
  have hlaid : Laid .inside .loose (l :: (es ++ [r])) _ := h.lies rfl
  have hopening : l.kind ≠ .lParen := by simp [hl]
  have hcovers : Covers [] (l :: (es ++ [r])) [] _ _ := .whole hopening
  rw [extent_bracketed] at hcovers
  exact leading (.inr h) hlaid.balanced hopening hcovers fun _ => rfl

theorem unary {op : UnaryOp} (ho : UnaryOp.ofKind o.kind = some op) (hx : Derives (.expr m) us x)
    (ih : (Phrase.expr m).Frames us x) :
    Expr.Produced (o :: us) ⟨i, o.span.through x.span, .unary op o.span x⟩ := by
  obtain ⟨⟨ls, core, rs, hcovers⟩, -⟩ := ih
  have h : Derives (.expr m) (o :: us) ⟨i, o.span.through x.span, .unary op o.span x⟩ :=
    .unary ho hx
  have hplain := Token.Kind.isBracket_of_isPlain (UnaryOp.isPlain_of_ofKind ho)
  have hopening : o.kind ≠ .lParen := fun hk => by simp [hk, Token.Kind.isBracket] at hplain
  exact leading (.inl ⟨m, h⟩) h.balanced hopening (hcovers.after hopening) nofun

theorem binary {op : BinaryOp} (hx : Derives (.expr m) xs x)
    (ho : BinaryOp.ofKind o.kind = some op) (hy : Derives (.expr m) us y)
    (ih : (Phrase.expr m).Frames xs x) (ih' : (Phrase.expr m).Frames us y) :
    Expr.Produced (xs ++ o :: us) ⟨i, x.span.through y.span, .binary op o.span x y⟩ := by
  obtain ⟨⟨ls, core, rs, hcovers⟩, -⟩ := ih
  obtain ⟨⟨ls', core', rs', hcovers'⟩, -⟩ := ih'
  have h : Derives (.expr m) (xs ++ o :: us) ⟨i, x.span.through y.span, .binary op o.span x y⟩ :=
    .binary hx ho hy
  have hne := hx.ne_nil rfl
  have hplain := Token.Kind.isBracket_of_isPlain (BinaryOp.isPlain_of_ofKind ho)
  have hclosing : o.kind ≠ .rParen := fun hk => by simp [hk, Token.Kind.isBracket] at hplain
  have hcovers := hcovers.through hcovers' (o := o)
  refine .of_covers ⟨.inl ⟨m, h⟩, not_enclosed_operand hx.balanced hne⟩ h.balanced hcovers ?_
    nofun nofun
  exact hcovers.whole_of_balanced rfl hx.balanced hne hclosing h.balanced

end Expr.Produced

theorem Derives.frames {p : Phrase} {ts : List Token} {a : p.Result} (h : Derives p ts a) :
    p.Frames ts a := by
  induction h with
  | name ht => exact ⟨_, rfl, ht, rfl⟩
  | literal hv =>
    refine ⟨_, rfl, fun ht => ?_, rfl⟩
    rw [ht] at hv
    exact nomatch hv
  | identExpr _ ih =>
    obtain ⟨t, rfl, ht, hspan⟩ := ih
    refine ⟨?_, ?_, nofun⟩
    · rw [hspan]
      exact ⟨_, _, _, .whole (by simp [ht])⟩
    · rintro _ ⟨⟩
      rfl
  | literalExpr _ ih =>
    obtain ⟨t, rfl, ht, hspan⟩ := ih
    refine ⟨?_, nofun, nofun⟩
    rw [hspan]
    exact ⟨_, _, _, .whole ht⟩
  | typeExpr _ _ ih =>
    refine ⟨ih, ?_, nofun⟩
    rintro t ⟨⟩
    rfl
  | @parenExpr ts x m l r hl _ hr ih =>
    obtain ⟨⟨ls, core, rs, hx⟩, htype, hproduced⟩ := ih
    refine ⟨⟨_, _, _, hx.parens hl hr⟩, htype, fun hform => ?_⟩
    obtain ⟨pre, us, post, rfl, hus⟩ := hproduced hform
    exact ⟨l :: pre, us, post ++ [r], by simp, hus⟩
  | selector hx hd hn ih ihn =>
    refine (Expr.Produced.selector hx hd hn ih ihn).frames ?_
    rintro _ ⟨⟩
    rfl
  | typeGuard hg hx hd hl hk hr ih =>
    exact (Expr.Produced.suffix (.typeGuard hg hx hd hl hk hr) hx ih (by simp [hd]) rfl rfl).frames
      nofun
  | typeAssert hx hd hl ht hr ih =>
    refine (Expr.Produced.suffix (.typeAssert hx hd hl ht hr) hx ih ?_ ?_ rfl).frames nofun
    · simp [hd]
    · simp [List.getLast?_cons]
  | index hx hl hy hr ih =>
    refine (Expr.Produced.suffix (.index hx hl hy hr) hx ih ?_ ?_ rfl).frames nofun
    · simp [hl]
    · simp [List.getLast?_cons]
  | slice hx hl hlow hc hhigh hr ih =>
    refine (Expr.Produced.suffix (.slice hx hl hlow hc hhigh hr) hx ih ?_ ?_ rfl).frames nofun
    · simp [hl]
    · simp [List.getLast?_cons]
  | fullSlice hx hl hlow hc hhigh hc' htop hr ih =>
    refine (Expr.Produced.suffix (.fullSlice hx hl hlow hc hhigh hc' htop hr) hx ih ?_ ?_
      rfl).frames nofun
    · simp [hl]
    · simp [List.getLast?_cons]
  | call hx hl hargs hr ih =>
    refine (Expr.Produced.suffix (.call hx hl hargs hr) hx ih ?_ ?_ rfl).frames nofun
    · simp [hl]
    · simp [List.getLast?_cons]
  | composite hx hopens ht hl hes hr ih =>
    exact (Expr.Produced.composite hx hopens ht hl hes hr ih).frames nofun
  | unary ho hx ih =>
    exact (Expr.Produced.unary ho hx ih).frames nofun
  | binary hx ho hy ih ih' => exact (Expr.Produced.binary hx ho hy ih ih').frames nofun
  | plainName _ ih =>
    obtain ⟨t, rfl, ht, -⟩ := ih
    exact ⟨_, _, _, .whole (by simp [ht])⟩
  | qualifiedName _ _ _ ih =>
    obtain ⟨t, rfl, ht, -⟩ := ih
    exact ⟨_, _, _, .whole (by simp [ht])⟩
  | typeName _ ih => exact ih
  | parenType hl _ hr ih =>
    obtain ⟨ls, core, rs, ht⟩ := ih
    exact ⟨_, _, _, ht.parens hl hr⟩
  | arrayType hl | sliceType hl | pointerType hl | mapType hl | chanType hl | sendChan hl
  | receiveChan hl | funcType hl | structType hl | interfaceType hl =>
    exact ⟨_, _, _, .whole (by simp [hl])⟩
  | _ => trivial

-- ================================================================ trees

/-- Every expression that is more than an operand was produced by some of
the tokens, and its span is to them as `R` says. -/
def Root.Spanned (R : List Token → Expr → Prop) (tokens : List Token) (root : Root) : Prop :=
  ∀ x, .expr x ∈ root.reached → x.form.isCompound = true →
    ∃ pre ts post, tokens = pre ++ (ts ++ post) ∧ x.TakenFrom ts ∧ Balanced ts ∧ R ts x

theorem Visit.ReadFrom.produced {m : Mode} {ts : List Token} {x : Expr}
    (h : Visit.ReadFrom m ts (.expr x)) (hx : x.form.isCompound = true) :
    ∃ pre us post, ts = pre ++ (us ++ post) ∧ x.Produced us := by
  cases h with
  | expr h => exact h.frames.2.2 hx
  | elided h =>
    cases h with
    | elided hl hes hr => exact (Expr.Produced.elided hl hes hr).within
    | part h => exact h.frames.2.2 hx

/-- The span of an expression covers what its production took, but for
parentheses around the operands at its ends. -/
theorem parseSource_covered {source : String} {entry : Entry} {maxDepth : Nat} {arena : Arena}
    {root : Root} (h : (parseSource source entry maxDepth arena).1 = .ok root) :
    root.Spanned (fun ts x => x.Covered ts) (Token.Stream.ofSource source).tokens := by
  have hlaid := (parseStream_reads (Token.Stream.ofSource_proper source) h).laid
  intro x hx hform
  rw [Root.reached_eq] at hx
  obtain ⟨m, e, pre, us, post, htokens, hsite⟩ := hlaid.site hx
  obtain ⟨as, ts, bs, rfl, hts⟩ := hsite.stop.readFrom.produced hform
  exact ⟨pre ++ as, ts, bs ++ post, by simp [htokens], hts.taken, hts.balanced, hts.covered⟩

/-- Operands in parentheses in front, behind and within brackets. -/
theorem parseSource_covered_operands :
    ∃ root, (parseSource "-(a).b[(c)+d] * (T\x7b\x7b(x)\x7d\x7d)" .expression 40 .empty).1 =
        .ok root ∧
      root.Spanned (fun ts x => x.Covered ts)
        (Token.Stream.ofSource "-(a).b[(c)+d] * (T\x7b\x7b(x)\x7d\x7d)").tokens := by
  have hok : (parseSource "-(a).b[(c)+d] * (T\x7b\x7b(x)\x7d\x7d)" .expression 40
      .empty).1.toOption.isSome = true := by
    decide +kernel
  cases h : (parseSource "-(a).b[(c)+d] * (T\x7b\x7b(x)\x7d\x7d)" .expression 40 .empty).1 with
  | error e =>
    rw [h] at hok
    exact nomatch hok
  | ok root => exact ⟨root, rfl, parseSource_covered h⟩

def Visit.isCompound : Visit → Bool
  | .expr x => x.form.isCompound
  | _ => false

/-- The span of `(a)+b` starts at the name, and holds the parenthesis that
closes alone. -/
theorem parseSource_covered_parens :
    ∃ root, (parseSource "(a)+b" .expression 20 .empty).1 = .ok root ∧
      ¬ root.Spanned (fun ts x => x.span = extent ts) (Token.Stream.ofSource "(a)+b").tokens := by
  have hunbalanced : ∀ ts ∈ (Token.Stream.ofSource "(a)+b").tokens.tails.flatMap List.inits,
      extent ts = ⟨⟨1, 2⟩, ⟨1, 6⟩⟩ → parenHeight ts ≠ 0 := by
    decide +kernel
  have hok : ((parseSource "(a)+b" .expression 20 .empty).1.toOption.any fun root =>
      root.reached.any fun v => v.isCompound && v.span = ⟨⟨1, 2⟩, ⟨1, 6⟩⟩) = true := by
    decide +kernel
  cases h : (parseSource "(a)+b" .expression 20 .empty).1 with
  | error e =>
    rw [h] at hok
    exact nomatch hok
  | ok root =>
    rw [h] at hok
    obtain ⟨v, hv, hv'⟩ := List.any_eq_true.mp hok
    obtain ⟨hform, hspan⟩ := by simpa using hv'
    refine ⟨root, rfl, fun hspans => ?_⟩
    cases v with
    | expr x =>
      obtain ⟨pre, ts, post, htokens, -, hbalanced, hextent⟩ := hspans x hv hform
      refine hunbalanced ts ?_ (hextent.symm.trans hspan) hbalanced.height
      rw [List.mem_flatMap]
      refine ⟨ts ++ post, ?_, ?_⟩
      · exact (List.mem_tails _ _).mpr ⟨pre, htokens.symm⟩
      · exact (List.mem_inits _ _).mpr ⟨post, rfl⟩
    | _ => exact nomatch hform

end GoSource
