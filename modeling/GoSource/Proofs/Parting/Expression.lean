/-
A semicolon behind the input, or the end.

Where an expression, a statement or a declaration ends, it does not care
whether a semicolon comes next or the end of the input does: it would end
there either way. For each production one has to see where it asks for the
next token without taking it, and that it does the same for both; what
stands within brackets or in a header need not be looked at.

There is one exception. Behind `return` the list of results is missing if
a semicolon comes next, but not if the input ends. So `return` itself must
not be the last token, if the input that ends with a semicolon comes first
(`Fork.Returns`).
-/
import GoSource.Proofs.Running.Abreast
import GoSource.Proofs.Running.Silence
import GoSource.Proofs.Running.Unswayed

namespace GoSource

open GoSource.Parser

variable {α β : Type} {f : Fork} {s t : Parsing} {parse : SubParser}

-- =============================================================== rules

theorem Fork.Lacks.of_isEnd {k : Token.Kind} (hf : f.second.current.kind.isEnd = true)
    (hk : k.isEnd = false) : f.Lacks k := by
  refine ⟨hk, fun hkind => ?_⟩
  rw [hkind, hk] at hf
  exact nomatch hf

theorem Fork.kind_ne {k : Token.Kind} (hs : f.ends s.cursor) (hk : k.isEnd = false) :
    s.current.kind ≠ k := by
  intro hkind
  have hend : s.current.kind.isEnd = true := f.ends_kind hs
  rw [hkind, hk] at hend
  exact nomatch hend

theorem Token.Kind.isEnd_cases {k : Token.Kind} (hk : k.isEnd = true) : k = .eof ∨ k = .semi := by
  cases k <;> first | exact .inl rfl | exact .inr rfl | exact nomatch hk

namespace Parser

theorem throw_ne_ok {e : ParseError} {s s' : Parsing} {x : α} : (throw e : Parser α) s ≠ .ok x s' :=
  nofun

section

variable {p : Parser α} {q : Parser β}

theorem Stuck.during {name : String} (hp : Stuck f p) : Stuck f (during name p) := by
  intro s hs x s' hx
  unfold Parser.during at hx
  split at hx
  · next y s₁ hy => exact hp { s with trace := name :: s.trace } hs y s₁ hy
  · exact nomatch hx

/-- A token that is needed, but is not there at the end. -/
theorem Stuck.need {k : Token.Kind} {p q : Parser α} (hk : k.isEnd = false)
    (hq : ∀ s x s', q s ≠ .ok x s') :
    Stuck f (isAt k >>= fun b => if b = true then p else q) := by
  intro s hs x s' hx
  change (if decide (s.current.kind = k) = true then p else q) s = .ok x s' at hx
  rw [if_neg fun h => Fork.kind_ne hs hk (of_decide_eq_true h)] at hx
  exact hq s x s' hx

/-- A token that may be there, but is not there at the end. -/
theorem Stuck.bind_eat {k : Token.Kind} {g : Option Span → Parser β} (hk : k.isEnd = false)
    (h : Stuck f (g none)) : Stuck f (eat k >>= g) := by
  intro s hs x s' hx
  obtain ⟨o, s₁, ho, hx⟩ := bind_eq_ok.mp hx
  rw [eat_not_at (Fork.kind_ne hs hk)] at ho
  cases ho
  exact h s hs x s' hx

theorem Stuck.map {g : α → β} (hp : Stuck f p) : Stuck f (g <$> p) := by
  rw [map_eq_pure_bind]
  exact bind hp

theorem Stuck.ident : Stuck f Parser.ident :=
  .need rfl fun _ _ _ => unexpected_ne_ok

theorem Stuck.bind_kind {g : Token.Kind → Parser β} (h : ∀ k, k.isEnd = true → Stuck f (g k)) :
    Stuck f (kind >>= g) :=
  fun s hs => h s.current.kind (f.ends_kind hs) s hs

theorem Stuck.of_fails (h : ∀ s x s', p s ≠ .ok x s') : Stuck f p := fun s _ => h s

theorem Stuck.unrestricted (hp : Stuck f p) : Stuck f (unrestricted p) := by
  intro s hs x s' hx
  unfold Parser.unrestricted at hx
  split at hx
  · next y s₁ hy => exact hp { s with inHeader := false, guardAllowed := false } hs y s₁ hy
  · exact nomatch hx

end

namespace Unswayed

variable {p : Parser α} {u : α → Parser β}

/-- Where the next token is a semicolon or the end, the parser does as
another one, which does not look at it. -/
theorem alike (hf : f.second.current.kind.isEnd = true) {q : Parser α} (hq : Unswayed f s t q)
    (hend : ∀ u : Parsing, u.current.kind.isEnd = true → p u = q u)
    (h : s.current.kind.isEnd = false → Unswayed f s t p) : Unswayed f s t p := by
  by_cases hs : s.current.kind.isEnd = true
  · intro ts hst y s' hy
    have ht : t.current.kind.isEnd = true := by
      cases ts with
      | nil =>
        have hsecond : t.current.kind = f.second.current.kind :=
          congrArg (·.current.kind) hst.cursor_eq
        rwa [hsecond]
      | cons u us => rwa [hst.current_eq]
    rw [hend s hs] at hy
    rw [hend t ht]
    exact hq ts hst y s' hy
  · exact h (Bool.eq_false_iff.mpr hs)

/-- The next token is asked for, and a semicolon makes no difference to the
end of the input. -/
theorem bind_kind_alike (hf : f.second.current.kind.isEnd = true) {g : Token.Kind → Parser β}
    (halike : g .semi = g .eof) (hend : Unswayed f s t (g .eof))
    (h : s.current.kind.isEnd = false → Unswayed f s t (g s.current.kind)) :
    Unswayed f s t (kind >>= g) := by
  refine alike hf hend (fun u hu => ?_) fun hs => bind_kind (Fork.not_ends hs) (h hs)
  show g u.current.kind u = g .eof u
  rcases Token.Kind.isEnd_cases hu with hk | hk
  · rw [hk]
  · rw [hk, halike]

/-- A choice by a token that may be there, after which both ways meet. -/
theorem joinAt {k : Token.Kind} {p q : Parser α} (hk : f.Lacks k)
    (hp : s.current.kind = k → Unswayed f s t p) (hq : Unswayed f s t q)
    (hu : ∀ x s t, Unswayed f s t (u x)) :
    Unswayed f s t (isAt k >>= fun b => if b = true then p >>= u else q >>= u) :=
  ifAt hk (fun hs => bind (hp hs) hu) (bind hq hu)

theorem bind_current {g : Token → Parser β} (hs : ¬ f.ends s.cursor)
    (h : Unswayed f s t (g s.current)) : Unswayed f s t (current >>= g) := by
  intro ts hst y s' hy
  obtain ⟨u, us, rfl⟩ := List.exists_cons_of_ne_nil (hst.ne_nil hs)
  obtain ⟨vs, t', ht', h'⟩ := h _ hst y s' hy
  rw [← hst.current_eq] at ht'
  exact ⟨vs, t', ht', h'⟩

theorem literalValue (hs : ¬ f.ends s.cursor) : Unswayed f s t Parser.literalValue := by
  refine bind_current hs (.ite ?_ (.of_fails fun _ _ _ => unexpected_ne_ok))
  split
  · exact bind_advance hs .pure
  · exact .of_fails fun _ _ _ => throw_ne_ok

theorem allowGuard (allowed : Bool) : Unswayed f s t (Parser.allowGuard allowed) := by
  intro ts hst x s' hx
  cases hx
  exact ⟨ts, { t with guardAllowed := allowed }, rfl, { hst with guardAllowed := rfl }⟩

end Unswayed

end Parser

-- ========================================================= expressions

/-- The productions that may come last, whatever the last token is.
Statements are not among them, since a `return` may be the last. -/
def Production.comesLast : Production α → Bool
  | statement | simpleStmt _ => false
  | fieldDecl | file | typeSwitchGuard => false
  | _ => true

theorem Production.comesLast_of_endsType {p : Production α} (hp : p.endsType = true) :
    p.comesLast = true := by
  cases p <;> first | rfl | exact nomatch hp

/-- The productions that cannot do without a token, and ask for it
first. -/
def Production.needsToken : Production α → Bool
  | expression | unaryExpr | primaryExpr | operand | block => true
  | _ => false

namespace Grammar

theorem operand_stuck : Stuck f (operand parse) := by
  refine .bind_kind fun k hk => ?_
  rcases Token.Kind.isEnd_cases hk with rfl | rfl
  · exact .of_fails fun _ _ _ => unexpected_ne_ok
  · exact .of_fails fun _ _ _ => unexpected_ne_ok

theorem unaryExpr_stuck (hparse : Stuck f (parse .primaryExpr)) : Stuck f (unaryExpr parse) := by
  refine .bind_kind fun k hk => ?_
  rcases Token.Kind.isEnd_cases hk with rfl | rfl
  · exact hparse
  · exact hparse

theorem parse_stuck {p : Production α} (hp : p.needsToken = true) (depth : Nat) :
    Stuck f (Grammar.parse depth p) := by
  induction depth generalizing α with
  | zero => exact .of_fails fun _ _ _ h => nomatch h
  | succ depth ih =>
    rw [Grammar.parse_succ]
    refine .during ?_
    cases p with
    | expression => exact .bind (ih (p := .unaryExpr) rfl)
    | unaryExpr => exact unaryExpr_stuck (ih rfl)
    | primaryExpr => exact .bind (ih (p := .operand) rfl)
    | operand => exact operand_stuck
    | block => exact .unrestricted (.bind (.expect rfl))
    | _ => exact nomatch hp

open Unswayed

variable (hf : f.second.current.kind.isEnd = true) (hsound : parse.Sound)
  (hparse : ∀ {α : Type} (p : Production α), p.comesLast = true → ∀ s t, Unswayed f s t (parse p))

include hf

theorem afterCommas_unswayed {item : Parser α} (loop : Loop (List α))
    (hloop : loop.turn parse = afterComma item) (hsound : parse.Sound)
    (hitem : ∀ s t, Unswayed f s t item) (first : α) : Unswayed f s t (afterCommas item first) := by
  refine .bind (.repeating (hloop ▸ loop.advances hsound) (fun items s t => ?_) _)
    fun _ _ _ => .pure
  refine bind_eat (.of_isEnd hf rfl) (fun _ s t => ?_) .pure
  exact .bind (hitem s t) fun _ _ _ => .pure

include hsound

theorem names_unswayed : Unswayed f s t (commaSeparated Parser.ident) :=
  .bind .ident fun _ _ _ => afterCommas_unswayed hf .names rfl hsound (fun _ _ => .ident) _

include hparse

theorem exprList_unswayed : Unswayed f s t (exprList parse) :=
  .bind (hparse .expression rfl _ _) fun _ _ _ =>
    afterCommas_unswayed hf .expressions rfl hsound (hparse .expression rfl) _

theorem binaryExpr_unswayed (levels least : Nat) (s t : Parsing) :
    Unswayed f s t (binaryExpr parse levels least) := by
  induction levels generalizing least s t with
  | zero => exact hparse .unaryExpr rfl s t
  | succ levels ih =>
    refine .bind (hparse .unaryExpr rfl s t) fun first s t => ?_
    refine .repeating ((Loop.operators levels least).advances hsound) (fun left s t => ?_) first
    refine bind_kind_alike hf rfl .pure fun hs => ?_
    split
    · refine .ite (bind_advance (Fork.not_ends hs) (.bind (ih _ _ _) fun right _ _ => ?_)) .pure
      exact .bind .building fun _ _ _ => .pure
    · exact .pure

omit hsound hparse hf in
theorem toType_unswayed (x : Expr) : Unswayed f s t (toType x) := by
  unfold toType
  split
  · exact .pure
  · exact .building
  · exact .building
  · exact .of_fails fun _ _ _ => unexpectedAt_ne_ok

omit hsound in
theorem selectorOrAssertion_unswayed (x : Expr) :
    Unswayed f s t (selectorOrAssertion parse x) := by
  have finish (type : Option TypeExpr) (s t : Parsing) : Unswayed f s t
      (expect .rParen >>= fun rParen =>
        newExpr (.typeAssert x type rParen) (x.span.through rParen)) :=
    .bind (.expect rfl) fun _ _ _ => .building
  refine .bind (.expect rfl) fun _ s t => ifAt (.of_isEnd hf rfl) (fun _ => ?_) ?_
  · exact .bind .ident fun _ _ _ => .building
  refine ifAt (.of_isEnd hf rfl) (fun hl => ?_) (.of_fails fun _ _ _ => unexpected_ne_ok)
  refine bind_advance (Fork.not_ends (by rw [hl]; rfl)) (ifAt (.of_isEnd hf rfl) (fun hk => ?_) ?_)
  · refine bind_look (r := (·.guardAllowed)) (fun _ h => h.guardAllowed) fun guard => ?_
    refine .ite (bind_advance (Fork.not_ends (by rw [hk]; rfl)) ?_) ?_
    · exact .bind (.allowGuard false) fun _ _ _ => finish none _ _
    · exact .bind (.of_fails fun _ _ _ => unexpected_ne_ok) finish
  · exact .bind (.map (.unrestricted (hparse .type rfl _ _))) finish

theorem suffixes_unswayed (x : Expr) : Unswayed f s t (suffixes parse x) := by
  refine .repeating (Loop.suffixes.advances hsound) (fun x s t => ?_) x
  refine bind_kind_alike hf rfl .pure fun hs => ?_
  split
  · exact .map (selectorOrAssertion_unswayed hf hparse x)
  · exact .map (hparse (.indexOrSlice x) rfl _ _)
  · exact .map (hparse (.call x) rfl _ _)
  · refine bind_look (r := (·.inHeader)) (fun _ h => h.inHeader) fun inHeader => .ite ?_ .pure
    exact .bind (toType_unswayed x) fun t _ _ =>
      .map (hparse (.compositeLit (some t) t.span.start) rfl _ _)
  · exact .pure

omit hsound in
theorem upperBounds_unswayed : Unswayed f s t (upperBounds parse) := by
  refine ifAt (.of_isEnd hf rfl) (fun _ => .pure) (.bind (hparse .expression rfl _ _) ?_)
  refine fun high s t => bind_eat (.of_isEnd hf rfl) (fun _ _ _ => ?_) .pure
  exact .bind (hparse .expression rfl _ _) fun _ _ _ => .pure

omit hsound in
theorem indexOrSlice_unswayed (x : Expr) : Unswayed f s t (indexOrSlice parse x) := by
  refine .unrestricted (.bind (.expect rfl) fun lBrack s t => ?_)
  refine joinAt (.of_isEnd hf rfl) (fun _ => .pure) (.map (hparse .expression rfl _ _)) ?_
  refine fun low s t => bind_isAt_end (.of_isEnd hf rfl) fun colon => ?_
  have slice : Unswayed f s t (expect .colon >>= fun _ => upperBounds parse >>= fun bounds =>
      expect .rBrack >>= fun rBrack => newExpr
        (.slice x lBrack low bounds.1 bounds.2 rBrack) (x.span.through rBrack)) :=
    .bind (.expect rfl) fun _ _ _ => .bind (upperBounds_unswayed hf hparse) fun _ _ _ =>
      .bind (.expect rfl) fun _ _ _ => .building
  split
  · exact .bind (.expect rfl) fun _ _ _ => .building
  · exact slice

theorem call_unswayed (x : Expr) : Unswayed f s t (Grammar.call parse x) := by
  refine .unrestricted (.bind (.expect rfl) fun lParen s t => .bind (.repeating
    (Loop.arguments.advances hsound) (fun ⟨args, dots⟩ s t => ?_) _) fun ⟨args, dots⟩ s t => ?_)
  · refine ifAt (.of_isEnd hf rfl) (fun _ => .pure) (.bind (hparse .expression rfl _ _) ?_)
    refine fun arg s t => bind_eat (.of_isEnd hf rfl) (fun _ _ _ => ?_) ?_
    · exact bind_eat (.of_isEnd hf rfl) (fun _ _ _ => .pure) .pure
    · exact bind_eat (.of_isEnd hf rfl) (fun _ _ _ => .pure) .pure
  · exact .bind (.expect rfl) fun _ _ _ => .bind .recording fun _ _ _ => .building

omit hsound in
theorem elementPart_unswayed : Unswayed f s t (elementPart parse) := by
  refine ifAt (.of_isEnd hf rfl) (fun hl => ?_) (hparse .expression rfl _ _)
  exact bind_here (Fork.not_ends (by rw [hl]; rfl)) (hparse (.compositeLit none _) rfl _ _)

theorem compositeLit_unswayed (type : Option TypeExpr) (start : Location) :
    Unswayed f s t (compositeLit parse type start) := by
  have item (s t : Parsing) : Unswayed f s t (element parse) := by
    refine .bind (elementPart_unswayed hf hparse) fun _ _ _ => ?_
    refine bind_eat (.of_isEnd hf rfl) (fun _ _ _ => ?_) .pure
    exact .bind (elementPart_unswayed hf hparse) fun _ _ _ => .pure
  refine .unrestricted (.bind (.expect rfl) fun lBrace s t => .bind (.bind (.repeating
    (Loop.elements.advances hsound) (fun ⟨count, items⟩ s t => ?_) _) fun _ _ _ => .pure)
    fun elements s t => ?_)
  · refine ifAt (.of_isEnd hf rfl) (fun _ => .pure) (.bind (item _ _) fun _ _ _ => ?_)
    exact bind_eat (.of_isEnd hf rfl) (fun _ _ _ => .pure) .pure
  · exact .bind (.expect rfl) fun _ _ _ => .bind .recording fun _ _ _ => .building

theorem unaryExpr_unswayed : Unswayed f s t (unaryExpr parse) := by
  refine bind_kind_alike hf rfl (hparse .primaryExpr rfl _ _) fun hs => ?_
  split
  · exact hparse .primaryExpr rfl _ _
  refine bind_advance (Fork.not_ends hs) (bind_isAt_end (.of_isEnd hf rfl) fun _ => .ite ?_ ?_)
  · have htype {α : Type} (p : Production α) (hp : p.endsType = true) :=
      hparse p (Production.comesLast_of_endsType hp)
    exact .bind (receiveChan_unswayed htype _) fun _ _ _ => .bind .building fun _ _ _ =>
      suffixes_unswayed hf hsound hparse _
  · exact .bind (hparse .unaryExpr rfl _ _) fun _ _ _ => .building

theorem primaryExpr_unswayed : Unswayed f s t (primaryExpr parse) :=
  .bind (hparse .operand rfl _ _) fun _ _ _ => suffixes_unswayed hf hsound hparse _

omit hsound in
theorem operand_unswayed : Unswayed f s t (operand parse) := by
  refine bind_kind_alike hf rfl (.of_fails fun _ _ _ => unexpected_ne_ok) fun hs => ?_
  have hs : ¬ f.ends s.cursor := Fork.not_ends hs
  have literal (s t : Parsing) (hs : ¬ f.ends s.cursor) : Unswayed f s t
      (literal >>= fun lit => newExpr (.literal lit) lit.span) :=
    .bind (.bind (.literalValue hs) fun _ _ _ => .building) fun _ _ _ => .building
  have type (s t : Parsing) : Unswayed f s t
      (parse .type >>= fun type => newExpr (.type type) type.span) :=
    .bind (hparse .type rfl _ _) fun _ _ _ => .building
  split
  · exact .bind .ident fun _ _ _ => .building
  iterate 6 exact literal _ _ hs
  · exact bind_advance hs (.bind (.unrestricted (hparse .expression rfl _ _)) fun _ _ _ =>
      .bind (.expect rfl) fun _ _ _ => .pure)
  · refine bind_advance hs (.bind (hparse .signature rfl _ _) fun sig _ _ => ?_)
    refine ifAt (.of_isEnd hf rfl) (fun _ => .of_fails fun _ _ _ => throw_ne_ok) ?_
    exact .bind .building fun _ _ _ => .building
  iterate 5 exact type _ _
  · exact .of_fails fun _ _ _ => unexpected_ne_ok

end Grammar

end GoSource
