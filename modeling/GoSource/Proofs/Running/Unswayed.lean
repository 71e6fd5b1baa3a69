/-
A type is the same whether the input ends behind it or a parameter does.

A run that has come to the end of its input may go wrong there, where a run
beside it would not, or the other way round. Within brackets it does go
wrong, because they are not closed (`Parser.Stuck`). What is not within
brackets has to be looked at: it may ask for the token behind the last one,
but must not care whether that is the end of the input, a semicolon or what
ends a parameter (`Parser.Unswayed`). For the types and what they are made
of this is so (`Grammar.parse_unswayed`).
-/
import GoSource.Proofs.Running.Nearsighted

namespace GoSource

open GoSource.Parser

variable {α β σ : Type} {f : Fork} {s t : Parsing}

-- ======================================================= stuck at the end

/-- At the end of the input the parser fails. -/
def Parser.Stuck (f : Fork) (p : Parser α) : Prop := ∀ s, f.ends s.cursor → ∀ x s', p s ≠ .ok x s'

namespace Parser.Stuck

variable {p q : Parser α} {u : α → Parser β}

theorem expect {k : Token.Kind} (hk : k.isEnd = false) : Stuck f (Parser.expect k) := by
  intro s hs sp s' hsp
  have hkind : s.current.kind.isEnd = true := f.ends_kind hs
  rw [expect_eq_ok hsp, hk] at hkind
  exact nomatch hkind

theorem bind (hp : Stuck f p) : Stuck f (p >>= u) := by
  intro s hs y s' hy
  obtain ⟨x, s₁, hx, -⟩ := bind_eq_ok.mp hy
  exact hp s hs x s₁ hx

theorem after (hp : p.Nearsighted f) (hu : ∀ x, Stuck f (u x)) : Stuck f (p >>= u) := by
  intro s hs y s' hy
  obtain ⟨x, s₁, hx, hy⟩ := bind_eq_ok.mp hy
  exact hu x s₁ (hp.lost hs hx) y s' hy

theorem ite {c : Prop} [Decidable c] (hp : Stuck f p) (hq : Stuck f q) :
    Stuck f (if c then p else q) := by
  split
  · exact hp
  · exact hq

end Parser.Stuck

/-- A token that may be there, and a choice by it. -/
theorem Parser.eat_bind (k : Token.Kind) (g : Option Span → Parser β) :
    (eat k >>= g) = (isAt k >>= fun b => if b = true then advance >>= fun t =>
      g (some t.span) else g none) := by
  unfold eat
  rw [bind_assoc]
  congr 1
  funext b
  split <;> rfl

-- ============================================================== unswayed

/-- The tokens that come after a parameter. -/
def Token.Kind.endsParam : Token.Kind → Bool
  | .comma | .rParen => true
  | _ => false

/-- Tokens that come after a type, whatever comes before it. -/
def Token.Kind.endsType (k : Token.Kind) : Bool := k.isEnd || k.endsParam

/-- There is no such token at the place where the runs part. -/
structure Fork.Lacks (f : Fork) (k : Token.Kind) : Prop where
  first : k.isEnd = false
  second : f.second.current.kind ≠ k

theorem Fork.Lacks.of_endsType {k : Token.Kind} (hf : f.second.current.kind.endsType = true)
    (hk : k.endsType = false) : f.Lacks k := by
  refine ⟨(Bool.or_eq_false_iff.mp hk).1, fun hkind => ?_⟩
  rw [hkind, hk] at hf
  exact nomatch hf

/-- Wherever the runs part, the parser does the same, also if it comes to
that point. -/
def Parser.Unswayed (f : Fork) (s t : Parsing) (p : Parser α) : Prop :=
  ∀ ts, s.Beside f ts t → ∀ x s', p s = .ok x s' → ∃ us t', p t = .ok x t' ∧ s'.Beside f us t'

namespace Parser.Unswayed

variable {p q : Parser α} {u : α → Parser β} {k : Token.Kind}

-- ============================================================= sequence

theorem pure {x : α} : Unswayed f s t (Pure.pure x : Parser α) := by
  intro ts hst y s' hy
  cases hy
  exact ⟨ts, t, rfl, hst⟩

theorem bind (hp : Unswayed f s t p) (hu : ∀ x s' t', Unswayed f s' t' (u x)) :
    Unswayed f s t (p >>= u) := by
  intro ts hst y s' hy
  obtain ⟨x, s₁, hx, hy⟩ := bind_eq_ok.mp hy
  obtain ⟨us, t₁, ht₁, h₁⟩ := hp ts hst x s₁ hx
  obtain ⟨vs, t₂, ht₂, h₂⟩ := hu x s₁ t₁ us h₁ y s' hy
  exact ⟨vs, t₂, bind_eq_ok.mpr ⟨x, t₁, ht₁, ht₂⟩, h₂⟩

theorem map {g : α → β} (hp : Unswayed f s t p) : Unswayed f s t (g <$> p) := by
  rw [map_eq_pure_bind]
  exact bind hp fun _ _ _ => pure

/-- What stands within brackets may do anything at the end of the input, if
the bracket is missed after it. -/
theorem inside (hp : p.Nearsighted f) (hend : ∀ x, Stuck f (u x))
    (hu : ∀ x s' t', Unswayed f s' t' (u x)) : Unswayed f s t (p >>= u) := by
  intro ts hst y s' hy
  obtain ⟨x, s₁, hx, hy⟩ := bind_eq_ok.mp hy
  rcases hp.beside hst hx with hends | ⟨us, t₁, ht₁, h₁⟩
  · exact absurd hy (hend x s₁ hends y s')
  · obtain ⟨vs, t₂, ht₂, h₂⟩ := hu x s₁ t₁ us h₁ y s' hy
    exact ⟨vs, t₂, bind_eq_ok.mpr ⟨x, t₁, ht₁, ht₂⟩, h₂⟩

/-- A parser that fails at the end need not be looked at there. -/
theorem of_stuck (hp : Stuck f p) (h : ¬ f.ends s.cursor → Unswayed f s t p) :
    Unswayed f s t p := by
  intro ts hst x s' hx
  exact h (fun hs => hp s hs x s' hx) ts hst x s' hx

/-- A parser that never succeeds. -/
theorem of_fails (h : ∀ s x s', p s ≠ .ok x s') : Unswayed f s t p :=
  fun _ _ _ _ hx => absurd hx (h _ _ _)

theorem ite {c : Prop} [Decidable c] (hp : Unswayed f s t p) (hq : Unswayed f s t q) :
    Unswayed f s t (if c then p else q) := by
  split
  · exact hp
  · exact hq

/-- The counts of the two runs need not be the same, since neither cuts the
repetition short. -/
theorem repeating {turn : σ → Parser (Turn σ)} (hadvances : Advances turn)
    (hturn : ∀ x s t, Unswayed f s t (turn x)) (x : σ) :
    Unswayed f s t (Parser.repeating turn x) := by
  have hturns : ∀ n x s t, Unswayed f s t (takeTurns turn n x) := by
    intro n
    induction n with
    | zero => exact fun x s t => pure
    | succ n ih =>
      intro x s t
      refine bind (hturn x s t) fun next s' t' => ?_
      cases next with
      | again x' => exact ih x' s' t'
      | stop x' => exact pure
  intro ts hst y s' hy
  have hs : s.cursor.left < s.turns := hst.fueled
  have ht : t.cursor.left < t.turns := hst.fueled'
  have hy : takeTurns turn (s.turns + t.turns) x s = .ok y s' := by
    rw [← hadvances.takeTurns_eq hst.fueled hs (by omega)]
    exact hy
  obtain ⟨us, t', ht', hst'⟩ := hturns _ x s t ts hst y s' hy
  refine ⟨us, t', ?_, hst'⟩
  rwa [← hadvances.takeTurns_eq hst.fueled' ht (by omega)] at ht'

-- ========================================================= before the end

theorem bind_advance {g : Token → Parser β} (hs : ¬ f.ends s.cursor)
    (h : Unswayed f s.next t.next (g s.current)) : Unswayed f s t (advance >>= g) := by
  intro ts hst y s' hy
  obtain ⟨u, us, rfl⟩ := List.exists_cons_of_ne_nil (hst.ne_nil hs)
  obtain ⟨vs, t', ht', h'⟩ := h us hst.next y s' hy
  rw [← hst.current_eq] at ht'
  exact ⟨vs, t', ht', h'⟩

theorem bind_here {g : Location → Parser β} (hs : ¬ f.ends s.cursor)
    (h : Unswayed f s t (g s.current.span.start)) : Unswayed f s t (here >>= g) := by
  intro ts hst y s' hy
  obtain ⟨u, us, rfl⟩ := List.exists_cons_of_ne_nil (hst.ne_nil hs)
  obtain ⟨vs, t', ht', h'⟩ := h _ hst y s' hy
  rw [← hst.current_eq] at ht'
  exact ⟨vs, t', ht', h'⟩

theorem bind_kind {g : Token.Kind → Parser β} (hs : ¬ f.ends s.cursor)
    (h : Unswayed f s t (g s.current.kind)) : Unswayed f s t (kind >>= g) := by
  intro ts hst y s' hy
  obtain ⟨u, us, rfl⟩ := List.exists_cons_of_ne_nil (hst.ne_nil hs)
  obtain ⟨vs, t', ht', h'⟩ := h _ hst y s' hy
  rw [← hst.current_eq] at ht'
  exact ⟨vs, t', ht', h'⟩

/-- A token that is needed. -/
theorem need (hk : k.isEnd = false) (hp : s.current.kind = k → Unswayed f s t p)
    (hq : ∀ s x s', q s ≠ .ok x s') :
    Unswayed f s t (isAt k >>= fun b => if b = true then p else q) := by
  intro ts hst x s' hx
  by_cases hs : s.current.kind = k
  · obtain ⟨u, us, rfl⟩ := List.exists_cons_of_ne_nil (hst.ne_nil (Fork.not_ends (hs ▸ hk)))
    have hyes : ∀ v : Parsing, v.current.kind = k →
        (isAt k >>= fun b => if b = true then p else q) v = p v := by
      intro v hv
      show (if decide (v.current.kind = k) = true then p else q) v = p v
      rw [if_pos (decide_eq_true hv)]
    rw [hyes s hs] at hx
    rw [hyes t (by rw [hst.current_eq, hs])]
    exact hp hs _ hst x s' hx
  · have hno : (isAt k >>= fun b => if b = true then p else q) s = q s := by
      show (if decide (s.current.kind = k) = true then p else q) s = q s
      rw [if_neg fun h => hs (of_decide_eq_true h)]
    exact absurd (hno ▸ hx) (hq s x s')

theorem expect (hk : k.isEnd = false) : Unswayed f s t (Parser.expect k) :=
  need hk (fun hs => bind_advance (Fork.not_ends (hs ▸ hk)) pure) fun _ _ _ => unexpected_ne_ok

-- ============================================================ at the end

/-- What is asked of the modes, or of the token before, has one answer. -/
theorem bind_look {r : Parsing → α} {g : α → Parser β}
    (hr : ∀ ts, s.Beside f ts t → r t = r s) (h : ∀ x, Unswayed f s t (g x)) :
    Unswayed f s t ((fun s => .ok (r s) s) >>= g) := by
  intro ts hst y s' hy
  obtain ⟨vs, t', ht', h'⟩ := h (r s) ts hst y s' hy
  rw [← hr ts hst] at ht'
  exact ⟨vs, t', ht', h'⟩

theorem bind_spanFrom {start : Location} {g : Span → Parser β}
    (h : ∀ sp, Unswayed f s t (g sp)) : Unswayed f s t (spanFrom start >>= g) :=
  bind_look (r := fun s => (⟨start, s.previousEnd⟩ : Span))
    (fun _ hst => congrArg (Span.mk start) hst.previousEnd) h

theorem building {add : Arena → α × Arena} : Unswayed f s t (Parser.building add) := by
  intro ts hst x s' hx
  cases hx
  refine ⟨ts, { t with arena := (add t.arena).2 }, ?_, { hst with arena := ?_ }⟩
  · rw [← hst.arena]
    rfl
  · simp only [hst.arena]

theorem recording {add : Arena → Arena} : Unswayed f s t (Parser.recording add) :=
  (building : Unswayed f s t (Parser.building fun a => ((), add a)))

theorem ident : Unswayed f s t Parser.ident :=
  need rfl (fun hs => bind_advance (Fork.not_ends (by rw [hs]; rfl))
    (bind recording fun _ _ _ => pure)) fun _ _ _ => unexpected_ne_ok

/-- A parser that sets something else for another, and puts it back. -/
theorem restored (enter : Parsing → Parsing) (leave : Parsing → Parsing → Parsing)
    (hp : Unswayed f (enter s) (enter t) p)
    (henter : ∀ {ts}, s.Beside f ts t → (enter s).Beside f ts (enter t))
    (hleave : ∀ {ts us s' t'}, s.Beside f ts t → s'.Beside f us t' →
      (leave s s').Beside f us (leave t t')) :
    Unswayed f s t fun s => restore (leave s) (p (enter s)) := by
  intro ts hst y s' hy
  dsimp only at hy ⊢
  cases hx : p (enter s) with
  | error e s₁ =>
    rw [hx] at hy
    exact nomatch hy
  | ok x s₁ =>
    rw [hx] at hy
    cases hy
    obtain ⟨us, t₁, ht₁, h₁⟩ := hp ts (henter hst) _ _ hx
    rw [ht₁]
    exact ⟨us, leave t t₁, rfl, hleave hst h₁⟩

theorem during {name : String} (h : Unswayed f { s with trace := name :: s.trace }
    { t with trace := name :: t.trace } p) : Unswayed f s t (Parser.during name p) :=
  restored (fun s => { s with trace := name :: s.trace })
    (fun s s' => { s' with trace := s.trace }) h (fun h => { h with }) fun _ h => { h with }

theorem unrestricted (h : Unswayed f { s with inHeader := false, guardAllowed := false }
    { t with inHeader := false, guardAllowed := false } p) :
    Unswayed f s t (Parser.unrestricted p) :=
  restored (fun s => { s with inHeader := false, guardAllowed := false })
    (fun s s' => { s' with inHeader := s.inHeader, guardAllowed := s.guardAllowed }) h
    (fun h => { h with inHeader := rfl, guardAllowed := rfl })
    fun h h' => { h' with inHeader := h.inHeader, guardAllowed := h.guardAllowed }

/-- What is asked of the token behind the last has the same answer wherever
the runs part. -/
theorem bind_kind_end {g : Token.Kind → Parser β}
    (hend : ∀ k, k.isEnd = true → g f.second.current.kind = g k)
    (h : ∀ k, Unswayed f s t (g k)) : Unswayed f s t (kind >>= g) := by
  intro ts hst y s' hy
  cases ts with
  | nil =>
    have hs : s.current.kind.isEnd = true := f.ends_kind hst.ends
    have ht : t.current.kind = f.second.current.kind := congrArg (·.current.kind) hst.cursor_eq
    obtain ⟨vs, t', ht', h'⟩ := h s.current.kind _ hst y s' hy
    rw [← hend _ hs, ← ht] at ht'
    exact ⟨vs, t', ht', h'⟩
  | cons u us =>
    obtain ⟨vs, t', ht', h'⟩ := h s.current.kind _ hst y s' hy
    rw [← hst.current_eq] at ht'
    exact ⟨vs, t', ht', h'⟩

variable (hk : f.Lacks k)

include hk

theorem bind_isAt {g : Bool → Parser β} (yes : s.current.kind = k → Unswayed f s t (g true))
    (no : Unswayed f s t (g false)) : Unswayed f s t (isAt k >>= g) := by
  by_cases hs : s.current.kind = k
  · have hends : ¬ f.ends s.cursor := Fork.not_ends (hs ▸ hk.first)
    refine bind_kind (g := fun k' => g (decide (k' = k))) hends ?_
    rw [decide_eq_true hs]
    exact yes hs
  · intro ts hst x s' hx
    have hno : ∀ v : Parsing, v.current.kind ≠ k → (isAt k >>= g) v = g false v := by
      intro v hv
      show g (decide (v.current.kind = k)) v = g false v
      rw [decide_eq_false hv]
    have ht : t.current.kind ≠ k := by
      intro ht
      cases ts with
      | nil =>
        have hsecond : t.current.kind = f.second.current.kind :=
          congrArg (·.current.kind) hst.cursor_eq
        exact hk.second (hsecond.symm.trans ht)
      | cons u us => exact hs (hst.current_eq ▸ ht)
    rw [hno s hs] at hx
    rw [hno t ht]
    exact no ts hst x s' hx

theorem bind_isAt_end {g : Bool → Parser β} (h : ∀ b, Unswayed f s t (g b)) :
    Unswayed f s t (isAt k >>= g) :=
  bind_isAt hk (fun _ => h true) (h false)

/-- A token that may be there, but not where the runs part. -/
theorem ifAt (hp : s.current.kind = k → Unswayed f s t p) (hq : Unswayed f s t q) :
    Unswayed f s t (isAt k >>= fun b => if b = true then p else q) :=
  bind_isAt hk hp hq

theorem bind_eat {g : Option Span → Parser β}
    (yes : ∀ sp s' t', Unswayed f s' t' (g (some sp))) (no : Unswayed f s t (g none)) :
    Unswayed f s t (eat k >>= g) := by
  have h : Unswayed f s t (isAt k >>= fun b => if b = true then advance >>= fun t =>
      g (some t.span) else g none) :=
    ifAt hk (fun hs => bind_advance (Fork.not_ends (hs ▸ hk.first)) (yes _ _ _)) no
  rwa [eat_bind]

end Parser.Unswayed

namespace Production

/-- The productions that a type may end with. -/
def endsType : Production α → Bool
  | type | signature | parameters | structType | interfaceType => true
  | _ => false

end Production

namespace Grammar

open Unswayed

variable (hd : f.second.current.kind.endsType = true)

-- ================================================================ types

theorem startsType_of_endsType {k : Token.Kind} (hk : k.endsType = true) :
    startsType k = false := by
  cases k <;> first | rfl | exact nomatch hk

theorem finishType_unswayed {start : Location} {form : TypeForm} :
    Unswayed f s t (finishType start form) :=
  bind_spanFrom fun _ => building

include hd in
theorem qualifiedType_unswayed (first : Ident) : Unswayed f s t (qualifiedType first) := by
  refine bind_eat (.of_endsType hd rfl) (fun _ _ _ => ?_) finishType_unswayed
  exact .bind .ident fun _ _ _ => finishType_unswayed

include hd in
theorem typeName_unswayed : Unswayed f s t typeName :=
  .bind .ident fun _ _ _ => qualifiedType_unswayed hd _

section

variable {parse : SubParser}
  (hnear : ∀ {α : Type} {p : Parser α}, Composed parse p → p.Nearsighted f)
  (hparse : ∀ {α : Type} (p : Production α), p.endsType = true → ∀ s t, Unswayed f s t (parse p))

include hd hparse

omit hd in
theorem receiveChan_unswayed (arrow : Span) : Unswayed f s t (receiveChan parse arrow) :=
  .bind (.expect rfl) fun _ _ _ => .bind (hparse .type rfl _ _) fun _ _ _ =>
    bind_spanFrom fun _ => building

include hnear

theorem bracketType_unswayed (start : Location) : Unswayed f s t (bracketType parse start) := by
  have finish (length : ArrayLength) (s t : Parsing) : Unswayed f s t
      (expect .rBrack >>= fun _ => parse .type >>= fun elem =>
        finishType start (.array length elem)) :=
    .bind (.expect rfl) fun _ _ _ => .bind (hparse .type rfl _ _) fun _ _ _ =>
      finishType_unswayed
  refine bind_eat (.of_endsType hd rfl) (fun _ _ _ => ?_) ?_
  · exact .bind (hparse .type rfl _ _) fun _ _ _ => finishType_unswayed
  · refine bind_eat (.of_endsType hd rfl) (fun _ _ _ => finish _ _ _) ?_
    refine inside (hnear (Composed.map (.unrestricted inferInstance))) (fun _ => ?_) finish
    exact .bind (.expect rfl)

theorem type_unswayed : Unswayed f s t (Grammar.type parse) := by
  refine of_stuck (fun s hs x s' hx => ?_) fun hs => bind_here hs (bind_kind hs ?_)
  · have hk : s.current.kind.isEnd = true := f.ends_kind hs
    obtain ⟨start, _, hstart, hx⟩ := bind_eq_ok.mp hx
    cases hstart
    obtain ⟨k, _, hkind, hx⟩ := bind_eq_ok.mp hx
    cases hkind
    generalize s.current.kind = k at hk hx
    cases k <;> first | exact unexpected_ne_ok hx | exact nomatch hk
  have finish (form : TypeExpr → TypeForm) (s' t' : Parsing) : Unswayed f s' t'
      (parse .type >>= fun elem => finishType s.current.span.start (form elem)) :=
    .bind (hparse .type rfl _ _) fun _ _ _ => finishType_unswayed
  split
  · exact typeName_unswayed hd
  · refine bind_advance hs (inside (hnear (.unrestricted inferInstance)) (fun _ => ?_) ?_)
    · exact .bind (.expect rfl)
    · exact fun _ _ _ => .bind (.expect rfl) fun _ _ _ => .pure
  · exact bind_advance hs (receiveChan_unswayed hparse _)
  · exact bind_advance hs (bracketType_unswayed hd hnear hparse _)
  · exact bind_advance hs (finish .pointer _ _)
  · refine bind_advance hs (.bind (.expect rfl) fun _ _ _ => ?_)
    refine inside (hnear (.unrestricted inferInstance)) (fun _ => ?_) fun key _ _ => ?_
    · exact .bind (.expect rfl)
    · exact .bind (.expect rfl) fun _ _ _ => finish (.map key) _ _
  · refine bind_advance hs (bind_eat (.of_endsType hd rfl) (fun _ _ _ => ?_) ?_)
    · exact finish (.chan .send) _ _
    · exact finish (.chan .both) _ _
  · exact bind_advance hs (.bind (hparse .signature rfl _ _) fun _ _ _ => finishType_unswayed)
  · exact .bind (hparse .structType rfl _ _) fun _ _ _ => finishType_unswayed
  · exact .bind (hparse .interfaceType rfl _ _) fun _ _ _ => finishType_unswayed
  · exact of_fails fun _ _ _ => unexpected_ne_ok

-- ============================================================ signatures

omit hd hparse in
theorem parameters_unswayed : Unswayed f s t (Grammar.parameters parse) := by
  refine .unrestricted (.bind (.expect rfl) fun l _ _ => ?_)
  have hstuck (ps : List Param) : (expect .rParen >>= fun r => recording (·.addParams ps) >>=
      fun _ => (Pure.pure ⟨ps, l.through r⟩ : Parser ParamList)).Stuck f :=
    .bind (.expect rfl)
  have finish (ps : List Param) (s t : Parsing) : Unswayed f s t
      (expect .rParen >>= fun r => recording (·.addParams ps) >>= fun _ =>
        (Pure.pure ⟨ps, l.through r⟩ : Parser ParamList)) :=
    .bind (.expect rfl) fun _ _ _ => .bind .recording fun _ _ _ => .pure
  have hparams : (List.reverse <$> params parse).Nearsighted f :=
    hnear (Composed.map params_composed)
  refine inside (hnear inferInstance) (fun _ => ?_) fun _ _ _ => ?_
  · exact .ite (.after (.pure _) hstuck) (.after hparams hstuck)
  · split
    · exact .bind .pure finish
    · exact inside hparams hstuck finish

omit hnear in
theorem signature_unswayed : Unswayed f s t (Grammar.signature parse) := by
  have finish (params : ParamList) (result : Option FuncResult) (s t : Parsing) :
      Unswayed f s t (spanFrom params.span.start >>= fun sp =>
        (Pure.pure ⟨params, result, sp⟩ : Parser Signature)) :=
    bind_spanFrom fun _ => .pure
  refine .bind (hparse .parameters rfl _ _) fun params s t => ?_
  refine bind_isAt_end (.of_endsType hd rfl) fun _ => bind_kind_end (fun k hk => ?_) fun _ => ?_
  · have hk' : k.endsType = true := Bool.or_eq_true_iff.mpr (.inl hk)
    rw [startsType_of_endsType hd, startsType_of_endsType hk']
  · split
    · exact .bind (.map (.map (hparse .parameters rfl _ _))) (finish params)
    · split
      · exact .bind (.map (.map (hparse .type rfl _ _))) (finish params)
      · exact finish params none _ _

-- =============================================== structs and interfaces

omit hd hparse in
theorem structType_unswayed : Unswayed f s t (Grammar.structType parse) := by
  refine .bind (.expect rfl) fun _ _ _ => .bind (.expect rfl) fun _ _ _ => ?_
  refine inside (hnear (.unrestricted ?_)) (fun _ => .bind (.expect rfl)) ?_
  · exact itemsUntil_composed (fun _ => inferInstance) .fields rfl
  · exact fun _ _ _ => .bind (.expect rfl) fun _ _ _ => .bind .recording
      fun _ _ _ => .pure

omit hd hparse in
theorem interfaceType_unswayed : Unswayed f s t (Grammar.interfaceType parse) := by
  refine .bind (.expect rfl) fun _ _ _ => .bind (.expect rfl) fun _ _ _ => ?_
  refine inside (hnear (.unrestricted ?_)) (fun _ => .bind (.expect rfl)) ?_
  · exact itemsUntil_composed (fun _ => interfaceElement_composed) .methods rfl
  · exact fun _ _ _ => .bind (.expect rfl) fun _ _ _ => .bind .recording
      fun _ _ _ => .pure

end

theorem parse_unswayed (hd : f.second.current.kind.endsType = true) {p : Production α}
    (hp : p.endsType = true) (depth : Nat) (s t : Parsing) :
    Unswayed f s t (Grammar.parse depth p) := by
  induction depth generalizing α s t with
  | zero => exact fun _ _ _ _ h => nomatch h
  | succ depth ih =>
    have hnear : ∀ {α : Type} {p : Parser α}, Composed (Grammar.parse depth) p →
        p.Nearsighted f :=
      fun hp => hp.nearsighted (parse_sound depth) fun _ hp => parse_nearsighted hp depth
    have hparse {α : Type} (p : Production α) (hp : p.endsType = true) := ih hp
    rw [Grammar.parse_succ]
    refine .during ?_
    cases p with
    | type => exact type_unswayed hd hnear hparse
    | signature => exact signature_unswayed hd hparse
    | parameters => exact parameters_unswayed hnear
    | structType => exact structType_unswayed hnear
    | interfaceType => exact interfaceType_unswayed hnear
    | _ => exact nomatch hp

end Grammar

end GoSource
