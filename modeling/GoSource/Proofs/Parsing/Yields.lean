/-
What a parser returns, whatever it has read.

`p.Yields Q` says that `Q` holds of every result of `p`. It asks for
nothing of the state and says nothing of the tokens, so it is the right
judgement for properties that a result has by construction. The rules
follow the text of a production from top to bottom; a result about which
nothing needs to be known is passed over (`Yields.bind_any`).

A repetition yields what each of its turns keeps. Here it does not matter
what ends it, so no turn has to be shown to take anything.
-/
import GoSource.Proofs.Running.Restored

namespace GoSource.Parser

variable {α β σ : Type}

/-- Whatever `p` returns, `Q` holds of it. -/
def Yields (p : Parser α) (Q : α → Prop) : Prop :=
  ∀ s a s', p s = .ok a s' → Q a

namespace Yields

variable {p q : Parser α} {f : α → Parser β} {P : α → Prop} {Q : β → Prop}

theorem imp {P' : α → Prop} (hp : p.Yields P) (h : ∀ a, P a → P' a) : p.Yields P' :=
  fun s a s' ha => h a (hp s a s' ha)

-- ============================================================= sequence

theorem pure {a : α} (h : P a) : (Pure.pure a : Parser α).Yields P := by
  intro s a' s' ha
  cases ha
  exact h

theorem bind (hp : p.Yields P) (hf : ∀ a, P a → (f a).Yields Q) : (p >>= f).Yields Q := by
  intro s b s' hb
  simp only [Bind.bind, EStateM.bind] at hb
  split at hb
  · next a s₁ ha => exact hf a (hp s a s₁ ha) s₁ b s' hb
  · exact nomatch hb

/-- A part of which nothing needs to be known. -/
theorem bind_any (hf : ∀ a, (f a).Yields Q) : (p >>= f).Yields Q :=
  bind (P := fun _ => True) (fun _ _ _ _ => trivial) fun a _ => hf a

theorem bind_pure {a : α} (h : (f a).Yields Q) : ((Pure.pure a : Parser α) >>= f).Yields Q := h

theorem map {g : α → β} (hp : p.Yields fun a => Q (g a)) : (g <$> p).Yields Q := by
  rw [map_eq_pure_bind]
  exact bind hp fun _ h => pure h

theorem bind_map {γ : Type} {g : γ → α} {r : Parser γ} {R : γ → Prop} (hr : r.Yields R)
    (hf : ∀ c, R c → (f (g c)).Yields Q) : ((g <$> r) >>= f).Yields Q :=
  bind (P := fun a => ∃ c, a = g c ∧ R c) (map (hr.imp fun c h => ⟨c, rfl, h⟩))
    fun _ ⟨c, hc, h⟩ => hc ▸ hf c h

-- ============================================================== choices

theorem ite {c : Prop} [Decidable c] (yes : c → p.Yields P) (no : ¬c → q.Yields P) :
    (if c then p else q).Yields P := by
  split
  · next h => exact yes h
  · next h => exact no h

/-- A choice by something that has been looked at. -/
theorem choice {c : Parser Bool} (yes : p.Yields P) (no : q.Yields P) :
    (c >>= fun b => if b = true then p else q).Yields P :=
  bind_any fun _ => ite (fun _ => yes) fun _ => no

/-- The same, where both ways meet afterwards. -/
theorem joinChoice {c : Parser Bool} (yes : p.Yields P) (no : q.Yields P)
    (rest : ∀ a, P a → (f a).Yields Q) :
    (c >>= fun b => if b = true then p >>= f else q >>= f).Yields Q :=
  choice (bind yes rest) (bind no rest)

/-- Something that may be there, after which both ways meet. -/
theorem joinOption {o : Parser (Option Span)} {p : Span → Parser α} (yes : ∀ sp, (p sp).Yields P)
    (no : q.Yields P) (rest : ∀ a, P a → (f a).Yields Q) :
    (o >>= fun o =>
      match o with
      | some sp => p sp >>= f
      | none => q >>= f).Yields Q :=
  bind_any fun o =>
    match o with
    | some sp => bind (yes sp) rest
    | none => bind no rest

-- =============================================================== errors

theorem throw {e : ParseError} : (MonadExcept.throw e : Parser α).Yields P :=
  fun _ _ _ h => nomatch h

theorem unexpectedAt {span : Span} {wanted got : String} :
    (unexpectedAt span wanted got : Parser α).Yields P :=
  fun _ _ _ h => nomatch h

theorem unexpected {wanted : String} : (unexpected wanted : Parser α).Yields P :=
  bind_any fun _ => ite (fun _ => throw) fun _ => unexpectedAt

theorem bind_unexpected {wanted : String} :
    ((Parser.unexpected wanted : Parser α) >>= f).Yields Q :=
  bind (P := fun _ => False) unexpected nofun

-- ================================================================ modes

theorem during {name : String} (hp : p.Yields P) : (Parser.during name p).Yields P := by
  intro s a s' ha
  simp only [Parser.during] at ha
  split at ha
  · next b s₁ hb =>
    cases ha
    exact hp _ _ _ hb
  · exact nomatch ha

theorem unrestricted (hp : p.Yields P) : (Parser.unrestricted p).Yields P := by
  intro s a s' ha
  simp only [Parser.unrestricted] at ha
  split at ha
  · next b s₁ hb =>
    cases ha
    exact hp _ _ _ hb
  · exact nomatch ha

theorem asHeader (hp : p.Yields P) : (Parser.asHeader p).Yields P := by
  intro s a s' ha
  simp only [Parser.asHeader] at ha
  split at ha
  · next b s₁ hb =>
    cases ha
    exact hp _ _ _ hb
  · exact nomatch ha

-- ================================================================ arena

theorem building {add : Arena → α × Arena} (h : ∀ arena, P (add arena).1) :
    (Parser.building add).Yields P := by
  intro s a s' ha
  cases ha
  exact h s.arena

-- ============================================================ repetition

/-- A state of the repetition that a turn leads to. -/
def TurnYields (I : σ → Prop) : Turn σ → Prop
  | .again b => I b
  | .stop b => I b

theorem repeating {turn : σ → Parser (Turn σ)} {a : σ} {I : σ → Prop} (init : I a)
    (step : ∀ b, I b → (turn b).Yields (TurnYields I)) : (Parser.repeating turn a).Yields I := by
  suffices h : ∀ n b, I b → (takeTurns turn n b).Yields I from fun s => h s.turns a init s
  intro n
  induction n with
  | zero => exact fun b hb => pure hb
  | succ n ih =>
    intro b hb
    refine bind (step b hb) fun t ht => ?_
    cases t with
    | again c => exact ih c ht
    | stop c => exact pure ht

end Yields

end GoSource.Parser
