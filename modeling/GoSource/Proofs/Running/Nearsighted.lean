/-
What comes later is not seen before it comes.

Put two states beside each other that are in front of the same tokens and
differ in what comes after these: for the first it is an end of its input,
for the second something else (`Parsing.Beside`). As long as the first run
has not come to the end, the second does the same, because a parser looks
at one token at a time. And if it has come to the end it stays there. This
is what being `Nearsighted` means, and everything that is composed is.

What the input may end with, and what the second state has instead, is up
to the `Fork`.
-/
import GoSource.Proofs.Running.Outcome
import GoSource.Proofs.Running.Turns

namespace GoSource

open GoSource.Parser

-- ================================================================ forks

/-- Nothing is left but the end of the input. -/
def Cursor.Spent (c : Cursor) : Prop := c.current.kind = .eof ∧ c.ahead.lexemes = []

theorem Cursor.Spent.next {c : Cursor} (h : c.Spent) : c.next.Spent := by
  obtain ⟨t, ⟨lexemes, trailing, stop⟩, l⟩ := c
  obtain ⟨-, rfl⟩ : _ ∧ lexemes = [] := h
  exact ⟨rfl, rfl⟩

/-- The end of the input, or a semicolon, which may stand before it. -/
def Token.Kind.isEnd : Token.Kind → Bool
  | .eof | .semi => true
  | _ => false

/-- How two runs part behind the tokens that they have in common. -/
structure Fork where
  /-- The first run has come to an end of its input. -/
  ends : Cursor → Prop
  /-- The second run comes to this place. -/
  second : Cursor
  /-- What the last of the tokens in common may be. -/
  last : Token.Kind → Prop
  /-- There are no comments. -/
  silent : Bool
  /-- Behind an end there is nothing else. -/
  ends_next : ∀ {c}, ends c → ends c.next
  ends_kind : ∀ {c}, ends c → c.current.kind.isEnd = true

variable {α β σ : Type} {f : Fork} {ts : List Token} {s s' t : Parsing}

theorem Fork.not_ends (h : s.current.kind.isEnd = false) : ¬ f.ends s.cursor := by
  intro hs
  have hkind : s.current.kind.isEnd = true := f.ends_kind hs
  rw [h] at hkind
  exact nomatch hkind

-- ============================================================ two states

namespace Parsing

/-- No comments wait, and none will come. -/
def Silent (s : Parsing) : Prop :=
  s.comments = [] ∧ (∀ l ∈ s.ahead.lexemes, l.comments = []) ∧ s.ahead.trailing = []

theorem Silent.next (h : s.Silent) : s.next.Silent := by
  obtain ⟨hcomments, hlexemes, htrailing⟩ := h
  unfold Parsing.next Token.Stream.next
  cases hl : s.ahead.lexemes with
  | nil => exact ⟨by simp [htrailing, hcomments], List.forall_mem_nil _, rfl⟩
  | cons l rest =>
    rw [hl, List.forall_mem_cons] at hlexemes
    exact ⟨by simp [hlexemes.1, hcomments], hlexemes.2, htrailing⟩

/-- In front of the same tokens, after which the first state has come to an
end of its input, and the second to its place. -/
structure Beside (f : Fork) (ts : List Token) (s t : Parsing) : Prop where
  first : ∃ e : Cursor, s.cursor.Takes ts e ∧ f.ends e
  second : t.cursor.Takes ts f.second
  last : ∀ u ∈ ts.getLast?, f.last u.kind
  previousEnd : t.previousEnd = s.previousEnd
  inHeader : t.inHeader = s.inHeader
  guardAllowed : t.guardAllowed = s.guardAllowed
  arena : t.arena = s.arena
  fueled : s.Fueled
  fueled' : t.Fueled
  silent : f.silent = true → s.Silent ∧ t.Silent

namespace Beside

theorem ends (h : s.Beside f [] t) : f.ends s.cursor := by
  obtain ⟨e, rfl, he⟩ := h.first
  exact he

theorem cursor_eq (h : s.Beside f [] t) : t.cursor = f.second := h.second

theorem ne_nil (h : s.Beside f ts t) (hs : ¬ f.ends s.cursor) : ts ≠ [] := by
  rintro rfl
  exact hs h.ends

variable {u : Token} {us : List Token}

theorem current_eq (h : s.Beside f (u :: us) t) : t.current = s.current := by
  obtain ⟨e, he, -⟩ := h.first
  exact h.second.1.trans he.1.symm

theorem current_ne_eof (h : s.Beside f (u :: us) t) : s.current.kind ≠ .eof := by
  obtain ⟨e, ⟨rfl, hu, -⟩, -⟩ := h.first
  exact hu

theorem next (h : s.Beside f (u :: us) t) : s.next.Beside f us t.next := by
  obtain ⟨e, ⟨-, -, he⟩, hends⟩ := h.first
  have hs := h.current_ne_eof
  have ht : t.current.kind ≠ .eof := by rwa [h.current_eq]
  refine ⟨⟨e, he, hends⟩, h.second.2.2, fun v hv => h.last v ?_, ?_, h.inHeader, h.guardAllowed,
    h.arena, h.fueled.passes (.next hs), h.fueled'.passes (.next ht), fun hf => ?_⟩
  · rw [List.getLast?_cons, Option.mem_def.mp hv]
    rfl
  · exact congrArg (·.span.stop) h.current_eq
  · exact (h.silent hf).imp Silent.next Silent.next

end Beside

end Parsing

-- =========================================================== nearsighted

/-- Beside a run that has not come to the end of its input there is another
to the same effect. -/
structure Parser.Nearsighted (f : Fork) (p : Parser α) : Prop where
  lost : ∀ {s x s'}, f.ends s.cursor → p s = .ok x s' → f.ends s'.cursor
  beside : ∀ {ts s t x s'}, s.Beside f ts t → p s = .ok x s' →
    f.ends s'.cursor ∨ ∃ us t', p t = .ok x t' ∧ s'.Beside f us t'

namespace Parser.Nearsighted

variable {p : Parser α} {u : α → Parser β}

/-- A parser that never succeeds. -/
theorem of_fails (h : ∀ s x s', p s ≠ .ok x s') : p.Nearsighted f :=
  ⟨fun _ hx => absurd hx (h _ _ _), fun _ hx => absurd hx (h _ _ _)⟩

/-- A parser that leaves the cursor alone. -/
theorem of_still {r : Parsing → α} {g : Parsing → Parsing}
    (hcursor : ∀ s, (g s).cursor = s.cursor)
    (h : ∀ u us s t, s.Beside f (u :: us) t → r t = r s ∧ (g s).Beside f (u :: us) (g t)) :
    Nearsighted f fun s => .ok (r s) (g s) := by
  refine ⟨fun hs hx => ?_, fun {ts s t x s'} hst hx => ?_⟩
  · cases hx
    rwa [hcursor]
  · cases hx
    cases ts with
    | nil => exact .inl (hcursor s ▸ hst.ends)
    | cons u us =>
      obtain ⟨hr, hg⟩ := h _ _ _ _ hst
      exact .inr ⟨u :: us, g t, by rw [hr], hg⟩

theorem pure (x : α) : (Pure.pure x : Parser α).Nearsighted f :=
  of_still (g := id) (fun _ => rfl) fun _ _ _ _ h => ⟨rfl, h⟩

theorem allowGuard (allowed : Bool) : (Parser.allowGuard allowed).Nearsighted f :=
  of_still (r := fun _ => ()) (g := fun s => { s with guardAllowed := allowed })
    (fun _ => rfl) fun _ _ _ _ h => ⟨rfl, { h with guardAllowed := rfl }⟩

theorem bind (hp : p.Nearsighted f) (hu : ∀ x, (u x).Nearsighted f) : (p >>= u).Nearsighted f := by
  refine ⟨fun hs hy => ?_, fun hst hy => ?_⟩
  · obtain ⟨x, s₁, hx, hy⟩ := bind_eq_ok.mp hy
    exact (hu x).lost (hp.lost hs hx) hy
  · obtain ⟨x, s₁, hx, hy⟩ := bind_eq_ok.mp hy
    rcases hp.beside hst hx with hends | ⟨us, t₁, ht₁, hst₁⟩
    · exact .inl ((hu x).lost hends hy)
    · rcases (hu x).beside hst₁ hy with hends | ⟨vs, t₂, ht₂, hst₂⟩
      · exact .inl hends
      · exact .inr ⟨vs, t₂, bind_eq_ok.mpr ⟨x, t₁, ht₁, ht₂⟩, hst₂⟩

theorem advance : Parser.advance.Nearsighted f := by
  refine ⟨fun hs hx => ?_, fun {ts s t x s'} hst hx => ?_⟩
  · cases hx
    exact f.ends_next hs
  · cases hx
    cases ts with
    | nil => exact .inl (f.ends_next hst.ends)
    | cons u us => exact .inr ⟨us, t.next, by rw [Parser.advance, hst.current_eq], hst.next⟩

/-- A parser that sets something else than the cursor for another, and puts
it back. -/
theorem restored (enter : Parsing → Parsing) (leave : Parsing → Parsing → Parsing)
    (hp : p.Nearsighted f)
    (hcursor : ∀ s s', (enter s).cursor = s.cursor ∧ (leave s s').cursor = s'.cursor)
    (henter : ∀ {ts s t}, s.Beside f ts t → (enter s).Beside f ts (enter t))
    (hleave : ∀ {ts us s t s' t'}, s.Beside f ts t → s'.Beside f us t' →
      (leave s s').Beside f us (leave t t')) :
    Nearsighted f fun s => restore (leave s) (p (enter s)) := by
  have inner : ∀ {s y s'}, restore (leave s) (p (enter s)) = .ok y s' →
      ∃ s₁, p (enter s) = .ok y s₁ ∧ leave s s₁ = s' := by
    intro s y s' hy
    cases hx : p (enter s) with
    | error e s₁ => exact nomatch (hx ▸ hy : restore (leave s) (.error e s₁) = .ok y s')
    | ok x s₁ =>
      rw [hx] at hy
      cases hy
      exact ⟨s₁, rfl, rfl⟩
  refine ⟨fun {s y s'} hs hy => ?_, fun {ts s t y s'} hst hy => ?_⟩
  · obtain ⟨s₁, hx, rfl⟩ := inner hy
    rw [(hcursor s s₁).2]
    refine hp.lost ?_ hx
    rwa [(hcursor s s).1]
  · obtain ⟨s₁, hx, rfl⟩ := inner hy
    rw [(hcursor s s₁).2]
    rcases hp.beside (henter hst) hx with hends | ⟨us, t₁, ht₁, h₁⟩
    · exact .inl hends
    · exact .inr ⟨us, leave t t₁, by rw [ht₁]; rfl, hleave hst h₁⟩

theorem during {name : String} (hp : p.Nearsighted f) : (Parser.during name p).Nearsighted f :=
  restored (fun s => { s with trace := name :: s.trace })
    (fun s s' => { s' with trace := s.trace }) hp (fun _ _ => ⟨rfl, rfl⟩) (fun h => { h with })
    fun _ h => { h with }

theorem unrestricted (hp : p.Nearsighted f) : (Parser.unrestricted p).Nearsighted f :=
  restored (fun s => { s with inHeader := false, guardAllowed := false })
    (fun s s' => { s' with inHeader := s.inHeader, guardAllowed := s.guardAllowed })
    hp (fun _ _ => ⟨rfl, rfl⟩) (fun h => { h with inHeader := rfl, guardAllowed := rfl })
    fun h h' => { h' with inHeader := h.inHeader, guardAllowed := h.guardAllowed }

theorem asHeader (hp : p.Nearsighted f) : (Parser.asHeader p).Nearsighted f :=
  restored (fun s => { s with inHeader := true })
    (fun s s' => { s' with inHeader := s.inHeader })
    hp (fun _ _ => ⟨rfl, rfl⟩) (fun h => { h with inHeader := rfl })
    fun h h' => { h' with inHeader := h.inHeader }

/-- Whatever is added to the arenas, it is the same. -/
theorem building {add : Arena → α × Arena} : (Parser.building add).Nearsighted f := by
  refine of_still (r := fun s => (add s.arena).1)
    (g := fun s => { s with arena := (add s.arena).2 }) (fun _ => rfl) fun _ _ _ _ h => ?_
  exact ⟨by rw [h.arena], { h with arena := by rw [h.arena] }⟩

theorem recording {add : Arena → Arena} : (Parser.recording add).Nearsighted f :=
  (building : (Parser.building fun a => ((), add a)).Nearsighted f)

/-- The counts of the two runs need not be the same, since neither cuts the
repetition short. -/
theorem repeating {turn : σ → Parser (Turn σ)} (hadvances : Advances turn)
    (hturn : ∀ x, (turn x).Nearsighted f) (x : σ) : (Parser.repeating turn x).Nearsighted f := by
  have hturns : ∀ n x, (takeTurns turn n x).Nearsighted f := by
    intro n
    induction n with
    | zero => exact fun x => pure x
    | succ n ih =>
      intro x
      refine bind (hturn x) fun next => ?_
      cases next with
      | again x' => exact ih x'
      | stop x' => exact pure x'
  refine ⟨fun {s y s'} hs hy => (hturns s.turns x).lost hs hy, fun {ts s t y s'} hst hy => ?_⟩
  have hs : s.cursor.left < s.turns := hst.fueled
  have ht : t.cursor.left < t.turns := hst.fueled'
  have hy : takeTurns turn (s.turns + t.turns) x s = .ok y s' := by
    rw [← hadvances.takeTurns_eq hst.fueled hs (by omega)]
    exact hy
  rcases (hturns _ x).beside hst hy with hends | ⟨us, t', ht', hst'⟩
  · exact .inl hends
  · refine .inr ⟨us, t', ?_, hst'⟩
    rwa [← hadvances.takeTurns_eq hst.fueled' ht (by omega)] at ht'

end Parser.Nearsighted

theorem Composed.nearsighted {parse : SubParser} {p : Parser α} (hsound : parse.Sound)
    (hparse : ∀ {α : Type} (p : Production α), p.isPart = true → (parse p).Nearsighted f)
    (hp : Composed parse p) : p.Nearsighted f := by
  induction hp with
  | look hf =>
    refine .of_still (g := id) (fun _ => rfl) fun _ _ _ _ h => ⟨?_, h⟩
    exact hf _ _ h.current_eq h.previousEnd h.inHeader h.guardAllowed
  | advance => exact .advance
  | disallowGuard => exact .allowGuard false
  | pure x => exact .pure x
  | throw e => exact .of_fails fun _ _ _ h => nomatch h
  | unexpectedAt sp wanted got => exact .of_fails fun _ _ _ => unexpectedAt_ne_ok
  | building => exact .building
  | bind _ _ ihp ihu => exact .bind ihp ihu
  | unrestricted _ ih => exact .unrestricted ih
  | repeating loop _ x ih => exact .repeating (loop.advances hsound) ih x
  | production p hp => exact hparse p hp

theorem Grammar.parse_nearsighted {p : Production α} (hp : p.isPart = true) (depth : Nat) :
    (Grammar.parse depth p).Nearsighted f := by
  induction depth generalizing α with
  | zero => exact .of_fails fun _ _ _ h => nomatch h
  | succ depth ih =>
    rw [Grammar.parse_succ]
    exact .during ((Production.body_composed hp).nearsighted (parse_sound depth) fun _ hp => ih hp)

end GoSource
