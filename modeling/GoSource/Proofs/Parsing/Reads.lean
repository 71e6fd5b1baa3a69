/-
What a parser reads when it succeeds.

`p.Reads m s Q` says: started at `s` in mode `m`, the parser `p` either
fails or has passed over some tokens, about which `Q` holds together with
the result and the state reached. Whether it fails is not asked.

The rules follow the text of a production from top to bottom. Each takes
the first action off a sequence and leaves the rest to be shown, with the
tokens of that action put in front of those the rest reads; so what is
left in the end is a statement about the whole list of tokens. A test of
the current token gives two goals, one for each answer.

# Repetitions

A repetition is proved by an invariant between the tokens passed so far
and what has been built from them. Every turn that goes on takes a token,
and there are more turns than tokens (`Parsing.Fueled`): so it is always a
turn that ends a repetition, and never the count (`Reads.repeating`).
-/
import GoSource.Proofs.Parsing.Passage
import GoSource.Proofs.Running.Restored

namespace GoSource.Parser

variable {α β σ : Type} {m : Mode} {s s' : Parsing}

theorem bind_eq_ok {p : Parser α} {f : α → Parser β} {b : β} :
    (p >>= f) s = .ok b s' ↔ ∃ a s₁, p s = .ok a s₁ ∧ f a s₁ = .ok b s' := by
  constructor
  · intro h
    simp only [bind, EStateM.bind] at h
    split at h
    · next a s₁ ha => exact ⟨a, s₁, ha, h⟩
    · cases h
  · rintro ⟨a, s₁, ha, h⟩
    simp only [bind, EStateM.bind, ha]
    exact h

theorem map_eq_ok {p : Parser α} {g : α → β} {b : β} :
    (g <$> p) s = .ok b s' ↔ ∃ a, p s = .ok a s' ∧ g a = b := by
  rw [map_eq_pure_bind, bind_eq_ok]
  constructor
  · rintro ⟨a, s₁, ha, hb⟩
    cases hb
    exact ⟨a, ha, rfl⟩
  · rintro ⟨a, ha, rfl⟩
    exact ⟨a, s', ha, rfl⟩

theorem unexpectedAt_ne_ok {span : Span} {wanted got : String} {a : α} :
    (unexpectedAt span wanted got : Parser α) s ≠ .ok a s' := by
  intro h
  obtain ⟨_, _, -, h⟩ := bind_eq_ok.mp h
  cases h

theorem unexpected_ne_ok {wanted : String} {a : α} :
    (unexpected wanted : Parser α) s ≠ .ok a s' := by
  intro h
  obtain ⟨t, s₁, -, h⟩ := bind_eq_ok.mp h
  split at h
  · cases h
  · exact unexpectedAt_ne_ok h

theorem expect_eq_ok {k : Token.Kind} {sp : Span} (h : expect k s = .ok sp s') :
    s.current.kind = k := by
  obtain ⟨b, s₁, hb, h⟩ := bind_eq_ok.mp h
  cases hb
  split at h
  · next hk => exact of_decide_eq_true hk
  · exact absurd h unexpected_ne_ok

/-- If `p` succeeds from `s`, it has read tokens of which `Q` holds. -/
def Reads (p : Parser α) (m : Mode) (s : Parsing) (Q : List Token → α → Parsing → Prop) :
    Prop :=
  s.Ready m → ∀ a s', p s = .ok a s' → ∃ ts, s.Passes ts s' ∧ Q ts a s'

namespace Reads

variable {p : Parser α} {f : α → Parser β} {P : List Token → α → Parsing → Prop}
  {Q : List Token → β → Parsing → Prop}

-- ============================================================= sequence

theorem imp {P' : List Token → α → Parsing → Prop} (hp : p.Reads m s P)
    (h : ∀ ts a s', P ts a s' → P' ts a s') : p.Reads m s P' := by
  intro hm a s' ha
  obtain ⟨ts, hpass, hP⟩ := hp hm a s' ha
  exact ⟨ts, hpass, h ts a s' hP⟩

/-- The passage as a whole may be used to show what holds of it. -/
theorem passing (hp : p.Reads m s fun ts a s' => s.Passes ts s' → P ts a s') :
    p.Reads m s P := by
  intro hm a s' ha
  obtain ⟨ts, hpass, hP⟩ := hp hm a s' ha
  exact ⟨ts, hpass, hP hpass⟩

theorem pure {a : α} (h : P [] a s) : (Pure.pure a : Parser α).Reads m s P := by
  intro _ a' s' ha
  cases ha
  exact ⟨[], .refl s, h⟩

theorem bind (hp : p.Reads m s P)
    (hf : ∀ ts a s', P ts a s' → (f a).Reads m s' fun us b s'' => Q (ts ++ us) b s'') :
    (p >>= f).Reads m s Q := by
  intro hm b s'' hb
  obtain ⟨a, s', ha, hb⟩ := bind_eq_ok.mp hb
  obtain ⟨ts, hts, hP⟩ := hp hm a s' ha
  obtain ⟨us, hus, hQ⟩ := hf ts a s' hP (hm.passes hts) b s'' hb
  exact ⟨ts ++ us, hts.trans hus, hQ⟩

/-- What has been passed so far may be used later on. -/
theorem bind_passing (hp : p.Reads m s P)
    (hf : ∀ ts a s', s.Passes ts s' → P ts a s' →
      (f a).Reads m s' fun us b s'' => Q (ts ++ us) b s'') : (p >>= f).Reads m s Q :=
  bind (passing (P := fun ts a s' => s.Passes ts s' ∧ P ts a s')
    (hp.imp fun _ _ _ h hpass => ⟨hpass, h⟩)) fun ts a s' h => hf ts a s' h.1 h.2

theorem bind_pure {a : α} (h : (f a).Reads m s Q) : ((Pure.pure a : Parser α) >>= f).Reads m s Q :=
  h

theorem map {g : α → β} (hp : p.Reads m s fun ts a s' => Q ts (g a) s') :
    (g <$> p).Reads m s Q := by
  intro hm b s' hb
  rw [map_eq_pure_bind] at hb
  obtain ⟨a, s₁, ha, hb⟩ := bind_eq_ok.mp hb
  cases hb
  exact hp hm a _ ha

theorem bind_map {γ : Type} {g : γ → α} {q : Parser γ} {R : List Token → γ → Parsing → Prop}
    (hq : q.Reads m s R)
    (hf : ∀ ts c s', R ts c s' → (f (g c)).Reads m s' fun us b s'' => Q (ts ++ us) b s'') :
    ((g <$> q) >>= f).Reads m s Q :=
  bind (P := fun ts a s' => ∃ c, a = g c ∧ R ts c s') (map (hq.imp fun _ c _ h => ⟨c, rfl, h⟩))
    fun ts _ s' ⟨c, hc, h⟩ => hc ▸ hf ts c s' h

theorem throw {e : ParseError} : (MonadExcept.throw e : Parser α).Reads m s P :=
  fun _ _ _ h => nomatch h

-- ====================================================== looking, no more

theorem bind_kind {f : Token.Kind → Parser β} (h : (f s.current.kind).Reads m s Q) :
    (kind >>= f).Reads m s Q := h

theorem bind_current {f : Token → Parser β} (h : (f s.current).Reads m s Q) :
    (current >>= f).Reads m s Q := h

theorem bind_here {f : Location → Parser β} (h : (f s.current.span.start).Reads m s Q) :
    (here >>= f).Reads m s Q := h

theorem bind_previousEnd {f : Location → Parser β} (h : (f s.previousEnd).Reads m s Q) :
    (previousEnd >>= f).Reads m s Q := h

theorem bind_spanFrom {start : Location} {f : Span → Parser β}
    (h : (f ⟨start, s.previousEnd⟩).Reads m s Q) : (spanFrom start >>= f).Reads m s Q := h

/-- A header is being read exactly if the mode says so. -/
theorem bind_inHeader {f : Bool → Parser β} (h : (f m.inHeader).Reads m s Q) :
    (inHeader >>= f).Reads m s Q := by
  intro hm
  have h := h hm
  rw [← hm.inHeader] at h
  exact h

theorem ifGuardAllowed {p q : Parser α}
    (allowed : s.guardAllowed = true → m.guard = true → p.Reads m s P) (not : q.Reads m s P) :
    (guardAllowed >>= fun b => if b = true then p else q).Reads m s P := by
  intro hm a s' ha
  obtain ⟨b, s₁, hb, ha⟩ := bind_eq_ok.mp ha
  cases hb
  split at ha
  · next hg => exact allowed hg (hm.guard hg) hm a s' ha
  · exact not hm a s' ha

theorem bind_isAt {k : Token.Kind} {f : Bool → Parser β}
    (yes : s.current.kind = k → (f true).Reads m s Q)
    (no : s.current.kind ≠ k → (f false).Reads m s Q) : (isAt k >>= f).Reads m s Q := by
  have h : (f (decide (s.current.kind = k))).Reads m s Q := by
    by_cases hk : s.current.kind = k
    · rw [decide_eq_true hk]
      exact yes hk
    · rw [decide_eq_false hk]
      exact no hk
  exact h

/-- A choice by the current token. -/
theorem ifAt {k : Token.Kind} {p q : Parser α} {P : List Token → α → Parsing → Prop}
    (yes : s.current.kind = k → p.Reads m s P) (no : s.current.kind ≠ k → q.Reads m s P) :
    (isAt k >>= fun b => if b = true then p else q).Reads m s P :=
  bind_isAt (fun h => by rw [if_pos rfl]; exact yes h)
    fun h => by rw [if_neg Bool.false_ne_true]; exact no h

theorem unexpected {wanted : String} : (unexpected wanted : Parser α).Reads m s P :=
  fun _ _ _ h => absurd h unexpected_ne_ok

theorem bind_unexpected {wanted : String} :
    ((Parser.unexpected wanted : Parser α) >>= f).Reads m s Q :=
  bind (P := fun _ _ _ => False) unexpected fun _ _ _ h => h.elim

theorem unexpectedAt {span : Span} {wanted got : String} :
    (unexpectedAt span wanted got : Parser α).Reads m s P :=
  fun _ _ _ h => absurd h unexpectedAt_ne_ok

-- ======================================================== single tokens

theorem bind_advance {f : Token → Parser β} (hk : s.current.kind ≠ .eof)
    (h : (f s.current).Reads m s.next fun us b s' => Q (s.current :: us) b s') :
    (advance >>= f).Reads m s Q := by
  intro hm b s' hb
  obtain ⟨us, hus, hQ⟩ := h (hm.passes (.next hk)) b s' hb
  exact ⟨s.current :: us, (Parsing.Passes.next hk).trans hus, hQ⟩

theorem eat {k : Token.Kind} {P : List Token → Option Span → Parsing → Prop} (hk : k ≠ .eof)
    (yes : s.current.kind = k → P [s.current] (some s.current.span) s.next)
    (no : s.current.kind ≠ k → P [] none s) : (Parser.eat k).Reads m s P := by
  refine ifAt (fun h => ?_) fun h => ?_
  · exact bind_advance (h ▸ hk) (pure (yes h))
  · exact pure (no h)

theorem bind_eat {k : Token.Kind} {f : Option Span → Parser β} (hk : k ≠ .eof)
    (yes : s.current.kind = k → (f (some s.current.span)).Reads m s.next
      fun us b s' => Q (s.current :: us) b s')
    (no : s.current.kind ≠ k → (f none).Reads m s Q) : (Parser.eat k >>= f).Reads m s Q := by
  exact bind (P := fun ts o s' => (f o).Reads m s' fun us b s'' => Q (ts ++ us) b s'')
    (eat hk yes no) fun _ _ _ h => h

theorem expect {k : Token.Kind} {P : List Token → Span → Parsing → Prop} (hk : k ≠ .eof)
    (yes : s.current.kind = k → P [s.current] s.current.span s.next) :
    (Parser.expect k).Reads m s P := by
  refine ifAt (fun h => ?_) fun _ => unexpected
  exact bind_advance (h ▸ hk) (pure (yes h))

theorem bind_expect {k : Token.Kind} {f : Span → Parser β} (hk : k ≠ .eof)
    (h : s.current.kind = k → (f s.current.span).Reads m s.next
      fun us b s' => Q (s.current :: us) b s') : (Parser.expect k >>= f).Reads m s Q :=
  bind (P := fun ts sp s' => (f sp).Reads m s' fun us b s'' => Q (ts ++ us) b s'')
    (expect hk h) fun _ _ _ h => h

/-- A choice by the current token after which both ways meet. -/
theorem joinAt {k : Token.Kind} {p q : Parser α} (P : List Token → α → Parsing → Prop)
    (yes : s.current.kind = k → p.Reads m s P) (no : s.current.kind ≠ k → q.Reads m s P)
    (rest : ∀ ts a s', P ts a s' → (f a).Reads m s' fun us b s'' => Q (ts ++ us) b s'') :
    (isAt k >>= fun b => if b = true then p >>= f else q >>= f).Reads m s Q :=
  ifAt (fun h => bind (yes h) rest) fun h => bind (no h) rest

/-- A token that may be taken, after which both ways meet. -/
theorem joinEat {k : Token.Kind} {p : Span → Parser α} {q : Parser α}
    (P : List Token → α → Parsing → Prop) (hk : k ≠ .eof)
    (yes : s.current.kind = k →
      (p s.current.span).Reads m s.next fun ts a s' => P (s.current :: ts) a s')
    (no : s.current.kind ≠ k → q.Reads m s P)
    (rest : ∀ ts a s', P ts a s' → (f a).Reads m s' fun us b s'' => Q (ts ++ us) b s'') :
    (Parser.eat k >>= fun o =>
      match o with
      | some sp => p sp >>= f
      | none => q >>= f).Reads m s Q :=
  bind_eat hk (fun h => bind (yes h) fun ts a s' => rest (s.current :: ts) a s')
    fun h => bind (no h) rest

-- ================================================================ modes

theorem during {name : String} (h : p.Reads m { s with trace := name :: s.trace } fun ts a s' =>
    P ts a { s' with trace := s.trace }) : (Parser.during name p).Reads m s P := by
  intro hm a s' ha
  simp only [Parser.during] at ha
  split at ha
  · next b s₁ hb =>
    cases ha
    obtain ⟨ts, hts, hP⟩ := h ⟨hm.inHeader, hm.guard, hm.fueled⟩ _ _ hb
    exact ⟨ts, ⟨hts.takes, hts.inHeader, hts.guard, hts.turns⟩, hP⟩
  · cases ha

/-- Between brackets everything is read in the mode for the inside. -/
theorem unrestricted
    (h : p.Reads .inside { s with inHeader := false, guardAllowed := false } fun ts a s' =>
      P ts a { s' with inHeader := s.inHeader, guardAllowed := s.guardAllowed }) :
    (Parser.unrestricted p).Reads m s P := by
  intro hm a s' ha
  simp only [Parser.unrestricted] at ha
  split at ha
  · next b s₁ hb =>
    cases ha
    obtain ⟨ts, hts, hP⟩ := h ⟨rfl, fun h => (nomatch h), hm.fueled⟩ _ _ hb
    exact ⟨ts, ⟨hts.takes, rfl, id, hts.turns⟩, hP⟩
  · cases ha

/-- What holds of the tokens and the result alone holds outside as well. -/
theorem inside {P : List Token → α → Prop}
    (h : ∀ s, p.Reads .inside s fun ts a _ => P ts a) :
    (Parser.unrestricted p).Reads m s fun ts a _ => P ts a :=
  unrestricted (h _)

theorem asHeader (h : p.Reads m.header { s with inHeader := true } fun ts a s' =>
    P ts a { s' with inHeader := s.inHeader }) : (Parser.asHeader p).Reads m s P := by
  intro hm a s' ha
  simp only [Parser.asHeader] at ha
  split at ha
  · next b s₁ hb =>
    cases ha
    obtain ⟨ts, hts, hP⟩ := h ⟨rfl, hm.guard, hm.fueled⟩ _ _ hb
    exact ⟨ts, ⟨hts.takes, rfl, hts.guard, hts.turns⟩, hP⟩
  · cases ha

/-- What is allowed may be taken away. -/
theorem bind_disallowGuard {f : Unit → Parser β}
    (h : (f ()).Reads m { s with guardAllowed := false } Q) :
    (allowGuard false >>= f).Reads m s Q := by
  intro hm b s' hb
  obtain ⟨us, hus, hQ⟩ := h ⟨hm.inHeader, fun h => (nomatch h), hm.fueled⟩ b s' hb
  exact ⟨us, ⟨hus.takes, hus.inHeader, fun h => (nomatch hus.guard h), hus.turns⟩, hQ⟩

-- ================================================================ arena

variable {form : α} {span : Span} {add : Arena → Node α × Arena}

/-- A new node has the form and the span it is made from, and some
number. -/
theorem new {P : List Token → Node α → Parsing → Prop}
    (hadd : ∀ a, ∃ i, (add a).1 = ⟨i, span, form⟩)
    (h : ∀ i arena, P [] ⟨i, span, form⟩ { s with arena }) : (building add).Reads m s P := by
  intro _ n s' hn
  cases hn
  obtain ⟨i, hi⟩ := hadd s.arena
  refine ⟨[], ⟨rfl, rfl, id, rfl⟩, ?_⟩
  rw [hi]
  exact h i _

theorem bind_new {f : Node α → Parser β} (hadd : ∀ a, ∃ i, (add a).1 = ⟨i, span, form⟩)
    (h : ∀ i arena, (f ⟨i, span, form⟩).Reads m { s with arena } Q) :
    (building add >>= f).Reads m s Q :=
  bind (P := fun ts n s' => ts = [] ∧ (f n).Reads m s' Q)
    (new hadd fun i arena => ⟨rfl, h i arena⟩) fun _ _ _ ⟨hts, h⟩ => hts ▸ h

theorem bind_recording {add : Arena → Arena} {f : Unit → Parser β}
    (h : ∀ arena, (f ()).Reads m { s with arena } Q) :
    (recording add >>= f).Reads m s Q := by
  intro hm b s' hb
  obtain ⟨us, hus, hQ⟩ := h (add s.arena) ⟨hm.inHeader, hm.guard, hm.fueled⟩ b s' hb
  exact ⟨us, ⟨hus.takes, hus.inHeader, hus.guard, hus.turns⟩, hQ⟩

/-- Comments have no part in what is read. -/
theorem bind_docLines {start : Location} {f : List String → Parser β}
    (h : ∀ lines, (f lines).Reads m { s with comments := [] } Q) :
    (docLines start >>= f).Reads m s Q := by
  intro hm b s' hb
  obtain ⟨us, hus, hQ⟩ := h _ ⟨hm.inHeader, hm.guard, hm.fueled⟩ b s' hb
  exact ⟨us, ⟨hus.takes, hus.inHeader, hus.guard, hus.turns⟩, hQ⟩

-- ============================================================ repetition

/-- What is to be shown of a turn: if it goes on, it has taken a token and
keeps the invariant; if it stops, what was wanted holds. -/
def TurnKeeps (I Q : List Token → σ → Parsing → Prop) (ts : List Token) :
    List Token → Turn σ → Parsing → Prop
  | us, .again b, s' => us ≠ [] ∧ I (ts ++ us) b s'
  | us, .stop b, s' => Q (ts ++ us) b s'

/-- A turn that stops where it began. -/
theorem stop {I Q : List Token → σ → Parsing → Prop} {ts : List Token} {b : σ} (h : Q ts b s) :
    (Pure.pure (.stop b) : Parser (Turn σ)).Reads m s (TurnKeeps I Q ts) :=
  pure (by rwa [TurnKeeps, List.append_nil])

theorem repeating {turn : σ → Parser (Turn σ)} {a : σ} {I Q : List Token → σ → Parsing → Prop}
    (init : I [] a s)
    (step : ∀ ts b s', I ts b s' → (turn b).Reads m s' (TurnKeeps I Q ts)) :
    (Parser.repeating turn a).Reads m s Q := by
  intro hm
  -- The turns left over stay ahead of the tokens left over.
  suffices h : ∀ n ts b s', I ts b s' → s.Passes ts s' → s'.cursor.left < n → ∀ c s'',
      takeTurns turn n b s' = .ok c s'' → ∃ us, s.Passes us s'' ∧ Q us c s'' from
    h s.turns [] a s init (.refl s) hm.fueled
  intro n
  induction n with
  | zero => intro ts b s' _ _ hlt; omega
  | succ n ih =>
    intro ts b s' hI hts hlt c s'' hc
    rw [takeTurns] at hc
    obtain ⟨r, s₁, hr, hc⟩ := bind_eq_ok.mp hc
    obtain ⟨us, hus, hkeep⟩ := step ts b s' hI (hm.passes hts) r s₁ hr
    cases r with
    | again b' =>
      have hle := hus.takes.left_add_length
      have hpos := List.length_pos_iff.mpr hkeep.1
      exact ih (ts ++ us) b' s₁ hkeep.2 (hts.trans hus) (by omega) c s'' hc
    | stop b' =>
      cases hc
      exact ⟨ts ++ us, hts.trans hus, hkeep⟩

end Reads

end GoSource.Parser
