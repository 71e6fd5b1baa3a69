/-
What a parser does on given tokens.

`p.Accepts ts F R` says: wherever the next tokens are exactly `ts` and the
kind of the one after them is one of `F`, the parser `p` succeeds, takes
these tokens and no more, and returns something of which `R` holds. It is to
tokens what `Rereads` is to slots, and its rules are used in the same way;
but a token is known in full, so what is returned can be as well, with the
spans. All this is between brackets, where no mode restricts anything.

A repetition goes on as long as its turns say (`Accepts.repeating_again`),
because it is never cut short.
-/
import GoSource.Proofs.Running.Turns

namespace GoSource.Parser

variable {α β σ : Type} {ts us : List Token} {t : Token} {k : Token.Kind}
  {F G : Token.Kind → Prop}

/-- The kind of what comes first: that of the first token, or one of those
that may follow if there is none. -/
def Heads : List Token → (Token.Kind → Prop) → Token.Kind → Prop
  | [], F => F
  | t :: _, _ => (· = t.kind)

theorem heads_of_takes {s : Parsing} {d : Cursor} (h : s.cursor.Takes ts d)
    (hF : F d.current.kind) : Heads ts F s.current.kind := by
  cases ts with
  | nil =>
    rw [← Cursor.takes_nil.mp h] at hF
    exact hF
  | cons t ts => exact congrArg Token.kind h.1

/-- On the tokens, with one of `F` behind them, the parser takes them and
returns something of which `R` holds. -/
def Accepts (p : Parser α) (ts : List Token) (F : Token.Kind → Prop) (R : α → Prop) : Prop :=
  ∀ s d, s.Ready .inside → s.cursor.Takes ts d → F d.current.kind →
    ∃ a s', p s = .ok a s' ∧ s'.cursor = d ∧ s'.Ready .inside ∧ R a

namespace Accepts

variable {p q : Parser α} {f : α → Parser β} {P : α → Prop} {Q : β → Prop}

theorem imp {P' : α → Prop} (hp : p.Accepts ts G P) (hF : ∀ k, F k → G k)
    (hP : ∀ a, P a → P' a) : p.Accepts ts F P' := by
  intro s d hs hd hend
  obtain ⟨a, s', ha, hcursor, hs', hPa⟩ := hp s d hs hd (hF _ hend)
  exact ⟨a, s', ha, hcursor, hs', hP a hPa⟩

-- ============================================================= sequence

theorem pure {a : α} (h : P a) : (Pure.pure a : Parser α).Accepts [] F P :=
  fun s _ hs hd _ => ⟨a, s, rfl, hd, hs, h⟩

/-- What follows the first parser is what the second begins with. -/
theorem bind (hp : p.Accepts ts G P) (link : ∀ k, Heads us F k → G k)
    (hf : ∀ a, P a → (f a).Accepts us F Q) : (p >>= f).Accepts (ts ++ us) F Q := by
  intro s e hs he hend
  obtain ⟨d, hd, he⟩ := Cursor.takes_append.mp he
  obtain ⟨a, s₁, ha, rfl, hs₁, hPa⟩ := hp s d hs hd <| link _ <| by
    cases us with
    | nil =>
      rw [Cursor.takes_nil.mp he]
      exact hend
    | cons u us => exact congrArg Token.kind he.1
  obtain ⟨b, s₂, hb, hpost⟩ := hf a hPa s₁ e hs₁ he hend
  exact ⟨b, s₂, bind_eq_ok.mpr ⟨a, s₁, ha, hb⟩, hpost⟩

/-- A parser that takes the last of the tokens. -/
theorem bind_last (hp : p.Accepts ts F P) (hf : ∀ a, P a → (f a).Accepts [] F Q) :
    (p >>= f).Accepts ts F Q := by
  rw [← List.append_nil ts]
  exact bind hp (fun _ h => h) hf

/-- A parser that takes the first of the tokens, whatever follows. -/
theorem bind_first (hp : p.Accepts [t] (fun _ => True) P)
    (hf : ∀ a, P a → (f a).Accepts ts F Q) : (p >>= f).Accepts (t :: ts) F Q :=
  bind hp (fun _ _ => trivial) hf

/-- A parser that takes nothing. -/
theorem bind_none (hp : p.Accepts [] G P) (link : ∀ k, Heads ts F k → G k)
    (hf : ∀ a, P a → (f a).Accepts ts F Q) : (p >>= f).Accepts ts F Q :=
  bind hp link hf

/-- A parser that takes nothing, whatever follows. -/
theorem bind_taking_none (hp : p.Accepts [] (fun _ => True) P)
    (hf : ∀ a, P a → (f a).Accepts ts F Q) : (p >>= f).Accepts ts F Q :=
  bind_none hp (fun _ _ => trivial) hf

theorem bind_pure {a : α} (hf : (f a).Accepts ts F Q) :
    ((Pure.pure a : Parser α) >>= f).Accepts ts F Q := hf

theorem map {g : α → β} (hp : p.Accepts ts F fun a => Q (g a)) : (g <$> p).Accepts ts F Q := by
  rw [map_eq_pure_bind]
  exact bind_last hp fun _ h => pure h

-- ======================================================= looking, no more

theorem bind_kind {f : Token.Kind → Parser β}
    (hf : ∀ k, Heads ts F k → (f k).Accepts ts F Q) : (kind >>= f).Accepts ts F Q :=
  fun s d hs hd hend => hf s.current.kind (heads_of_takes hd hend) s d hs hd hend

theorem bind_isAt {f : Bool → Parser β}
    (hf : ∀ k', Heads ts F k' → (f (decide (k' = k))).Accepts ts F Q) :
    (isAt k >>= f).Accepts ts F Q :=
  bind_kind (f := fun k' => f (decide (k' = k))) hf

theorem ifAt (hk : ∀ k', Heads ts F k' → k' = k) (hp : p.Accepts ts F P) :
    (isAt k >>= fun b => if b = true then p else q).Accepts ts F P := by
  refine bind_isAt fun k' hk' => ?_
  rwa [if_pos (decide_eq_true (hk k' hk'))]

theorem ifNotAt (hk : ∀ k', Heads ts F k' → k' ≠ k) (hq : q.Accepts ts F P) :
    (isAt k >>= fun b => if b = true then p else q).Accepts ts F P := by
  refine bind_isAt fun k' hk' => ?_
  rwa [if_neg fun h => hk k' hk' (of_decide_eq_true h)]

theorem bind_here {f : Location → Parser β} (hf : ∀ l, (f l).Accepts ts F Q) :
    (here >>= f).Accepts ts F Q :=
  fun s => hf s.current.span.start s

theorem bind_spanFrom {start : Location} {f : Span → Parser β}
    (hf : ∀ sp, (f sp).Accepts ts F Q) : (spanFrom start >>= f).Accepts ts F Q :=
  fun s => hf ⟨start, s.previousEnd⟩ s

/-- A span that ends with the token just taken. -/
theorem bind_spanFrom_last {start : Location} {f : α → Span → Parser β} (hne : ts ≠ [])
    (hp : p.Accepts ts F P)
    (hf : ∀ a, P a → (f a ⟨start, (ts.getLast hne).span.stop⟩).Accepts [] F Q) :
    (p >>= fun a => spanFrom start >>= f a).Accepts ts F Q := by
  intro s d hs hd hend
  obtain ⟨a, s₁, ha, hcursor, hs₁, hPa⟩ := hp s d hs hd hend
  obtain ⟨b, s₂, hb, hpost⟩ := hf a hPa s₁ d hs₁ hcursor hend
  refine ⟨b, s₂, bind_eq_ok.mpr ⟨a, s₁, ha, ?_⟩, hpost⟩
  have hstop : s₁.previousEnd = (ts.getLast hne).span.stop := by
    rw [← hd.previousEnd hne, ← hcursor]
    rfl
  rw [← hstop] at hb
  exact hb

-- ======================================================== single tokens

theorem bind_advance {f : Token → Parser β} (hf : (f t).Accepts ts F Q) :
    (advance >>= f).Accepts (t :: ts) F Q := by
  rintro s d hs ⟨rfl, ht, hd⟩ hend
  exact hf s.next d (hs.passes (.next ht)) hd hend

theorem bind_expect {f : Span → Parser β} (hk : t.kind = k)
    (hf : (f t.span).Accepts ts F Q) : (expect k >>= f).Accepts (t :: ts) F Q := by
  refine bind_first (P := (· = t.span)) ?_ ?_
  · exact ifAt (fun _ h => h.trans hk) (bind_advance (pure rfl))
  · rintro _ rfl
    exact hf

theorem bind_eat {f : Option Span → Parser β} (hk : t.kind = k)
    (hf : (f (some t.span)).Accepts ts F Q) : (eat k >>= f).Accepts (t :: ts) F Q := by
  refine bind_first (P := (· = some t.span)) ?_ ?_
  · exact ifAt (fun _ h => h.trans hk) (bind_advance (pure rfl))
  · rintro _ rfl
    exact hf

theorem bind_eat_none {f : Option Span → Parser β} (hk : ∀ k', Heads ts F k' → k' ≠ k)
    (hf : (f none).Accepts ts F Q) : (eat k >>= f).Accepts ts F Q := by
  refine bind_none (G := (· ≠ k)) (P := (· = none)) (ifNotAt (fun _ h => h) (pure rfl)) hk ?_
  rintro _ rfl
  exact hf

/-- A comma, say, that may be missing. -/
theorem eat_possibly (hts : Possibly k ts) (hk : ∀ k', F k' → k' ≠ k) :
    (eat k).Accepts ts F fun _ => True := by
  obtain rfl | ⟨t, ht, rfl⟩ := hts
  · exact ifNotAt hk (pure trivial)
  · exact ifAt (fun _ h => h.trans ht) (bind_advance (pure trivial))

-- ================================================================ arena

theorem building {add : Arena → α × Arena} (h : ∀ arena, P (add arena).1) :
    (Parser.building add).Accepts [] F P :=
  fun s _ hs hd _ => ⟨(add s.arena).1, { s with arena := (add s.arena).2 }, rfl, hd,
    ⟨hs.inHeader, hs.guard, hs.fueled⟩, h s.arena⟩

theorem recording {add : Arena → Arena} : (Parser.recording add).Accepts [] F fun _ => True :=
  (building fun _ => trivial :
    (Parser.building fun a => ((), add a)).Accepts [] F fun _ => True)

theorem ident (hk : t.kind = .ident) : ident.Accepts [t] F (· = ⟨t.text, t.span⟩) :=
  ifAt (fun _ h => h.trans hk) (bind_advance (bind_taking_none recording fun _ _ => pure rfl))

-- ================================================================ modes

/-- What is between brackets may stand anywhere. -/
theorem unrestricted {s : Parsing} {d : Cursor} (hp : p.Accepts ts F P) (hs : s.Fueled)
    (hd : s.cursor.Takes ts d) (hend : F d.current.kind) :
    ∃ a s', Parser.unrestricted p s = .ok a s' ∧ s'.cursor = d ∧ P a := by
  have hs' : Parsing.Ready .inside { s with inHeader := false, guardAllowed := false } :=
    ⟨rfl, nofun, hs⟩
  obtain ⟨a, s', ha, hcursor, -, hPa⟩ := hp _ d hs' hd hend
  refine ⟨a, { s' with inHeader := s.inHeader, guardAllowed := s.guardAllowed }, ?_, hcursor, hPa⟩
  simp only [Parser.unrestricted, ha]

-- ============================================================ repetition

variable {turn : σ → Parser (Turn σ)} {a : σ} {I R : σ → Prop}

/-- A turn that ends the repetition. -/
theorem repeating_stop (hadvances : Advances turn)
    (h : (turn a).Accepts ts F fun r => ∃ b, r = .stop b ∧ R b) :
    (repeating turn a).Accepts ts F R := by
  intro s d hs hd hend
  rw [hadvances.repeating_eq a hs.fueled]
  refine bind_last h ?_ s d hs hd hend
  rintro _ ⟨b, rfl, hb⟩
  exact pure hb

/-- A turn that goes on. -/
theorem repeating_again (hadvances : Advances turn)
    (h : (turn a).Accepts ts G fun r => ∃ b, r = .again b ∧ I b) (link : ∀ k, Heads us F k → G k)
    (hrest : ∀ b, I b → (repeating turn b).Accepts us F R) :
    (repeating turn a).Accepts (ts ++ us) F R := by
  intro s d hs hd hend
  rw [hadvances.repeating_eq a hs.fueled]
  refine bind h link ?_ s d hs hd hend
  rintro _ ⟨b, rfl, hb⟩
  exact hrest b hb

/-- The same with something that comes after all turns. -/
theorem bind_repeating_again {f : σ → Parser β} (hadvances : Advances turn)
    (h : (turn a).Accepts ts G fun r => ∃ b, r = .again b ∧ I b) (link : ∀ k, Heads us F k → G k)
    (hrest : ∀ b, I b → (repeating turn b >>= f).Accepts us F Q) :
    (repeating turn a >>= f).Accepts (ts ++ us) F Q := by
  have hall : (turn a >>= fun r => afterTurn turn r >>= f).Accepts (ts ++ us) F Q := by
    refine bind h link ?_
    rintro _ ⟨b, rfl, hb⟩
    exact hrest b hb
  intro s d hs hd hend
  obtain ⟨y, s', hy, hpost⟩ := hall s d hs hd hend
  obtain ⟨r, s₁, hr, hy⟩ := bind_eq_ok.mp hy
  obtain ⟨b, s₂, hb, hy⟩ := bind_eq_ok.mp hy
  refine ⟨y, s', bind_eq_ok.mpr ⟨b, s₂, ?_, hy⟩, hpost⟩
  rw [hadvances.repeating_eq a hs.fueled]
  exact bind_eq_ok.mpr ⟨r, s₁, hr, hb⟩

end Accepts

end GoSource.Parser
