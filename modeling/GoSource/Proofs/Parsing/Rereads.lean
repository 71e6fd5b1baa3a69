/-
What a parser does on tokens that are known.

`p.Rereads h ss F R` says: wherever the next tokens fit the slots `ss` and
the token after them is one of `F`, the parser `p` succeeds, takes exactly
those tokens, and returns something of which `R` holds. Success is part of
the claim, so the slots have to decide every question that the parser asks
of its input; the last of them is often asked of the token behind the
slots, which is why `F` is there.

The rules follow the text of a production from top to bottom, like those
for `Reads`, but along one way through it. A question about the current
token is answered by the first slot, or by `F` if there is none
(`Leads`).

# Depth

How deep the productions nest depends on the tree only, and nobody wants
to count it. `Always P` says that `P` holds of every limit that is large
enough. To parse one production takes one more than its body
(`Always.deeper`).
-/
import Mathlib.Order.Filter.AtTopBot.Basic
import Mathlib.Order.Filter.Finite
import GoSource.Proofs.Parsing.Reads
import GoSource.Proofs.Rendering

namespace GoSource

open GoSource.Parser

-- =============================================================== places

namespace Cursor

/-- The tokens between two places fit the slots, one each. -/
def Shows : Cursor → List Slot → Cursor → Prop
  | c, [], d => c = d
  | c, slot :: ss, d => slot.Accepts c.current ∧ c.next.Shows ss d

variable {c d e : Cursor} {ss us : List Slot}

theorem shows_append : c.Shows (ss ++ us) e ↔ ∃ d, c.Shows ss d ∧ d.Shows us e := by
  induction ss generalizing c with
  | nil => simp [Shows]
  | cons slot ss ih =>
    simp only [List.cons_append, Shows, ih]
    constructor
    · rintro ⟨hslot, d, hd, he⟩
      exact ⟨d, ⟨hslot, hd⟩, he⟩
    · rintro ⟨d, ⟨hslot, hd⟩, he⟩
      exact ⟨hslot, d, hd, he⟩

/-- Every slot has taken a token that was left. -/
theorem Shows.left_add_length (h : c.Shows ss d) : d.left + ss.length ≤ c.left := by
  induction ss generalizing c with
  | nil =>
    obtain rfl : c = d := h
    simp
  | cons slot ss ih =>
    have hlt := left_next_lt h.1.1
    have hle := ih h.2
    rw [List.length_cons]
    omega

/-- In front of the first token of a stream. -/
def before (stream : Token.Stream) (l : Location) : Cursor :=
  ⟨stream.next.1.token, stream.next.2, l⟩

theorem shows_before {stream : Token.Stream} {ss : List Slot} {ls ls' : List Lexeme} (l : Location)
    (hls : stream.lexemes = ls ++ ls')
    (hss : List.Forall₂ (fun slot l => slot.Accepts l.token) ss ls) :
    ∃ l', (before stream l).Shows ss (before { stream with lexemes := ls' } l') := by
  induction hss generalizing stream l with
  | nil =>
    refine ⟨l, ?_⟩
    have hstream : { stream with lexemes := ls' } = stream := by
      rw [← List.nil_append ls', ← hls]
    rw [hstream]
    rfl
  | @cons slot t ss ls hslot _ ih =>
    have hnext : stream.next = (t, { stream with lexemes := ls ++ ls' }) := by
      rw [Token.Stream.next, hls]
      rfl
    have hrest : ({ stream with lexemes := ls ++ ls' } : Token.Stream).lexemes = ls ++ ls' := rfl
    obtain ⟨l', hl'⟩ := ih t.token.span.stop hrest
    refine ⟨l', ?_, ?_⟩
    · rw [before, hnext]
      exact hslot
    · rw [before, hnext]
      exact hl'

end Cursor

/-- The token that comes first: it fits the first slot, or follows all of
them. -/
def Leads : List Slot → (Token → Prop) → Token → Prop
  | [], F => F
  | slot :: _, _ => slot.Accepts

theorem leads_ne {k k' : Token.Kind} {ss : List Slot} {F : Token → Prop} {t : Token} (hne : k ≠ k')
    (ht : Leads (.kind k :: ss) F t) : t.kind ≠ k' := by
  rw [ht.2]
  exact hne

/-- A token of one of two kinds is of no third. -/
theorem kind_ne_of_or {k k' l : Token.Kind} {t : Token} (ht : t.kind = k ∨ t.kind = k')
    (hk : k ≠ l) (hk' : k' ≠ l) : t.kind ≠ l := by
  obtain ht | ht := ht
  · rwa [ht]
  · rwa [ht]

theorem Cursor.Shows.leads {c d : Cursor} {ss : List Slot} {F : Token → Prop} (h : c.Shows ss d)
    (hF : F d.current) : Leads ss F c.current := by
  cases ss with
  | nil =>
    obtain rfl : c = d := h
    exact hF
  | cons slot ss => exact h.1

/-- A parse stands at a place, in a header or not, and has turns enough
for the tokens left. -/
structure Parsing.At (h : Bool) (c : Cursor) (s : Parsing) : Prop where
  cursor : s.cursor = c
  inHeader : s.inHeader = h
  fueled : c.left < s.turns

namespace Parser

variable {α β σ : Type} {h : Bool} {ss us : List Slot} {F G : Token → Prop} {R : α → Prop}
  {k : Token.Kind}

/-- On tokens that fit the slots, with one of `F` behind them, the parser
takes them and returns something of which `R` holds. -/
def Rereads (p : Parser α) (h : Bool) (ss : List Slot) (F : Token → Prop) (R : α → Prop) :
    Prop :=
  ∀ s c d, s.At h c → c.Shows ss d → F d.current → ∃ a s', p s = .ok a s' ∧ s'.At h d ∧ R a

namespace Rereads

variable {p q : Parser α} {f : α → Parser β} {P : β → Prop}

theorem imp {R' : α → Prop} (hp : p.Rereads h ss G R) (hF : ∀ t, F t → G t)
    (hR : ∀ a, R a → R' a) : p.Rereads h ss F R' := by
  intro s c d hs hss hd
  obtain ⟨a, s', ha, hs', hRa⟩ := hp s c d hs hss (hF _ hd)
  exact ⟨a, s', ha, hs', hR a hRa⟩

/-- Fewer tokens may follow. -/
theorem before (hp : p.Rereads h ss G R) (hF : ∀ t, F t → G t) : p.Rereads h ss F R :=
  hp.imp hF fun _ hR => hR

-- ============================================================= sequence

theorem pure {a : α} (hR : R a) : (Pure.pure a : Parser α).Rereads h [] F R := by
  intro s c d hs hss hd
  obtain rfl : c = d := hss
  exact ⟨a, s, rfl, hs, hR⟩

/-- What follows the first parser is what the second begins with. -/
theorem bind (hp : p.Rereads h ss G R) (link : ∀ t, Leads us F t → G t)
    (hf : ∀ a, R a → (f a).Rereads h us F P) : (p >>= f).Rereads h (ss ++ us) F P := by
  intro s c e hs hss he
  obtain ⟨d, hd, hus⟩ := Cursor.shows_append.mp hss
  obtain ⟨a, s₁, ha, hs₁, hR⟩ := hp s c d hs hd (link _ (hus.leads he))
  obtain ⟨b, s₂, hb, hs₂, hP⟩ := hf a hR s₁ d e hs₁ hus he
  exact ⟨b, s₂, bind_eq_ok.mpr ⟨a, s₁, ha, hb⟩, hs₂, hP⟩

/-- A parser that takes the last of the tokens. -/
theorem bind_last (hp : p.Rereads h ss F R) (hf : ∀ a, R a → (f a).Rereads h [] F P) :
    (p >>= f).Rereads h ss F P := by
  rw [← List.append_nil ss]
  exact bind hp (fun _ ht => ht) hf

/-- A parser that takes nothing, whatever follows. -/
theorem bind_taking_none (hp : p.Rereads h [] (fun _ => True) R)
    (hf : ∀ a, R a → (f a).Rereads h ss F P) : (p >>= f).Rereads h ss F P :=
  bind hp (fun _ _ => trivial) hf

theorem map {g : α → β} (hp : p.Rereads h ss F fun a => P (g a)) : (g <$> p).Rereads h ss F P := by
  intro s c d hs hss hd
  obtain ⟨a, s', ha, hs', hP⟩ := hp s c d hs hss hd
  exact ⟨g a, s', map_eq_ok.mpr ⟨a, ha, rfl⟩, hs', hP⟩

theorem bind_map {γ : Type} {g : γ → α} {q : Parser γ} {Q : γ → Prop} (hq : q.Rereads h ss G Q)
    (link : ∀ t, Leads us F t → G t) (hf : ∀ c, Q c → (f (g c)).Rereads h us F P) :
    ((g <$> q) >>= f).Rereads h (ss ++ us) F P :=
  bind (R := fun a => ∃ c, g c = a ∧ Q c) (map (hq.imp (fun _ ht => ht) fun c hc => ⟨c, rfl, hc⟩))
    link fun _ ⟨c, hc, hQ⟩ => hc ▸ hf c hQ

theorem bind_pure {a : α} (hf : (f a).Rereads h ss F P) :
    ((Pure.pure a : Parser α) >>= f).Rereads h ss F P := hf

-- ====================================================== looking, no more

/-- The answer to a question about the current token depends on the slots
and on what follows. -/
theorem look {f : Token → Parser β} (hf : ∀ t, Leads ss F t → (f t).Rereads h ss F P) :
    (current >>= f).Rereads h ss F P := by
  intro s c d hs hss hd
  have ht : s.current = c.current := congrArg Cursor.current hs.cursor
  have hrun := hf c.current (hss.leads hd) s c d hs hss hd
  rwa [← ht] at hrun

theorem bind_kind {f : Token.Kind → Parser β}
    (hf : ∀ t, Leads ss F t → (f t.kind).Rereads h ss F P) : (kind >>= f).Rereads h ss F P :=
  look (f := fun t => f t.kind) hf

theorem bind_kind_of {f : Token.Kind → Parser β} (hk : ∀ t, Leads ss F t → t.kind = k)
    (hf : (f k).Rereads h ss F P) : (kind >>= f).Rereads h ss F P :=
  bind_kind fun t ht => by rwa [hk t ht]

/-- The kind of the first token is that of the first slot. -/
theorem bind_kind_at {f : Token.Kind → Parser β} (hf : (f k).Rereads h (.kind k :: ss) F P) :
    (kind >>= f).Rereads h (.kind k :: ss) F P :=
  bind_kind_of (fun _ ht => ht.2) hf

theorem bind_isAt {f : Bool → Parser β}
    (hf : ∀ t, Leads ss F t → (f (decide (t.kind = k))).Rereads h ss F P) :
    (isAt k >>= f).Rereads h ss F P :=
  look (f := fun t => f (decide (t.kind = k))) hf

theorem bind_isAt_true {f : Bool → Parser β} (hk : ∀ t, Leads ss F t → t.kind = k)
    (hf : (f true).Rereads h ss F P) : (isAt k >>= f).Rereads h ss F P :=
  bind_isAt fun t ht => by rwa [decide_eq_true (hk t ht)]

theorem bind_isAt_false {f : Bool → Parser β} (hk : ∀ t, Leads ss F t → t.kind ≠ k)
    (hf : (f false).Rereads h ss F P) : (isAt k >>= f).Rereads h ss F P :=
  bind_isAt fun t ht => by rwa [decide_eq_false (hk t ht)]

theorem ifAt (hk : ∀ t, Leads ss F t → t.kind = k) (hp : p.Rereads h ss F R) :
    (isAt k >>= fun b => if b = true then p else q).Rereads h ss F R :=
  bind_isAt_true hk (by rwa [if_pos rfl])

theorem ifNotAt (hk : ∀ t, Leads ss F t → t.kind ≠ k) (hq : q.Rereads h ss F R) :
    (isAt k >>= fun b => if b = true then p else q).Rereads h ss F R :=
  bind_isAt_false hk (by rwa [if_neg Bool.false_ne_true])

theorem bind_here {f : Location → Parser β} (hf : ∀ l, (f l).Rereads h ss F P) :
    (here >>= f).Rereads h ss F P :=
  fun s c d hs hss hd => hf s.current.span.start s c d hs hss hd

theorem bind_previousEnd {f : Location → Parser β} (hf : ∀ l, (f l).Rereads h ss F P) :
    (previousEnd >>= f).Rereads h ss F P :=
  fun s c d hs hss hd => hf s.previousEnd s c d hs hss hd

theorem bind_spanFrom {start : Location} {f : Span → Parser β}
    (hf : ∀ sp, (f sp).Rereads h ss F P) : (spanFrom start >>= f).Rereads h ss F P :=
  fun s c d hs hss hd => hf ⟨start, s.previousEnd⟩ s c d hs hss hd

theorem bind_inHeader {f : Bool → Parser β} (hf : (f h).Rereads h ss F P) :
    (inHeader >>= f).Rereads h ss F P := by
  intro s c d hs hss hd
  have hrun := hf s c d hs hss hd
  rw [← hs.inHeader] at hrun ⊢
  exact hrun

-- ======================================================== single tokens

theorem bind_advance {slot : Slot} {f : Token → Parser β}
    (hf : ∀ t, slot.Accepts t → (f t).Rereads h ss F P) :
    (advance >>= f).Rereads h (slot :: ss) F P := by
  intro s c d hs ⟨hslot, hss⟩ hd
  have hlt := Cursor.left_next_lt hslot.1
  have hnext : s.next.At h c.next := by
    refine ⟨?_, hs.inHeader, Nat.lt_trans hlt hs.fueled⟩
    rw [← hs.cursor, Parsing.cursor_next]
  have ht : s.current = c.current := congrArg Cursor.current hs.cursor
  have hrun := hf c.current hslot s.next c.next d hnext hss hd
  rw [← ht] at hrun
  exact hrun

theorem bind_eat {f : Option Span → Parser β} (hf : ∀ sp, (f (some sp)).Rereads h ss F P) :
    (eat k >>= f).Rereads h (.kind k :: ss) F P := by
  have hrun : (isAt k >>= fun b => if b = true then advance >>= fun t => f (some t.span)
      else f none).Rereads h (.kind k :: ss) F P :=
    ifAt (fun _ ht => ht.2) (bind_advance fun t _ => hf t.span)
  intro s c d hs hss hd
  obtain ⟨b, s', hb, hpost⟩ := hrun s c d hs hss hd
  refine ⟨b, s', ?_, hpost⟩
  obtain ⟨x, s₁, hx, hb⟩ := bind_eq_ok.mp hb
  refine bind_eq_ok.mpr ?_
  cases hx
  split at hb
  · next hk => exact ⟨_, _, bind_eq_ok.mpr ⟨_, _, rfl, by rw [if_pos hk]; rfl⟩, hb⟩
  · next hk => exact ⟨_, _, bind_eq_ok.mpr ⟨_, _, rfl, by rw [if_neg hk]; rfl⟩, hb⟩

theorem eat_none (hk : ∀ t, F t → t.kind ≠ k) : (eat k).Rereads h [] F (· = none) :=
  ifNotAt hk (pure rfl)

theorem bind_eat_none {f : Option Span → Parser β} (hk : ∀ t, Leads ss F t → t.kind ≠ k)
    (hf : (f none).Rereads h ss F P) : (eat k >>= f).Rereads h ss F P :=
  bind (eat_none (F := fun t => t.kind ≠ k) fun _ ht => ht) hk fun _ ho => ho ▸ hf

theorem expect : (expect k).Rereads h [.kind k] F fun _ => True :=
  ifAt (fun _ ht => ht.2) (bind_advance fun _ _ => pure trivial)

theorem bind_expect {f : Span → Parser β} (hf : ∀ sp, (f sp).Rereads h ss F P) :
    (Parser.expect k >>= f).Rereads h (.kind k :: ss) F P :=
  bind (G := Leads ss F) expect (fun _ ht => ht) fun sp _ => hf sp

-- ================================================================ modes

theorem during {name : String} (hp : p.Rereads h ss F R) :
    (Parser.during name p).Rereads h ss F R := by
  intro s c d hs hss hd
  have hs' : Parsing.At h c { s with trace := name :: s.trace } :=
    ⟨hs.cursor, hs.inHeader, hs.fueled⟩
  obtain ⟨a, s', ha, hpost, hR⟩ := hp _ c d hs' hss hd
  refine ⟨a, { s' with trace := s.trace }, ?_, ⟨hpost.cursor, hpost.inHeader, hpost.fueled⟩, hR⟩
  simp only [Parser.during, ha]

theorem unrestricted (hp : p.Rereads false ss F R) :
    (Parser.unrestricted p).Rereads h ss F R := by
  intro s c d hs hss hd
  have hs' : Parsing.At false c { s with inHeader := false, guardAllowed := false } :=
    ⟨hs.cursor, rfl, hs.fueled⟩
  obtain ⟨a, s', ha, hpost, hR⟩ := hp _ c d hs' hss hd
  refine ⟨a, { s' with inHeader := s.inHeader, guardAllowed := s.guardAllowed }, ?_,
    ⟨hpost.cursor, hs.inHeader, hpost.fueled⟩, hR⟩
  simp only [Parser.unrestricted, ha]

theorem asHeader (hp : p.Rereads true ss F R) : (Parser.asHeader p).Rereads h ss F R := by
  intro s c d hs hss hd
  have hs' : Parsing.At true c { s with inHeader := true } := ⟨hs.cursor, rfl, hs.fueled⟩
  obtain ⟨a, s', ha, hpost, hR⟩ := hp _ c d hs' hss hd
  refine ⟨a, { s' with inHeader := s.inHeader }, ?_, ⟨hpost.cursor, hs.inHeader, hpost.fueled⟩, hR⟩
  simp only [Parser.asHeader, ha]

-- ================================================================ arena

theorem bind_building {add : Arena → α × Arena} (hf : ∀ arena, (f (add arena).1).Rereads h ss F P) :
    (building add >>= f).Rereads h ss F P :=
  fun s c d hs hss hd => hf s.arena { s with arena := (add s.arena).2 } c d
    ⟨hs.cursor, hs.inHeader, hs.fueled⟩ hss hd

theorem building {add : Arena → α × Arena} (hR : ∀ arena, R (add arena).1) :
    (Parser.building add).Rereads h [] F R :=
  bind_building (f := Pure.pure) fun arena => pure (hR arena)

theorem bind_recording {add : Arena → Arena} {f : Unit → Parser β}
    (hf : (f ()).Rereads h ss F P) : (recording add >>= f).Rereads h ss F P :=
  fun s c d hs hss hd => hf { s with arena := add s.arena } c d
    ⟨hs.cursor, hs.inHeader, hs.fueled⟩ hss hd

theorem bind_docLines {start : Location} {f : List String → Parser β}
    (hf : ∀ lines, (f lines).Rereads h ss F P) : (docLines start >>= f).Rereads h ss F P :=
  fun s c d hs hss hd => hf _ { s with comments := [] } c d
    ⟨hs.cursor, hs.inHeader, hs.fueled⟩ hss hd

-- ======================================================= names, literals

theorem ident {n : String} : ident.Rereads h [.name n] F fun m => m.name = n :=
  ifAt (fun _ ht => ht.2.1) (bind_advance fun _ ht => bind_recording (pure ht.2.2))

theorem isKind_of_decode {k : Token.Kind} {text : String} {v : Literal}
    (hv : Literal.decode k text = some v) : Literal.isKind k = true := by
  cases k <;> first | rfl | cases hv

theorem literalValue {v : Literal} : literalValue.Rereads h [.literal v] F fun r => r.1 = v := by
  refine look fun t ht => ?_
  have hv : Literal.decode t.kind t.text = some v := ht.2
  rw [if_pos (isKind_of_decode hv)]
  simp only [hv]
  exact bind_advance fun _ _ => pure rfl

theorem literal {v : Literal} : literal.Rereads h [.literal v] F fun l => l.form = v :=
  bind_last literalValue fun _ hr => building fun _ => hr

-- ============================================================ repetition

/-- The same of a repetition that is given any number of turns greater
than the number of tokens left. -/
def Loops (turn : σ → Parser (Turn σ)) (a : σ) (h : Bool) (ss : List Slot) (F : Token → Prop)
    (Q : σ → Prop) : Prop :=
  ∀ n s c d, s.At h c → c.Shows ss d → F d.current → c.left < n →
    ∃ b s', takeTurns turn n a s = .ok b s' ∧ s'.At h d ∧ Q b

/-- A turn that goes on. -/
abbrev GoesOn (I : σ → Prop) (r : Turn σ) : Prop := ∃ b, r = .again b ∧ I b

/-- A turn that ends the repetition. -/
abbrev Stops (Q : σ → Prop) (r : Turn σ) : Prop := ∃ b, r = .stop b ∧ Q b

variable {turn : σ → Parser (Turn σ)} {a : σ} {I Q : σ → Prop}

theorem Loops.again (ht : (turn a).Rereads h ss G (GoesOn I)) (hne : ss ≠ [])
    (link : ∀ t, Leads us F t → G t) (hl : ∀ b, I b → Loops turn b h us F Q) :
    Loops turn a h (ss ++ us) F Q := by
  intro n s c e hs hss he hn
  obtain ⟨d, hd, hus⟩ := Cursor.shows_append.mp hss
  obtain ⟨_, s₁, hr, hs₁, b, rfl, hI⟩ := ht s c d hs hd (link _ (hus.leads he))
  have hle := hd.left_add_length
  have hpos := List.length_pos_iff.mpr hne
  cases n with
  | zero => omega
  | succ n =>
    obtain ⟨b', s₂, hb, hpost⟩ := hl b hI n s₁ d e hs₁ hus he (by omega)
    exact ⟨b', s₂, bind_eq_ok.mpr ⟨_, s₁, hr, hb⟩, hpost⟩

theorem Loops.stop (ht : (turn a).Rereads h ss F (Stops Q)) : Loops turn a h ss F Q := by
  intro n s c d hs hss hd hn
  cases n with
  | zero => omega
  | succ n =>
    obtain ⟨_, s₁, hr, hs₁, b, rfl, hQ⟩ := ht s c d hs hss hd
    exact ⟨b, s₁, bind_eq_ok.mpr ⟨_, s₁, hr, rfl⟩, hs₁, hQ⟩

theorem repeating (hl : Loops turn a h ss F Q) : (Parser.repeating turn a).Rereads h ss F Q :=
  fun s c d hs hss hd => hl s.turns s c d hs hss hd hs.fueled

/-- A repetition that works off what is left to be read: `r i` is what is
left at the stage `i`, and a turn either takes all of it and stops, or
takes some of it and leads to another stage. -/
theorem repeating_of {ι : Type} {J : ι → σ → Prop} {r : ι → List Slot}
    (turns : ∀ i b, J i b → (turn b).Rereads h (r i) F (Stops Q) ∨
      ∃ j ss G, r i = ss ++ r j ∧ ss ≠ [] ∧ (∀ t, Leads (r j) F t → G t) ∧
        (turn b).Rereads h ss G (GoesOn (J j))) {i : ι} (init : J i a) :
    (Parser.repeating turn a).Rereads h (r i) F Q := by
  refine repeating ?_
  -- Every turn takes a slot, so the slots left count the turns.
  generalize hn : (r i).length = n
  induction n using Nat.strongRecOn generalizing i a with
  | ind n ih =>
    obtain hstop | ⟨j, ss, G, hss, hne, link, hturn⟩ := turns i a init
    · exact .stop hstop
    · rw [hss]
      refine .again hturn hne link fun b hb => ih (r j).length ?_ hb rfl
      have hpos := List.length_pos_iff.mpr hne
      rw [← hn, hss, List.length_append]
      omega

end Rereads

end Parser

-- ================================================================ depth

/-- What holds of the parser under every limit that is large enough. -/
def Always (P : SubParser → Prop) : Prop :=
  ∀ᶠ depth in Filter.atTop, P (Grammar.parse depth)

namespace Always

variable {P Q : SubParser → Prop}

theorem imp (hP : Always P) (h : ∀ parse, P parse → Q parse) : Always Q :=
  hP.mono fun depth => h (Grammar.parse depth)

theorem and (hP : Always P) (hQ : Always Q) : Always fun parse => P parse ∧ Q parse :=
  Filter.Eventually.and hP hQ

theorem of_forall (h : ∀ parse, P parse) : Always P :=
  Filter.Eventually.of_forall fun depth => h (Grammar.parse depth)

/-- All items of a list are served by one limit. -/
theorem all {ι : Type} {xs : List ι} {P : ι → SubParser → Prop}
    (h : ∀ x ∈ xs, Always (P x)) : Always fun parse => ∀ x ∈ xs, P x parse :=
  (Filter.eventually_all_finite (List.finite_toSet xs)).mpr h

/-- And so is what may be missing. -/
theorem option {ι : Type} {o : Option ι} {P : ι → SubParser → Prop}
    (h : ∀ x ∈ o, Always (P x)) : Always fun parse => ∀ x ∈ o, P x parse := by
  cases o with
  | none => exact .of_forall fun _ => nofun
  | some x =>
    refine (h x rfl).imp fun _ hx => ?_
    rintro _ ⟨⟩
    exact hx

/-- A limit that does for the bodies does, with one more, for the
productions. -/
theorem deeper (hP : Always P)
    (h : ∀ depth, P (Grammar.parse depth) → Q (Grammar.parse (depth + 1))) :
    Always Q := by
  obtain ⟨least, hleast⟩ := Filter.eventually_atTop.mp hP
  refine Filter.eventually_atTop.mpr ⟨least + 1, fun depth hdepth => ?_⟩
  obtain ⟨depth, rfl⟩ : ∃ n, depth = n + 1 := ⟨depth - 1, by omega⟩
  exact h depth (hleast depth (by omega))

end Always

/-- Under one more a production does what its body does. -/
theorem Parser.Rereads.production {α : Type} {p : Production α} {depth : Nat} {h : Bool}
    {ss : List Slot} {F : Token → Prop} {R : α → Prop}
    (hp : (p.body (Grammar.parse depth)).Rereads h ss F R) :
    (Grammar.parse (depth + 1) p).Rereads h ss F R := by
  rw [Grammar.parse_succ]
  exact .during hp

end GoSource
