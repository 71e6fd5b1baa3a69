/-
Two runs of one production, side by side.

The bodies of the productions are written over a way to parse further
ones, and decide nothing else that a limit on nesting could change. So two
ways to parse them, which keep step with one another, make two bodies that
keep step. A `Pairing` is two such ways, from the point of view of a
production that is active; `T.Abreast r s p q` says that `p` and `q`,
started at `s`, come to the same in the sense of `Joint`.

The rules follow the text of a production from top to bottom, as those for
`Reads` do, in both runs at once.

# Ranks

The number `r` is what a further production may cost. It is the rank of
the production that is active as long as no token has been taken, and more
than any rank from then on.
-/
import GoSource.Proofs.Running.Outcome

namespace GoSource

open GoSource.Parser

theorem Parser.eat_at {k : Token.Kind} {s : Parsing} (h : s.current.kind = k) :
    eat k s = .ok (some s.current.span) s.next := by
  have hk : isAt k s = .ok true s := congrArg (EStateM.Result.ok · s) (decide_eq_true h)
  exact bind_eq_ok.mpr ⟨true, s, hk, rfl⟩

theorem Parser.eat_not_at {k : Token.Kind} {s : Parsing} (h : s.current.kind ≠ k) :
    eat k s = .ok none s := by
  have hk : isAt k s = .ok false s := congrArg (EStateM.Result.ok · s) (decide_eq_false h)
  exact bind_eq_ok.mpr ⟨false, s, hk, rfl⟩

theorem Parser.expect_at {k : Token.Kind} {s : Parsing} (h : s.current.kind = k) :
    expect k s = .ok s.current.span s.next := by
  have hk : isAt k s = .ok true s := congrArg (EStateM.Result.ok · s) (decide_eq_true h)
  exact bind_eq_ok.mpr ⟨true, s, hk, rfl⟩

/-- Two ways to parse further productions, under a production that became
active at a place. As many productions are active as `active` says, and
`room` more may become active; `reach` is more than that production may
cost. The two are to keep step in every production that could be needed. -/
structure Pairing where
  first : SubParser
  second : SubParser
  origin : Cursor
  active : Nat
  room : Nat
  reach : Nat
  excused : ParseError → Prop
  sound : first.Sound
  together : ∀ {α : Type} (p : Production α) (m : Mode) (s : Parsing), p.Startable m s →
    s.Ready m → s.trace.length = active →
      Joint ⟨active + room, room ≤ s.cost p, excused⟩ s.cursor s (first p s) (second p s)

namespace Pairing

/-- The terms on which the runs of the production itself are compared. -/
def terms (T : Pairing) : Terms := ⟨T.active + T.room, T.room < T.reach, T.excused⟩

/-- A state that the production can be in, when what it needs next may
cost as much as `r`. -/
structure Fits (T : Pairing) (r : Nat) (s : Parsing) : Prop where
  fueled : s.Fueled
  active : s.trace.length = T.active
  taken : ∃ ts, T.origin.Takes ts s.cursor
  cost : 8 * s.cursor.left + r ≤ T.reach

/-- Started at a state that the production can be in, the two parsers come
to the same. -/
def Abreast (T : Pairing) (r : Nat) (s : Parsing) {α : Type} (p q : Parser α) : Prop :=
  T.Fits r s → Joint T.terms T.origin s (p s) (q s)

variable {T : Pairing} {r : Nat} {s s' : Parsing} {α β σ : Type} {ts : List Token}

theorem Fits.moves (h : T.Fits r s) (hs : s.Moves ts s') : T.Fits r s' := by
  obtain ⟨us, hus⟩ := h.taken
  have hle := hs.takes.left_add_length
  have hcost := h.cost
  refine ⟨h.fueled.passes hs.toPasses, ?_, ⟨us ++ ts, hus.append hs.takes⟩, by omega⟩
  rw [hs.trace, h.active]

/-- Once a token has been taken, any production may follow. -/
theorem Fits.next (h : T.Fits r s) (hk : s.current.kind.hasUse = true) : T.Fits 8 s.next := by
  have hnext := h.moves (.next hk)
  have hlt : s.next.cursor.left < s.cursor.left :=
    Cursor.left_next_lt (c := s.cursor) (Token.Kind.ne_eof_of_hasUse hk)
  have hcost := h.cost
  exact ⟨hnext.fueled, hnext.active, hnext.taken, by omega⟩

theorem Fits.ready (h : T.Fits r s) : s.Ready ⟨s.inHeader, s.guardAllowed⟩ :=
  ⟨rfl, id, h.fueled⟩

/-- Something that was read on the way to a state has ended before it. -/
theorem Fits.stopped {sp : Span} (h : T.Fits r s) (hsp : s.cursor.Stopped s'.cursor sp) :
    T.origin.Stopped s'.cursor sp := by
  obtain ⟨us, hus⟩ := h.taken
  exact hsp.after hus

theorem Fits.trace_le (h : T.Fits r s) : s.trace.reverse.length ≤ T.terms.limit := by
  rw [List.length_reverse, h.active]
  exact Nat.le_add_right _ _

namespace Abreast

variable {p q : Parser α} {u v : α → Parser β}

-- ============================================================= sequence

/-- That the production can be in this state may be used. -/
theorem fits (h : T.Fits r s → T.Abreast r s p q) : T.Abreast r s p q :=
  fun hs => h hs hs

theorem pure {a : α} : T.Abreast r s (Pure.pure a : Parser α) (Pure.pure a) :=
  fun _ => .ok (.refl s)

/-- What the first parser returned, and how, may be used later on. -/
theorem bind_run (h : T.Abreast r s p q) (huv : ∀ a ts s', p s = .ok a s' → s.Moves ts s' →
    T.Abreast r s' (u a) (v a)) : T.Abreast r s (p >>= u) (q >>= v) := by
  intro hs
  refine (h hs).bind fun a ts s' ha hmoves => ?_
  exact huv a ts s' ha hmoves (hs.moves hmoves)

theorem bind (h : T.Abreast r s p q) (huv : ∀ a s', T.Abreast r s' (u a) (v a)) :
    T.Abreast r s (p >>= u) (q >>= v) :=
  bind_run h fun a _ s' _ _ => huv a s'

/-- What is known of a success of the first parser may be used as well. -/
theorem bind_reads {P : List Token → α → Parsing → Prop} (h : T.Abreast r s p q)
    (hp : ∀ m, p.Reads m s P) (huv : ∀ ts a s', P ts a s' → T.Abreast r s' (u a) (v a)) :
    T.Abreast r s (p >>= u) (q >>= v) := by
  refine fits fun hs => bind_run h fun a ts s' ha _ => ?_
  obtain ⟨us, -, hP⟩ := hp _ hs.ready a s' ha
  exact huv us a s' hP

theorem map {g : α → β} (h : T.Abreast r s p q) : T.Abreast r s (g <$> p) (g <$> q) := by
  rw [map_eq_pure_bind, map_eq_pure_bind]
  exact bind h fun _ _ => pure

/-- A parser that asks for nothing further, of which it is known what it
does. -/
theorem step {a : α} {r' : Nat} (ha : p s = .ok a s') (hmoves : s.Moves ts s')
    (hfits : T.Fits r s → T.Fits r' s') (huv : T.Abreast r' s' (u a) (v a)) :
    T.Abreast r s (p >>= u) (p >>= v) := by
  intro hs
  have hbind : ∀ w : α → Parser β, (p >>= w) s = w a s' := by
    intro w
    simp only [Bind.bind, EStateM.bind, ha]
  rw [hbind, hbind]
  exact (huv (hfits hs)).after hmoves

/-- A parser that only looks. -/
theorem look {a : α} (ha : p s = .ok a s) (huv : T.Abreast r s (u a) (v a)) :
    T.Abreast r s (p >>= u) (p >>= v) :=
  step ha (.refl s) id huv

theorem bind_kind {f g : Token.Kind → Parser β}
    (h : T.Abreast r s (f s.current.kind) (g s.current.kind)) :
    T.Abreast r s (kind >>= f) (kind >>= g) := look rfl h

theorem bind_here {f g : Location → Parser β}
    (h : T.Abreast r s (f s.current.span.start) (g s.current.span.start)) :
    T.Abreast r s (here >>= f) (here >>= g) := look rfl h

theorem ite {c : Prop} [Decidable c] {p' q' : Parser α} (yes : c → T.Abreast r s p q)
    (no : ¬c → T.Abreast r s p' q') :
    T.Abreast r s (if c then p else p') (if c then q else q') := by
  by_cases hc : c
  · rw [if_pos hc, if_pos hc]
    exact yes hc
  · rw [if_neg hc, if_neg hc]
    exact no hc

theorem bind_isAt {k : Token.Kind} {f g : Bool → Parser β}
    (yes : s.current.kind = k → T.Abreast r s (f true) (g true))
    (no : s.current.kind ≠ k → T.Abreast r s (f false) (g false)) :
    T.Abreast r s (isAt k >>= f) (isAt k >>= g) := by
  refine look (a := decide (s.current.kind = k)) rfl ?_
  by_cases hk : s.current.kind = k
  · rw [decide_eq_true hk]
    exact yes hk
  · rw [decide_eq_false hk]
    exact no hk

/-- A choice by the current token. -/
theorem ifAt {k : Token.Kind} {p' q' : Parser α} (yes : s.current.kind = k → T.Abreast r s p q)
    (no : s.current.kind ≠ k → T.Abreast r s p' q') :
    T.Abreast r s (isAt k >>= fun b => if b = true then p else p')
      (isAt k >>= fun b => if b = true then q else q') :=
  bind_isAt (fun hk => by rw [if_pos rfl, if_pos rfl]; exact yes hk)
    fun hk => by rw [if_neg Bool.false_ne_true, if_neg Bool.false_ne_true]; exact no hk

/-- A choice by the current token after which both ways meet. -/
theorem joinAt {k : Token.Kind} {p' q' : Parser α} (yes : s.current.kind = k → T.Abreast r s p q)
    (no : s.current.kind ≠ k → T.Abreast r s p' q') (rest : ∀ a s', T.Abreast r s' (u a) (v a)) :
    T.Abreast r s (isAt k >>= fun b => if b = true then p >>= u else p' >>= u)
      (isAt k >>= fun b => if b = true then q >>= v else q' >>= v) :=
  ifAt (fun hk => bind (yes hk) rest) fun hk => bind (no hk) rest

/-- The same with a choice made by what is known. -/
theorem joinIte {c : Prop} [Decidable c] {p' q' : Parser α} (yes : c → T.Abreast r s p q)
    (no : ¬c → T.Abreast r s p' q') (rest : ∀ a s', T.Abreast r s' (u a) (v a)) :
    T.Abreast r s (if c then p >>= u else p' >>= u) (if c then q >>= v else q' >>= v) :=
  ite (fun hc => bind (yes hc) rest) fun hc => bind (no hc) rest

-- =============================================================== errors

theorem throw {e : ParseError} (he : e.Founded T.terms.limit T.terms.short T.origin s.cursor) :
    T.Abreast r s (MonadExcept.throw e : Parser α) (MonadExcept.throw e) :=
  fun _ => .refl_error he

theorem unexpectedAt {sp : Span} {wanted got : String}
    (hwanted : (wanted, got) ∈ ParseError.misreadings) (hsp : T.origin.Stopped s.cursor sp) :
    T.Abreast r s (unexpectedAt sp wanted got : Parser α) (Parser.unexpectedAt sp wanted got) :=
  fun hs => .refl_error (.earlier hwanted hsp hs.trace_le)

theorem unexpected {wanted : String} :
    T.Abreast r s (unexpected wanted : Parser α) (Parser.unexpected wanted) := by
  refine look (p := current) rfl ?_
  refine ite (fun hk => throw (.rubbish hk)) fun hk => ?_
  exact fun hs => .refl_error (.missing hk hs.trace_le)

-- ======================================================== single tokens

theorem bind_advance {f g : Token → Parser β} (hk : s.current.kind.hasUse = true)
    (h : T.Abreast 8 s.next (f s.current) (g s.current)) :
    T.Abreast r s (advance >>= f) (advance >>= g) :=
  step rfl (.next hk) (·.next hk) h

theorem bind_eat {k : Token.Kind} {f g : Option Span → Parser β} (hk : k.hasUse = true)
    (yes : s.current.kind = k →
      T.Abreast 8 s.next (f (some s.current.span)) (g (some s.current.span)))
    (no : s.current.kind ≠ k → T.Abreast r s (f none) (g none)) :
    T.Abreast r s (eat k >>= f) (eat k >>= g) := by
  by_cases h : s.current.kind = k
  · have hk : s.current.kind.hasUse = true := h ▸ hk
    exact step (eat_at h) (.next hk) (·.next hk) (yes h)
  · exact look (eat_not_at h) (no h)

theorem eat {k : Token.Kind} (hk : k.hasUse = true) : T.Abreast r s (eat k) (Parser.eat k) := by
  rw [← bind_pure (Parser.eat k)]
  exact bind_eat hk (fun _ => pure) fun _ => pure

/-- A token that may be taken, after which both ways meet. -/
theorem joinEat {k : Token.Kind} {p q : Span → Parser α} {p' q' : Parser α}
    (hk : k.hasUse = true)
    (yes : s.current.kind = k → T.Abreast 8 s.next (p s.current.span) (q s.current.span))
    (no : s.current.kind ≠ k → T.Abreast 8 s p' q') (rest : ∀ a s', T.Abreast 8 s' (u a) (v a)) :
    T.Abreast 8 s
      (Parser.eat k >>= fun o => match o with
        | some sp => p sp >>= u
        | none => p' >>= u)
      (Parser.eat k >>= fun o => match o with
        | some sp => q sp >>= v
        | none => q' >>= v) :=
  bind_eat hk (fun h => bind (yes h) rest) fun h => bind (no h) rest

theorem expect {k : Token.Kind} (hk : k.hasUse = true) :
    T.Abreast r s (expect k) (Parser.expect k) := by
  refine ifAt (fun h => bind_advance (h ▸ hk) pure) fun _ => ?_
  exact unexpected

theorem bind_expect {k : Token.Kind} {f g : Span → Parser β} (hk : k.hasUse = true)
    (h : s.current.kind = k → T.Abreast 8 s.next (f s.current.span) (g s.current.span)) :
    T.Abreast r s (Parser.expect k >>= f) (Parser.expect k >>= g) := by
  by_cases hs : s.current.kind = k
  · have hk : s.current.kind.hasUse = true := hs ▸ hk
    exact step (expect_at hs) (.next hk) (·.next hk) (h hs)
  · exact bind_run (expect hk) fun _ _ _ ha _ => absurd (expect_eq_ok ha) hs

/-- Nothing is reached behind an error. -/
theorem bind_unexpectedAt {sp : Span} {wanted got : String}
    (hwanted : (wanted, got) ∈ ParseError.misreadings) (hsp : T.origin.Stopped s.cursor sp) :
    T.Abreast r s ((Parser.unexpectedAt sp wanted got : Parser α) >>= u)
      ((Parser.unexpectedAt sp wanted got : Parser α) >>= v) :=
  bind_run (unexpectedAt hwanted hsp) fun _ _ _ ha _ => absurd ha unexpectedAt_ne_ok

theorem bind_unexpected {wanted : String} :
    T.Abreast r s ((Parser.unexpected wanted : Parser α) >>= u)
      ((Parser.unexpected wanted : Parser α) >>= v) :=
  bind_run unexpected fun _ _ _ ha _ => absurd ha unexpected_ne_ok

-- ================================================================ arena

theorem building {add : Arena → α × Arena} : T.Abreast r s (building add) (Parser.building add) :=
  fun _ => .ok (.arena s _)

theorem bind_recording {add : Arena → Arena} {f g : Unit → Parser β}
    (h : ∀ arena, T.Abreast r { s with arena } (f ()) (g ())) :
    T.Abreast r s (recording add >>= f) (recording add >>= g) :=
  step rfl (.arena s _) (·.moves (.arena s _)) (h _)

/-- Comments have no part in what is done. -/
theorem bind_docLines {start : Location} {f g : List String → Parser β}
    (h : ∀ lines, T.Abreast r { s with comments := [] } (f lines) (g lines)) :
    T.Abreast r s (docLines start >>= f) (docLines start >>= g) :=
  step rfl (.spendComments s) (·.moves (.spendComments s)) (h _)

-- ================================================================ modes

theorem unrestricted (h : T.Abreast r { s with inHeader := false, guardAllowed := false } p q) :
    T.Abreast r s (unrestricted p) (Parser.unrestricted q) := by
  intro hs
  have hfits : T.Fits r { s with inHeader := false, guardAllowed := false } :=
    ⟨hs.fueled, hs.active, hs.taken, hs.cost⟩
  exact (h hfits).unrestricted

theorem asHeader (h : T.Abreast r { s with inHeader := true } p q) :
    T.Abreast r s (asHeader p) (Parser.asHeader q) := by
  intro hs
  have hfits : T.Fits r { s with inHeader := true } := ⟨hs.fueled, hs.active, hs.taken, hs.cost⟩
  exact (h hfits).asHeader

theorem bind_disallowGuard {f g : Unit → Parser β}
    (h : T.Abreast r { s with guardAllowed := false } (f ()) (g ())) :
    T.Abreast r s (allowGuard false >>= f) (allowGuard false >>= g) :=
  step rfl (.disallowGuard s) (·.moves (.disallowGuard s)) h

-- ==================================================== further productions

/-- A production of a rank that may follow. -/
theorem production {p : Production α} (hr : p.rank < r) (hp : ∀ m, p.Startable m s) :
    T.Abreast r s (T.first p) (T.second p) := by
  intro hs
  obtain ⟨ts, hts⟩ := hs.taken
  have hcost := hs.cost
  refine (T.together p _ s (hp _) hs.ready hs.active).weaken hts rfl (fun hroom => ?_) fun _ => id
  show T.room < T.reach
  have hlt : s.cost p < T.reach := by
    unfold Parsing.cost
    omega
  exact Nat.lt_of_le_of_lt hroom hlt

/-- Any production, once a token has been taken. -/
theorem further {p : Production α} (hp : ∀ m, p.Startable m s) :
    T.Abreast 8 s (T.first p) (T.second p) :=
  production p.rank_lt hp

-- ============================================================ repetition

theorem repeating {u v : σ → Parser (Turn σ)} {a : σ}
    (h : ∀ b s', T.Abreast r s' (u b) (v b)) :
    T.Abreast r s (repeating u a) (Parser.repeating v a) := by
  -- The count is the same for both, so no matter how long it lasts.
  suffices hn : ∀ n b s', T.Abreast r s' (takeTurns u n b) (takeTurns v n b) from
    fun hs => hn s.turns a s hs
  intro n
  induction n with
  | zero => exact fun _ _ => pure
  | succ n ih =>
    intro b s'
    refine bind (h b s') fun t s'' => ?_
    cases t with
    | again c => exact ih c s''
    | stop c => exact pure

end Abreast

end Pairing

end GoSource
