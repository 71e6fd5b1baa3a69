/-
What a run comes to, whether it succeeds or fails.

`Reads` says what has been read when a parser succeeds, and nothing of a
failure. Here is what holds in both cases. A run moves: it takes tokens,
each of which is of a kind that the grammar has a use for, and leaves the
active productions as they were (`Parsing.Moves`). If it fails, the error
is founded on what was read up to there: it is about the current token,
which is then not taken, or about the end of something taken before
(`ParseError.Founded`).

# Two runs

Which productions may still become active is decided outside of a
production, so the question comes up what happens if that decision were
another one. `Joint` compares two runs from one state. They are the same
run, unless the first has come to an error that is excused on the terms of
the comparison; then nothing is said of the second.

# Cost

A limit on nesting is too small only for an input that is long enough.
Between two productions that become active, one inside the other, either a
token is taken, or the inner one is of lower rank (`Production.rank`). So
the tokens left, counted eightfold, and the rank together bound what can
become active from a state on (`Parsing.cost`).
-/
import GoSource.Proofs.Derivation.Parse

namespace GoSource

open GoSource.Parser

-- =============================================================== tokens

/-- The grammar takes tokens of all kinds but these. -/
def Token.Kind.hasUse : Token.Kind → Bool
  | .eof | .error | .tilde | .kwSwitch | .kwSelect | .kwCase | .kwDefault => false
  | _ => true

theorem Token.Kind.ne_eof_of_hasUse {k : Token.Kind} (h : k.hasUse = true) : k ≠ .eof := by
  intro hk
  rw [hk] at h
  exact nomatch h

namespace Cursor

variable {o c d : Cursor} {ts us : List Token} {sp : Span}

/-- There is only one way from a place to another. -/
theorem Takes.unique (h : c.Takes ts d) (h' : c.Takes us d) : ts = us := by
  induction ts generalizing c us with
  | nil =>
    have hle := h'.left_add_length
    rw [takes_nil.mp h] at hle
    have hlen : us.length = 0 := by omega
    exact (List.length_eq_zero_iff.mp hlen).symm
  | cons t ts ih =>
    cases us with
    | nil =>
      have hle := h.left_add_length
      rw [takes_nil.mp h', List.length_cons] at hle
      omega
    | cons u us =>
      obtain ⟨rfl, -, h⟩ := takes_cons.mp h
      obtain ⟨rfl, -, h'⟩ := takes_cons.mp h'
      rw [ih h h']

/-- Where a span stops, a token stopped that was taken between two
places. -/
def Stopped (o c : Cursor) (sp : Span) : Prop :=
  ∃ ts, o.Takes ts c ∧ ∃ t ∈ ts, sp.stop = t.span.stop

theorem Stopped.after (h : c.Stopped d sp) (ho : o.Takes ts c) : o.Stopped d sp := by
  obtain ⟨us, hus, t, ht, hsp⟩ := h
  exact ⟨ts ++ us, ho.append hus, t, List.mem_append_right ts ht, hsp⟩

end Cursor

-- ================================================================ moves

namespace Parsing

/-- Tokens with a use have been taken, and the same productions are active
as before. -/
structure Moves (s : Parsing) (ts : List Token) (s' : Parsing) : Prop extends Passes s ts s' where
  trace : s'.trace = s.trace
  taken : s'.taken = s.taken + ts.length
  used : ∀ t ∈ ts, t.kind.hasUse = true

variable {s s' s'' : Parsing} {ts us : List Token}

theorem Moves.refl (s : Parsing) : s.Moves [] s :=
  ⟨.refl s, rfl, rfl, nofun⟩

theorem Moves.trans (h : s.Moves ts s') (h' : s'.Moves us s'') : s.Moves (ts ++ us) s'' := by
  refine ⟨h.toPasses.trans h'.toPasses, h'.trace.trans h.trace, ?_, ?_⟩
  · rw [h'.taken, h.taken, List.length_append, Nat.add_assoc]
  · intro t ht
    rcases List.mem_append.mp ht with ht | ht
    · exact h.used t ht
    · exact h'.used t ht

theorem Moves.next (h : s.current.kind.hasUse = true) : s.Moves [s.current] s.next := by
  refine ⟨.next (Token.Kind.ne_eof_of_hasUse h), rfl, rfl, ?_⟩
  intro t ht
  rw [List.mem_singleton.mp ht]
  exact h

theorem Moves.arena (s : Parsing) (arena : Arena) : s.Moves [] { s with arena } :=
  ⟨⟨rfl, rfl, id, rfl⟩, rfl, rfl, nofun⟩

theorem Moves.spendComments (s : Parsing) : s.Moves [] { s with comments := [] } :=
  ⟨⟨rfl, rfl, id, rfl⟩, rfl, rfl, nofun⟩

theorem Moves.disallowGuard (s : Parsing) : s.Moves [] { s with guardAllowed := false } :=
  ⟨⟨rfl, rfl, nofun, rfl⟩, rfl, rfl, nofun⟩

end Parsing

-- =============================================================== errors

/-- What is wanted of something that has been read, with what it is called
if it is something else. -/
def ParseError.misreadings : List (String × String) :=
  [("identifier", "expression"), ("condition", "statement"),
   ("simple statement", "short variable declaration"),
   ("function call after go", "expression"), ("function call after defer", "expression"),
   ("single receiver", "receiver list"), ("type switch guard", "statement")]

/-- What an error may be when a run that began at one place has failed at
another. `limit` is the number of productions that may be active at once,
and `short` says that this may be too few. -/
inductive ParseError.Founded (limit : Nat) (short : Prop) (o c : Cursor) : ParseError → Prop where
  /-- The current token is not what was wanted. -/
  | missing {wanted : String} {trace : List String} (hk : c.current.kind ≠ .error)
      (htrace : trace.length ≤ limit) :
      Founded limit short o c (.unexpected wanted c.current.got c.current.span trace)
  /-- Something that ended before is not what was wanted. -/
  | earlier {wanted got : String} {sp : Span} {trace : List String}
      (hwanted : (wanted, got) ∈ misreadings) (hsp : o.Stopped c sp)
      (htrace : trace.length ≤ limit) : Founded limit short o c (.unexpected wanted got sp trace)
  | rubbish (hk : c.current.kind = .error) :
      Founded limit short o c (.badRune c.current.text c.current.span)
  | malformed (hk : Literal.isKind c.current.kind = true)
      (hnone : Literal.decode c.current.kind c.current.text = none) :
      Founded limit short o c (.malformed c.current.kind c.current.text c.current.span)
  | functionLiteral {func : Token} (hk : c.current.kind = .lBrace) :
      Founded limit short o c (.unsupported .functionLiteral (func.span.through c.current.span))
  | switchStatement (hk : c.current.kind = .kwSwitch) :
      Founded limit short o c (.unsupported .switchStatement c.current.span)
  | selectStatement (hk : c.current.kind = .kwSelect) :
      Founded limit short o c (.unsupported .selectStatement c.current.span)
  | tooDeep (hshort : short) : Founded limit short o c (.tooDeep limit c.current.span)

/-- The run may have begun earlier, and there may be other reasons why the
limit is too small. -/
theorem ParseError.Founded.weaken {e : ParseError} {limit : Nat} {short short' : Prop}
    {o o' c : Cursor} {ts : List Token} (h : e.Founded limit short o c) (ho : o'.Takes ts o)
    (hs : short → short') : e.Founded limit short' o' c := by
  cases h with
  | missing hk htrace => exact .missing hk htrace
  | earlier hwanted hsp htrace => exact .earlier hwanted (hsp.after ho) htrace
  | rubbish hk => exact .rubbish hk
  | malformed hk hnone => exact .malformed hk hnone
  | functionLiteral hk => exact .functionLiteral hk
  | switchStatement hk => exact .switchStatement hk
  | selectStatement hk => exact .selectStatement hk
  | tooDeep hshort => exact .tooDeep (hs hshort)

namespace ParseError.Founded

variable {limit : Nat} {short : Prop} {o c : Cursor}

theorem limit_eq {allowed : Nat} {sp : Span}
    (h : Founded limit short o c (.tooDeep allowed sp)) : allowed = limit := by
  cases h with
  | tooDeep => rfl

theorem trace_le {wanted got : String} {sp : Span} {trace : List String}
    (h : Founded limit short o c (.unexpected wanted got sp trace)) : trace.length ≤ limit := by
  cases h with
  | missing _ htrace => exact htrace
  | earlier _ _ htrace => exact htrace

theorem short_of_tooDeep {allowed : Nat} {sp : Span}
    (h : Founded limit short o c (.tooDeep allowed sp)) : short := by
  cases h with
  | tooDeep hshort => exact hshort

end ParseError.Founded

-- ============================================================= two runs

/-- On what terms two runs are compared: how many productions may be
active at once, whether that may be too few, and which errors of the first
run excuse the second. -/
structure Terms where
  limit : Nat
  short : Prop
  excused : ParseError → Prop

/-- What two runs from one state have come to. The place `o` is where it
all began. -/
inductive Joint (T : Terms) (o : Cursor) (s : Parsing) {α : Type} :
    EStateM.Result ParseError Parsing α → EStateM.Result ParseError Parsing α → Prop where
  | ok {a : α} {ts : List Token} {s' : Parsing} (hs : s.Moves ts s') :
      Joint T o s (.ok a s') (.ok a s')
  | error {e : ParseError} {ts : List Token} {s' : Parsing} (hs : s.Moves ts s')
      (he : e.Founded T.limit T.short o s'.cursor) : Joint T o s (.error e s') (.error e s')
  | excused {e : ParseError} {ts : List Token} {s' : Parsing}
      {y : EStateM.Result ParseError Parsing α} (hs : s.Moves ts s')
      (he : e.Founded T.limit T.short o s'.cursor) (hex : T.excused e) : Joint T o s (.error e s') y

namespace Joint

variable {α β : Type} {T : Terms} {o : Cursor} {s s' : Parsing} {ts : List Token}
  {x y : EStateM.Result ParseError Parsing α}

theorem refl_error {e : ParseError} (he : e.Founded T.limit T.short o s.cursor) :
    Joint T o s (.error e s : EStateM.Result ParseError Parsing α) (.error e s) :=
  .error (.refl s) he

/-- What came before is part of the run. -/
theorem after (h : Joint T o s' x y) (hs : s.Moves ts s') : Joint T o s x y := by
  cases h with
  | ok hs' => exact .ok (hs.trans hs')
  | error hs' he => exact .error (hs.trans hs') he
  | excused hs' he hex => exact .excused (hs.trans hs') he hex

/-- The same run as part of one that began earlier. -/
theorem weaken {T' : Terms} {o' : Cursor} (h : Joint T o s x y) (ho : o'.Takes ts o)
    (hlimit : T.limit = T'.limit) (hshort : T.short → T'.short)
    (hexcused : ∀ e, T.excused e → T'.excused e) : Joint T' o' s x y := by
  cases h with
  | ok hs => exact .ok hs
  | error hs he => exact .error hs (hlimit ▸ he.weaken ho hshort)
  | excused hs he hex => exact .excused hs (hlimit ▸ he.weaken ho hshort) (hexcused _ hex)

theorem bind {p q : Parser α} {u v : α → Parser β} (h : Joint T o s (p s) (q s))
    (huv : ∀ a ts s', p s = .ok a s' → s.Moves ts s' → Joint T o s' (u a s') (v a s')) :
    Joint T o s ((p >>= u) s) ((q >>= v) s) := by
  simp only [Bind.bind, EStateM.bind]
  generalize p s = x at h huv
  generalize q s = y at h
  cases h with
  | ok hs => exact (huv _ _ _ rfl hs).after hs
  | error hs he => exact .error hs he
  | excused hs he hex => exact .excused hs he hex

/-- What a part has set for itself is put back, whatever it comes to. -/
theorem restored {g : Parsing → Parsing} (h : Joint T o s' x y)
    (hg : ∀ ts s₁, s'.Moves ts s₁ → s.Moves ts (g s₁) ∧ (g s₁).cursor = s₁.cursor) :
    Joint T o s (restore g x) (restore g y) := by
  cases h with
  | ok hs => exact .ok (hg _ _ hs).1
  | error hs he =>
    obtain ⟨hs, hc⟩ := hg _ _ hs
    exact .error hs (hc ▸ he)
  | excused hs he hex =>
    obtain ⟨hs, hc⟩ := hg _ _ hs
    exact .excused hs (hc ▸ he) hex

/-- A production that returns or fails is active no longer. -/
theorem during {name : String} {p q : Parser α}
    (h : Joint T o { s with trace := name :: s.trace } (p { s with trace := name :: s.trace })
      (q { s with trace := name :: s.trace })) :
    Joint T o s (Parser.during name p s) (Parser.during name q s) := by
  refine h.restored (g := fun s₁ => { s₁ with trace := s.trace }) fun ts s₁ hs => ⟨?_, rfl⟩
  exact ⟨⟨hs.takes, hs.inHeader, hs.guard, hs.turns⟩, rfl, hs.taken, hs.used⟩

theorem unrestricted {p q : Parser α}
    (h : Joint T o { s with inHeader := false, guardAllowed := false }
      (p { s with inHeader := false, guardAllowed := false })
      (q { s with inHeader := false, guardAllowed := false })) :
    Joint T o s (Parser.unrestricted p s) (Parser.unrestricted q s) := by
  refine h.restored (g := fun s₁ => { s₁ with
    inHeader := s.inHeader, guardAllowed := s.guardAllowed }) fun ts s₁ hs => ⟨?_, rfl⟩
  exact ⟨⟨hs.takes, rfl, id, hs.turns⟩, hs.trace, hs.taken, hs.used⟩

theorem asHeader {p q : Parser α}
    (h : Joint T o { s with inHeader := true } (p { s with inHeader := true })
      (q { s with inHeader := true })) :
    Joint T o s (Parser.asHeader p s) (Parser.asHeader q s) := by
  refine h.restored (g := fun s₁ => { s₁ with inHeader := s.inHeader }) fun ts s₁ hs => ⟨?_, rfl⟩
  exact ⟨⟨hs.takes, rfl, hs.guard, hs.turns⟩, hs.trace, hs.taken, hs.used⟩

end Joint

-- ================================================================= cost

/-- A production that becomes active before its parent has taken a token
is of lower rank than the parent. -/
def Production.rank {α : Type} : Production α → Nat
  | .type => 1
  | .signature | .operand => 2
  | .primaryExpr => 3
  | .unaryExpr => 4
  | .expression => 5
  | .simpleStmt _ => 6
  | .statement | .typeSwitchGuard => 7
  | _ => 0

theorem Production.rank_lt {α : Type} (p : Production α) : p.rank < 8 := by
  unfold Production.rank
  split <;> omega

/-- More than can become active from a state on, beginning with a
production. -/
def Parsing.cost (s : Parsing) {α : Type} (p : Production α) : Nat :=
  8 * s.cursor.left + p.rank

theorem Parsing.cost_lt (s : Parsing) {α : Type} (p : Production α) :
    s.cost p < 8 * s.cursor.left + 8 :=
  Nat.add_lt_add_left p.rank_lt _

end GoSource
