/-
Every production leaves the state as it found it, but for what it read.

`Parsing.Restores s s'` says what a parser that was started at `s` leaves
behind, when it succeeds and when it fails: the same productions are active,
a header is being read if it was before, `x.(type)` is acceptable only if it
was before, and what has been taken is the beginning of what was to come
(`Parsing.Consumes`). The operations that set a mode for another parser put
it back whatever comes of it, and the rest is a sequence of operations that
touch neither trace nor modes. So nothing is asked of the state, of the
tokens, or of the number of turns that are left.

The end of the input is a token like any other here. What a production takes
from a place where it may begin stops before it; started elsewhere, it may
take the end.

# Pushing and popping

A production pushes its name and pops what is innermost in the end. Since
all that it does in between leaves the trace as it was, this comes to the
same as remembering the trace (`Parser.during`), and that is how productions
are looked at from then on (`Grammar.parse_succ`).
-/
import GoSource.Proofs.Running.Documenting
import Mathlib.Data.Stream.Init

namespace GoSource

open GoSource.Parser

variable {α β σ : Type} {s s' s'' : Parsing} {ts us : List Token}

-- ====================================================== tokens to come

/-- The tokens of a stream and the end of the input behind them, over and
over. -/
def Token.Stream.endless (stream : Token.Stream) : Stream' Token :=
  stream.tokens ++ₛ Stream'.const (.atEnd stream.stop)

namespace Parsing

/-- The tokens that may still be taken, from the current one on. -/
def upcoming (s : Parsing) : Stream' Token := Stream'.cons s.current s.ahead.endless

theorem upcoming_next (s : Parsing) : s.upcoming = Stream'.cons s.current s.next.upcoming := by
  suffices h : s.ahead.endless = s.next.upcoming from congrArg _ h
  obtain ⟨current, ⟨lexemes, trailing, stop⟩⟩ := s
  cases lexemes with
  | nil => exact Stream'.const_eq _
  | cons l rest => exact Stream'.cons_append_stream ..

/-- From one state to another these tokens were taken, which are the first of
those to come. -/
structure Consumes (s : Parsing) (ts : List Token) (s' : Parsing) : Prop where
  upcoming : s.upcoming = ts ++ₛ s'.upcoming
  taken : s'.taken = s.taken + ts.length
  previousEnd : s'.previousEnd = (ts.getLast?.map (·.span.stop)).getD s.previousEnd

theorem Consumes.refl (s : Parsing) : s.Consumes [] s := ⟨rfl, rfl, rfl⟩

theorem Consumes.next (s : Parsing) : s.Consumes [s.current] s.next := ⟨s.upcoming_next, rfl, rfl⟩

theorem Consumes.trans (h : s.Consumes ts s') (h' : s'.Consumes us s'') :
    s.Consumes (ts ++ us) s'' := by
  refine ⟨?_, ?_, ?_⟩
  · rw [h.upcoming, h'.upcoming, Stream'.append_append_stream]
  · rw [h'.taken, h.taken, List.length_append, Nat.add_assoc]
  · rw [h'.previousEnd, h.previousEnd, List.getLast?_append]
    cases us.getLast? with
    | none => rfl
    | some u => rfl

/-- What a parser leaves as it was, and what it may have done. -/
structure Restores (s s' : Parsing) : Prop where
  trace : s'.trace = s.trace
  inHeader : s'.inHeader = s.inHeader
  guard : s'.guardAllowed = s.guardAllowed ∨ s'.guardAllowed = false
  consumes : ∃ ts, s.Consumes ts s'

namespace Restores

theorem refl (s : Parsing) : s.Restores s := ⟨rfl, rfl, .inl rfl, [], .refl s⟩

theorem next (s : Parsing) : s.Restores s.next := ⟨rfl, rfl, .inl rfl, _, .next s⟩

theorem trans (h : s.Restores s') (h' : s'.Restores s'') : s.Restores s'' := by
  obtain ⟨ts, hts⟩ := h.consumes
  obtain ⟨us, hus⟩ := h'.consumes
  refine ⟨h'.trace.trans h.trace, h'.inHeader.trans h.inHeader, ?_, ts ++ us, hts.trans hus⟩
  rcases h'.guard with hguard | hguard
  · rw [hguard]
    exact h.guard
  · exact .inr hguard

end Restores

end Parsing

-- ============================================================ restoring

/-- The state in which a run ends. -/
def finalState : EStateM.Result ParseError Parsing α → Parsing
  | .ok _ s => s
  | .error _ s => s

/-- A result with the state changed. -/
def restore (g : Parsing → Parsing) :
    EStateM.Result ParseError Parsing α → EStateM.Result ParseError Parsing α
  | .ok a s => .ok a (g s)
  | .error e s => .error e (g s)

theorem finalState_restore (g : Parsing → Parsing) (x : EStateM.Result ParseError Parsing α) :
    finalState (restore g x) = g (finalState x) := by
  cases x <;> rfl

/-- Whatever it comes to, the parser restores the state in which it was
started. -/
def Parser.Restoring (p : Parser α) : Prop := ∀ s : Parsing, s.Restores (finalState (p s))

namespace Parser.Restoring

variable {p : Parser α} {u : α → Parser β}

theorem look (f : Parsing → α) : Restoring fun s => .ok (f s) s := .refl

theorem pure (x : α) : (Pure.pure x : Parser α).Restoring := .refl

theorem throw (e : ParseError) : (MonadExcept.throw e : Parser α).Restoring := .refl

theorem tooDeep : (Parser.tooDeep : Parser α).Restoring := .refl

theorem advance : Parser.advance.Restoring := .next

theorem disallowGuard : (allowGuard false).Restoring :=
  fun _ => ⟨rfl, rfl, .inr rfl, [], rfl, rfl, rfl⟩

theorem building (add : Arena → α × Arena) : (Parser.building add).Restoring :=
  fun _ => ⟨rfl, rfl, .inl rfl, [], rfl, rfl, rfl⟩

theorem docLines (start : Location) : (Parser.docLines start).Restoring :=
  fun _ => ⟨rfl, rfl, .inl rfl, [], rfl, rfl, rfl⟩

theorem bind (hp : p.Restoring) (hu : ∀ x, (u x).Restoring) : (p >>= u).Restoring := by
  intro s
  have hfirst := hp s
  simp only [Bind.bind, EStateM.bind]
  cases hx : p s with
  | error e s₁ =>
    rw [hx] at hfirst
    exact hfirst
  | ok x s₁ =>
    rw [hx] at hfirst
    exact hfirst.trans (hu x s₁)

theorem unexpectedAt (sp : Span) (wanted got : String) :
    (Parser.unexpectedAt sp wanted got : Parser α).Restoring :=
  bind (look _) fun _ => throw _

-- ================================================================ modes

/-- A parser for which a mode is set, and put back whatever it comes to. -/
theorem restored (enter : Parsing → Parsing) (leave : Parsing → Parsing → Parsing)
    (hp : p.Restoring) (h : ∀ s s', (enter s).Restores s' → s.Restores (leave s s')) :
    Restoring fun s => restore (leave s) (p (enter s)) := by
  intro s
  rw [finalState_restore]
  exact h s _ (hp (enter s))

/-- What is popped is what was pushed, because the parser between leaves the
trace as it was. -/
theorem within {name : String} (hp : p.Restoring) : (Parser.within name p).Restoring := by
  refine restored (fun s => { s with trace := name :: s.trace })
    (fun _ s' => { s' with trace := s'.trace.tail }) hp fun s s' h => ?_
  obtain ⟨ts, hts⟩ := h.consumes
  have htrace : s'.trace.tail = s.trace := congrArg List.tail h.trace
  exact ⟨htrace, h.inHeader, h.guard, ts, hts.upcoming, hts.taken, hts.previousEnd⟩

theorem unrestricted (hp : p.Restoring) : (Parser.unrestricted p).Restoring := by
  refine restored (fun s => { s with inHeader := false, guardAllowed := false })
    (fun s s' => { s' with inHeader := s.inHeader, guardAllowed := s.guardAllowed }) hp
    fun s s' h => ?_
  obtain ⟨ts, hts⟩ := h.consumes
  exact ⟨h.trace, rfl, .inl rfl, ts, hts.upcoming, hts.taken, hts.previousEnd⟩

theorem asHeader (hp : p.Restoring) : (Parser.asHeader p).Restoring := by
  refine restored (fun s => { s with inHeader := true })
    (fun s s' => { s' with inHeader := s.inHeader }) hp fun s s' h => ?_
  obtain ⟨ts, hts⟩ := h.consumes
  exact ⟨h.trace, rfl, h.guard, ts, hts.upcoming, hts.taken, hts.previousEnd⟩

-- =========================================================== repetition

/-- Turn by turn, no matter what ends the repetition. -/
theorem repeating {turn : σ → Parser (Turn σ)} (hturn : ∀ x, (turn x).Restoring) (x : σ) :
    (Parser.repeating turn x).Restoring := by
  suffices h : ∀ n x, (takeTurns turn n x).Restoring from fun s => h s.turns x s
  intro n
  induction n with
  | zero => exact fun x => pure x
  | succ n ih =>
    intro x
    refine bind (hturn x) fun next => ?_
    cases next with
    | again x' => exact ih x'
    | stop x' => exact pure x'

end Parser.Restoring

-- ================================================================ woven

theorem Composed.restoring {parse : SubParser} {p : Parser α}
    (hparse : ∀ {α : Type} (p : Production α), p.grants = false → (parse p).Restoring)
    (hp : Composed parse p) : p.Restoring := by
  induction hp with
  | look _ => exact .look _
  | advance => exact .advance
  | disallowGuard => exact .disallowGuard
  | pure x => exact .pure x
  | throw e => exact .throw e
  | unexpectedAt sp wanted got => exact .unexpectedAt sp wanted got
  | building => exact .building _
  | bind _ _ ihp ihu => exact .bind ihp ihu
  | unrestricted _ ih => exact .unrestricted ih
  | repeating _ _ x ih => exact .repeating ih x
  | production p hp =>
    refine hparse p ?_
    cases p <;> first | rfl | exact nomatch hp

theorem Woven.restoring {parse : SubParser} {p : Parser α}
    (hparse : ∀ {α : Type} (p : Production α), p.grants = false → (parse p).Restoring)
    (hp : Woven parse p) : p.Restoring := by
  induction hp with
  | composed hp => exact hp.restoring hparse
  | bind _ _ ihp ihu => exact .bind ihp ihu
  | unrestricted _ ih => exact .unrestricted ih
  | asHeader _ ih => exact .asHeader ih
  | repeating _ _ x ih => exact .repeating ih x
  | production p hp => exact hparse p hp

theorem Documenting.restoring {parse : SubParser} {p : Parser α}
    (hparse : ∀ {α : Type} (p : Production α), p.grants = false → (parse p).Restoring)
    (hp : Documenting parse p) : p.Restoring := by
  induction hp with
  | woven hp => exact hp.restoring hparse
  | docLines start => exact .docLines start
  | newDecl => exact .building _
  | bind _ _ ihp ihu => exact .bind ihp ihu
  | unrestricted _ ih => exact .unrestricted ih
  | repeating _ _ x ih => exact .repeating ih x

-- ========================================================== productions

namespace Grammar

variable {depth : Nat}

theorem parse_restoring {p : Production α} (hp : p.grants = false) :
    (parse depth p).Restoring := by
  induction depth generalizing α with
  | zero => exact .tooDeep
  | succ depth ih => exact .within ((p.body_documenting hp).restoring fun _ hq => ih hq)

theorem documenting_restoring {p : Parser α} (hp : Documenting (parse depth) p) : p.Restoring :=
  hp.restoring fun _ => parse_restoring

/-- The guard of a type switch makes `x.(type)` acceptable at the start, and
may fail before it takes this back. In all else it is like the others. -/
theorem typeSwitchGuard_body_restores (s : Parsing) :
    { s with guardAllowed := true }.Restores
      (finalState (typeSwitchGuard (parse depth) s)) := by
  obtain ⟨rest, hrest, hbody⟩ := @typeSwitchGuard_woven (parse depth)
  rw [hbody]
  exact documenting_restoring (.woven hrest) { s with guardAllowed := true }

theorem typeSwitchGuard_restores (s : Parsing) :
    { s with guardAllowed := true }.Restores
      (finalState (parse depth .typeSwitchGuard s)) := by
  cases depth with
  | zero =>
    refine ⟨rfl, rfl, ?_, [], rfl, rfl, rfl⟩
    show s.guardAllowed = true ∨ s.guardAllowed = false
    cases s.guardAllowed with
    | true => exact .inl rfl
    | false => exact .inr rfl
  | succ depth =>
    obtain ⟨rest, hrest, hbody⟩ := @typeSwitchGuard_woven (parse depth)
    have hwithin : (within Production.typeSwitchGuard.name rest).Restoring :=
      .within (documenting_restoring (.woven hrest))
    show { s with guardAllowed := true }.Restores
      (finalState (within Production.typeSwitchGuard.name (typeSwitchGuard (parse depth)) s))
    rw [hbody]
    exact hwithin { s with guardAllowed := true }

end Grammar

-- ================================================ pushing and popping

/-- Runs a parser with one more production active, and then with those that
were active before. -/
def Parser.during (name : String) (p : Parser α) : Parser α := fun s =>
  match p { s with trace := name :: s.trace } with
  | .ok x s' => .ok x { s' with trace := s.trace }
  | .error e s' => .error e { s' with trace := s.trace }

theorem Parser.within_eq_during {name : String} {p : Parser α}
    (hp : ∀ s, (finalState (p s)).trace = s.trace) : within name p = during name p := by
  funext s
  have htrace := hp { s with trace := name :: s.trace }
  unfold within during
  cases hx : p { s with trace := name :: s.trace } with
  | ok x s' =>
    rw [hx] at htrace
    have hpopped : s'.trace.tail = s.trace := congrArg List.tail htrace
    simp only [hpopped]
  | error e s' =>
    rw [hx] at htrace
    have hpopped : s'.trace.tail = s.trace := congrArg List.tail htrace
    simp only [hpopped]

open Grammar in
/-- What a production consists of leaves the trace as it was. -/
theorem Production.body_trace {depth : Nat} (p : Production α) (s : Parsing) :
    (finalState (p.body (Grammar.parse depth) s)).trace = s.trace := by
  by_cases hp : p.grants = false
  · exact (documenting_restoring (p.body_documenting hp) s).trace
  cases p with
  | typeSwitchGuard => exact (typeSwitchGuard_body_restores s).trace
  | _ => exact absurd rfl hp

theorem Grammar.parse_succ {depth : Nat} (p : Production α) :
    parse (depth + 1) p = during p.name (p.body (parse depth)) :=
  within_eq_during p.body_trace

open Grammar in
/-- From whatever state it is started, and whatever it comes to, what is
parsed leaves trace and modes as they were, but that `x.(type)` may be
acceptable no longer, and has taken a beginning of what was to come. This
is so for all productions but the guard of a type switch, for what they
have in common or have been cut into, and for whole inputs. -/
theorem productions_restore (depth : Nat) (s : Parsing) :
    (∀ {α : Type} (p : Production α), p.grants = false →
        s.Restores (finalState (parse depth p s))) ∧
      (∀ {α : Type} (f : Fragment α), s.Restores (finalState (f.parser (parse depth) s))) ∧
      ∀ entry : Entry, entry ≠ .typeSwitchGuard →
        s.Restores (finalState (entry.parser (parse depth) s)) := by
  refine ⟨fun p hp => ?_, fun f => ?_, fun entry hentry => ?_⟩
  · exact parse_restoring hp s
  · exact documenting_restoring f.parser_documenting s
  · exact documenting_restoring (.woven (Entry.parser_woven hentry)) s

/-- An operand in the header of an `if`, between parentheses that are never
closed: they lift the restrictions of the header, and the error leaves them
in force. -/
theorem productions_restore_unclosed :
    let s : Parsing :=
      { Parsing.start (.ofSource "(a.(type") .empty with trace := ["IfStmt"], inHeader := true }
    let s' := finalState (Grammar.parse 20 .operand s)
    s'.current.kind = .kwType ∧ Production.operand.grants = false ∧
      Entry.file ≠ .typeSwitchGuard ∧ s.Restores s' ∧
      s.Restores (finalState (Entry.file.parser (Grammar.parse 20) s)) := by
  intro s s'
  obtain ⟨hproduction, -, hentry⟩ := productions_restore 20 s
  have hfile : Entry.file ≠ .typeSwitchGuard := by decide
  exact ⟨by decide +kernel, rfl, hfile, hproduction .operand rfl, hentry .file hfile⟩

end GoSource
