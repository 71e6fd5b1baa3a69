/-
A parse ends, and does not read beyond the end.

Every token is taken at most once, so what a parse takes is bounded by
what there is: the tokens of the stream, the one looked at before anything
is taken, and the end of the input, which an entry may take after all else
(`Finished.settled`). Nothing else could keep a parse going. A repetition
is never ended by its count (`Grammar.Loop.advances`), and a limit on
nesting that exceeds the cost of the whole input is no limit
(`run_of_large_limit`).
-/
import GoSource.Proofs.Running.Depth
import GoSource.Proofs.Running.Turns

namespace GoSource

open GoSource.Parser

variable {α : Type} {stream : Token.Stream} {entry : Entry} {arena : Arena} {maxDepth more : Nat}

-- ======================================================= tokens, counted

/-- There are no more tokens left at the start than the stream has. -/
theorem left_start_le : (Parsing.start stream arena).cursor.left ≤ stream.lexemes.length := by
  unfold Cursor.left
  split
  · exact Nat.zero_le _
  · next hk =>
    obtain ⟨lexemes, trailing, stop⟩ := stream
    cases lexemes with
    | nil => exact absurd rfl hk
    | cons l rest => exact Nat.le_refl _

theorem Parsing.Took.taken_le {s : Parsing} {ts : List Token}
    (h : (Parsing.start stream arena).Took ts s) : s.taken ≤ stream.lexemes.length + 1 := by
  have hleft := h.takes.left_add_length
  have hstart : (Parsing.start stream arena).cursor.left ≤ stream.lexemes.length := left_start_le
  have htaken : s.taken = 1 + ts.length := h.taken
  omega

/-- How a run over a whole input ends: with an error before the end, or
at the end, which may then have been taken. -/
def Parsing.Settled (s : Parsing) : EStateM.Result ParseError Parsing α → Prop
  | .ok _ s' => ∃ ts s₁, s.Took ts s₁ ∧ s₁.current.kind = .eof ∧
      (s'.cursor = s₁.cursor ∧ s'.taken = s₁.taken ∨
        ∃ sp s₂, expect .eof s₁ = .ok sp s₂ ∧ s'.cursor = s₂.cursor ∧ s'.taken = s₂.taken)
  | .error _ s' => ∃ ts, s.Took ts s'

theorem Finished.settled {T : Terms} {o : Cursor} {s : Parsing}
    {x y : EStateM.Result ParseError Parsing α} (h : Finished T o s x y) : s.Settled x := by
  cases h with
  | atEnd hs heof => exact ⟨_, _, hs, heof, .inl ⟨rfl, rfl⟩⟩
  | pastEnd hs heof hcursor htaken =>
    exact ⟨_, _, hs, heof, .inr ⟨_, _, expect_at heof, hcursor, htaken⟩⟩
  | error hs he => exact ⟨_, hs⟩
  | excused hs he hex => exact ⟨_, hs⟩

/-- Beyond the tokens of the stream, the first look at it and the end are
all that may be taken. -/
theorem Parsing.Settled.taken_le {x : EStateM.Result ParseError Parsing α}
    (h : (Parsing.start stream arena).Settled x) :
    (finalState x).taken ≤ stream.lexemes.length + 2 := by
  cases x with
  | error e s =>
    obtain ⟨ts, hs⟩ := h
    have hle : s.taken ≤ stream.lexemes.length + 1 := hs.taken_le
    exact Nat.le_succ_of_le hle
  | ok a s =>
    obtain ⟨ts, s₁, hs, heof, hend⟩ := h
    have hle := hs.taken_le
    show s.taken ≤ stream.lexemes.length + 2
    rcases hend with ⟨-, htaken⟩ | ⟨sp, s₂, hexpect, -, htaken⟩
    · omega
    · rw [expect_at heof] at hexpect
      obtain rfl : s₁.next = s₂ := by injection hexpect
      have hnext : s₁.next.taken = s₁.taken + 1 := rfl
      omega

-- ======================================================= limits, exceeded

/-- More productions cannot become active than tokens and ranks allow. -/
theorem not_tooDeep_of_large_limit (h : 8 * stream.lexemes.length + 8 ≤ maxDepth) {e : ParseError}
    {s : Parsing}
    (hrun : entry.parser (Grammar.parse maxDepth) (.start stream arena) = .error e s) :
    ¬ e.IsTooDeep := by
  rintro ⟨limit, sp, rfl⟩
  have hboth := entry_deeper stream entry arena maxDepth 0
  rw [hrun] at hboth
  have hshort : maxDepth < 8 * (Parsing.start stream arena).cursor.left + 8 :=
    hboth.founded.short_of_tooDeep
  have hstart : (Parsing.start stream arena).cursor.left ≤ stream.lexemes.length := left_start_le
  omega

theorem run_of_large_limit (h : 8 * stream.lexemes.length + 8 ≤ maxDepth) :
    entry.parser (Grammar.parse (maxDepth + more)) (.start stream arena) =
      entry.parser (Grammar.parse maxDepth) (.start stream arena) :=
  run_eq_of_not_tooDeep fun _ _ => not_tooDeep_of_large_limit h

-- ========================================================= whole inputs

/-- A run over a stream takes its tokens at most once, and of the end of
the input only what the entry asks for when all else is done. Without a
limit on nesting it is no different from a run whose limit exceeds what
the tokens can need, and that one never comes to its limit. Each turn of a
repetition fails, or is the last, or takes a token; so the repetitions are
what they would be without a count, from the start of the run on. -/
theorem entry_terminates (stream : Token.Stream) (entry : Entry) (arena : Arena) :
    (∀ maxDepth,
      (Parsing.start stream arena).Settled
          (entry.parser (Grammar.parse maxDepth) (.start stream arena)) ∧
        (finalState (entry.parser (Grammar.parse maxDepth) (.start stream arena))).taken ≤
          stream.lexemes.length + 2) ∧
      (∀ more limit sp,
        let enough := 8 * stream.lexemes.length + 8
        parseStream stream entry (enough + more) arena = parseStream stream entry enough arena ∧
          (parseStream stream entry enough arena).1 ≠ .error (.tooDeep limit sp)) ∧
      (Parsing.start stream arena).Fueled ∧
      ∀ maxDepth {σ : Type} (loop : Grammar.Loop σ),
        Advances (loop.turn (Grammar.parse maxDepth)) ∧
          ∀ a s, s.Fueled →
            repeating (loop.turn (Grammar.parse maxDepth)) a s =
              (loop.turn (Grammar.parse maxDepth) a >>=
                afterTurn (loop.turn (Grammar.parse maxDepth))) s := by
  refine ⟨fun maxDepth => ?_, fun more limit sp => ⟨?_, fun he => ?_⟩, ready_start.fueled,
    fun maxDepth σ loop => ?_⟩
  · have hsettled := (entry_deeper stream entry arena maxDepth 0).settled
    exact ⟨hsettled, hsettled.taken_le⟩
  · unfold parseStream
    rw [run_of_large_limit (Nat.le_refl _)]
  · obtain ⟨s, hs⟩ := parseStream_error he
    exact not_tooDeep_of_large_limit (Nat.le_refl _) hs ⟨limit, sp, rfl⟩
  · have hadvances := loop.advances (parse_sound maxDepth)
    exact ⟨hadvances, fun a s hs => hadvances.repeating_eq a hs⟩

/-- A call that is never closed: four tokens with the semicolon that ends
the line, and a list of statements that needs no count to end. -/
theorem entry_terminates_unclosed :
    (finalState (Entry.statements.parser (Grammar.parse 20)
        (.start (.ofSource "f(a") .empty))).taken ≤ 6 ∧
      repeating (Grammar.Loop.stmts.turn (Grammar.parse 20)) []
          (.start (.ofSource "f(a") .empty) =
        (Grammar.Loop.stmts.turn (Grammar.parse 20) [] >>=
          afterTurn (Grammar.Loop.stmts.turn (Grammar.parse 20)))
            (.start (.ofSource "f(a") .empty) := by
  have hlength : (Token.Stream.ofSource "f(a").lexemes.length = 4 := by decide +kernel
  obtain ⟨hruns, -, hfueled, hloops⟩ :=
    entry_terminates (.ofSource "f(a") .statements .empty
  refine ⟨?_, (hloops 20 .stmts).2 [] _ hfueled⟩
  have htaken := (hruns 20).2
  rw [hlength] at htaken
  exact htaken

end GoSource
