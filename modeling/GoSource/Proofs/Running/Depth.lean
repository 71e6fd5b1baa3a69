/-
The limit on nesting cuts off, and does nothing else.

No production looks at the limit, so a run that did not need more than it
was allowed is the same run under every larger limit (`together_deeper`).
A run that was cut off says how much it was allowed; and since nothing but
`Grammar.parse` starts a production, no more than that many are ever
active. The latter is shown with an alarm: a grammar that answers a
production beyond the limit in some other way cannot be told from the
grammar itself (`together_watched`).
-/
import GoSource.Proofs.Running.Parse

namespace GoSource

open GoSource.Parser

variable {depth more limit : Nat}

-- ========================================================= larger limits

def ParseError.IsTooDeep (e : ParseError) : Prop :=
  ∃ limit sp, e = .tooDeep limit sp

/-- The grammar keeps step with itself under a larger limit, as long as it
is not cut off. -/
theorem together_deeper : Together ParseError.IsTooDeep limit depth (Grammar.parse depth)
    (Grammar.parse (depth + more)) := by
  induction depth with
  | zero =>
    refine ⟨parse_sound 0, ?_, ?_⟩
    · rintro α p m s - - rfl
      exact .excused (.refl s) (.tooDeep (Nat.zero_le _)) ⟨_, _, rfl⟩
    · rintro s - rfl
      exact .excused (Parsing.Moves.refl s).took (.tooDeep (Nat.zero_le _)) ⟨_, _, rfl⟩
  | succ depth ih =>
    rw [Nat.add_right_comm]
    exact ih.deeper (parse_sound _) (fun _ _ => by rw [Grammar.parse_succ])
      fun _ _ _ => by rw [Grammar.parse_succ]

-- ============================================================== an alarm

/-- The grammar, but where more productions than a bound would be active,
`alarm` answers for the innermost. -/
def Grammar.watched (bound : Nat) (alarm : SubParser) : (depth : Nat) → SubParser
  | 0, _, _ => Parser.tooDeep
  | depth + 1, _, p => Parser.during p.name fun s =>
    if bound < s.trace.length then alarm p s else p.body (watched bound alarm depth) s

/-- Within the bound the alarm does not go off. -/
theorem together_watched {bound : Nat} (alarm : SubParser) (hbound : limit ≤ bound) :
    Together (fun _ => False) limit depth (Grammar.parse depth)
      (Grammar.watched bound alarm depth) := by
  induction depth with
  | zero =>
    refine ⟨parse_sound 0, ?_, ?_⟩
    · rintro α p m s - - rfl
      exact .error (.refl s) (.tooDeep (Nat.zero_le _))
    · rintro s - rfl
      exact .error (Parsing.Moves.refl s).took (.tooDeep (Nat.zero_le _))
  | succ depth ih =>
    refine ih.deeper (parse_sound _) (fun _ _ => by rw [Grammar.parse_succ]) fun p s hlimit => ?_
    have hquiet : ¬ bound < (p.name :: s.trace).length := by
      rw [List.length_cons]
      omega
    simp only [Grammar.watched, Parser.during, if_neg hquiet]

-- ========================================================= whole inputs

variable {stream : Token.Stream} {entry : Entry} {arena : Arena} {maxDepth : Nat}

/-- A run over a whole input, beside itself under a larger limit. -/
theorem entry_deeper (stream : Token.Stream) (entry : Entry) (arena : Arena)
    (maxDepth more : Nat) :
    Finished ⟨maxDepth, maxDepth < 8 * (Parsing.start stream arena).cursor.left + 8,
        ParseError.IsTooDeep⟩ (Parsing.start stream arena).cursor (.start stream arena)
      (entry.parser (Grammar.parse maxDepth) (.start stream arena))
      (entry.parser (Grammar.parse (maxDepth + more)) (.start stream arena)) :=
  together_deeper.entry_finished entry ready_start (Nat.zero_add maxDepth)

/-- What did not come to the limit is not changed by a larger one. -/
theorem run_eq_of_not_tooDeep
    (h : ∀ e s, entry.parser (Grammar.parse maxDepth) (.start stream arena) = .error e s →
      ¬ e.IsTooDeep) :
    entry.parser (Grammar.parse (maxDepth + more)) (.start stream arena) =
      entry.parser (Grammar.parse maxDepth) (.start stream arena) :=
  ((entry_deeper stream entry arena maxDepth more).eq_of_not_excused h).symm

/-- A limit either does not matter, and then a larger one does not either,
or it is the reason why the parse fails, and then the error says so. As
many productions as it says are active at once at most, whether one looks
at the trace of an error or sets an alarm for one more. -/
theorem parseStream_maxDepth {larger : Nat} (h : maxDepth ≤ larger) :
    ((∀ limit sp, (parseStream stream entry maxDepth arena).1 ≠ .error (.tooDeep limit sp)) →
        parseStream stream entry larger arena = parseStream stream entry maxDepth arena) ∧
      (∀ limit sp, (parseStream stream entry maxDepth arena).1 = .error (.tooDeep limit sp) →
        limit = maxDepth) ∧
      (∀ wanted got sp trace,
        (parseStream stream entry maxDepth arena).1 = .error (.unexpected wanted got sp trace) →
          trace.length ≤ maxDepth) ∧
      ∀ alarm : SubParser,
        entry.parser (Grammar.watched maxDepth alarm maxDepth) (.start stream arena) =
          entry.parser (Grammar.parse maxDepth) (.start stream arena) := by
  obtain ⟨more, rfl⟩ := Nat.exists_eq_add_of_le h
  have founded : ∀ e, (parseStream stream entry maxDepth arena).1 = .error e →
      ∃ short o c, e.Founded maxDepth short o c := by
    intro e he
    obtain ⟨s, hs⟩ := parseStream_error he
    have hrun := entry_deeper stream entry arena maxDepth more
    rw [hs] at hrun
    exact ⟨_, _, _, hrun.founded⟩
  refine ⟨fun hne => ?_, fun limit sp he => ?_, fun wanted got sp trace he => ?_, fun alarm => ?_⟩
  · have hrun : entry.parser (Grammar.parse (maxDepth + more)) (.start stream arena) =
        entry.parser (Grammar.parse maxDepth) (.start stream arena) := by
      refine run_eq_of_not_tooDeep fun e s hs ⟨limit, sp, he⟩ => hne limit sp ?_
      unfold parseStream
      rw [hs, he]
    unfold parseStream
    rw [hrun]
  · obtain ⟨short, o, c, hfounded⟩ := founded _ he
    exact hfounded.limit_eq
  · obtain ⟨short, o, c, hfounded⟩ := founded _ he
    exact hfounded.trace_le
  · have hready : (Parsing.start stream arena).Ready .inside := ready_start
    have hrun := (together_watched alarm (Nat.le_refl maxDepth)).entry_finished entry hready
      (Nat.zero_add maxDepth)
    exact (hrun.eq_of_not_excused fun _ _ _ => id).symm

/-- Whoever allows a million productions need not try. -/
theorem parseStream_maxDepth_parens :
    parseSource "(a)" .expression 1000000 .empty = parseSource "(a)" .expression 20 .empty := by
  have hok : (parseSource "(a)" .expression 20 .empty).1.toOption.isSome = true := by
    decide +kernel
  refine (parseStream_maxDepth (by decide)).1 fun limit sp htooDeep => ?_
  rw [parseSource, htooDeep] at hok
  exact nomatch hok

end GoSource
