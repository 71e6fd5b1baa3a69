/-
Rubbish is never passed over.

The grammar has no use for what the lexer could not make a token of, nor
for the keywords of statements that are refused, so a parse that takes
such a token does not exist: what is taken on the way to success is the
whole source (`Settled.whole`), and all of it has a use.

A parse that fails has taken the tokens up to the one it failed at. If
that one is rubbish, the error says so, and says exactly what and where it
is; unless it is about something that ended before, or the limit on
nesting was in the way. The error of a wrong token is never found at
rubbish, not even by accident: the two would have to lie at one place, but
rubbish has a width, and tokens with a width lie apart (`ofSource_wide`).
-/
import GoSource.Proofs.Lexing.Width
import GoSource.Proofs.Running.Termination

namespace GoSource

open GoSource.Parser

variable {α : Type}

-- ============================================================= in order

namespace Span.InOrder

variable {lo hi : Location} {xs ys : List Span} {a b : Span}

theorem le_start (h : InOrder lo ys hi) (hb : b ∈ ys) : lo ≤ b.start := by
  induction ys generalizing lo with
  | nil => exact nomatch hb
  | cons sp ys ih =>
    rcases List.mem_cons.mp hb with rfl | hb
    · exact h.1
    · exact Location.le_trans h.1 (Location.le_trans h.2.1 (ih h.2.2 hb))

/-- What stands further on starts where the other has ended. -/
theorem stop_le_start (h : InOrder lo (xs ++ ys) hi) (ha : a ∈ xs) (hb : b ∈ ys) :
    a.stop ≤ b.start := by
  induction xs generalizing lo with
  | nil => exact nomatch ha
  | cons sp xs ih =>
    rcases List.mem_cons.mp ha with rfl | ha
    · exact h.2.2.le_start (List.mem_append_right xs hb)
    · exact ih h.2.2 ha

end Span.InOrder

-- ======================================================= what is left over

namespace Cursor

variable {c d : Cursor} {ts : List Token}

/-- What has been taken, and what has not, are all the tokens. -/
theorem Takes.tokens_eq (h : c.Takes ts d) (hc : c.ahead.Proper) :
    c.tokens = ts ++ d.tokens := by
  induction ts generalizing c with
  | nil =>
    rw [takes_nil.mp h]
    rfl
  | cons t ts ih =>
    obtain ⟨rfl, ht, h⟩ := takes_cons.mp h
    have hnext := ih h (proper_next hc)
    rw [tokens_next hc] at hnext
    rw [tokens, if_neg ht, hnext, List.cons_append]

end Cursor

variable {source : String} {arena : Arena} {s : Parsing} {ts : List Token} {t : Token}

/-- A parse of a source has taken the tokens before the current one. -/
theorem Parsing.Took.tokens_eq (h : (Parsing.start (.ofSource source) arena).Took ts s) :
    (Token.Stream.ofSource source).tokens = ts ++ s.cursor.tokens := by
  have hproper := Token.Stream.ofSource_proper source
  have hstart : (Parsing.start (.ofSource source) arena).cursor.tokens =
      (Token.Stream.ofSource source).tokens :=
    Cursor.tokens_next (c := ⟨.atEnd .nowhere, .ofSource source, .nowhere⟩) hproper
  rw [← hstart]
  exact h.takes.tokens_eq
    (Cursor.proper_next (c := ⟨.atEnd .nowhere, .ofSource source, .nowhere⟩) hproper)

/-- Rubbish has not been taken, so it is among what is left. -/
theorem Parsing.Took.mem_of_error (h : (Parsing.start (.ofSource source) arena).Took ts s)
    (ht : t ∈ (Token.Stream.ofSource source).tokens) (hk : t.kind = .error) :
    t ∈ s.cursor.tokens := by
  rw [h.tokens_eq] at ht
  rcases List.mem_append.mp ht with ht | ht
  · have hused := h.used t ht
    rw [hk] at hused
    exact nomatch hused
  · exact ht

/-- Rubbish ends behind all that stands before it. -/
theorem Token.Stream.stop_lt_of_error {us vs : List Token} {u : Token}
    (htokens : (ofSource source).tokens = us ++ vs) (hu : u ∈ us) (ht : t ∈ vs)
    (hk : t.kind = .error) : u.span.stop < t.span.stop := by
  have hmem : t ∈ (ofSource source).tokens := htokens ▸ List.mem_append_right us ht
  have hwide : t.span.start < t.span.stop := by
    rcases ofSource_wide source t hmem with hwide | hsemi
    · exact hwide
    · rw [hk] at hsemi
      exact nomatch hsemi
  have horder := ofSource_inOrder source
  rw [htokens, List.map_append] at horder
  have hle : u.span.stop ≤ t.span.start :=
    horder.stop_le_start (List.mem_map_of_mem hu) (List.mem_map_of_mem ht)
  exact Location.lt_of_le_of_lt hle hwide

-- ============================================================== success

/-- All of a source has been taken, each token once and in order, and
there is no rubbish in it and nothing that is refused. -/
structure Parsing.Accepted (source : String) (s s' : Parsing) : Prop where
  whole : ∃ s₁, s.Took (Token.Stream.ofSource source).tokens s₁ ∧ s₁.current.kind = .eof ∧
    (s'.cursor = s₁.cursor ∧ s'.taken = s₁.taken ∨
      s'.cursor = s₁.cursor.next ∧ s'.taken = s₁.taken + 1)
  useful : ∀ t ∈ (Token.Stream.ofSource source).tokens,
    t.kind ∉ [.error, .kwSwitch, .kwSelect, .kwCase, .kwDefault, .tilde]

theorem Token.Kind.not_refused_of_hasUse {k : Token.Kind} (h : k.hasUse = true) :
    k ∉ [.error, .kwSwitch, .kwSelect, .kwCase, .kwDefault, .tilde] := by
  cases k <;> first | decide | exact nomatch h

theorem Parsing.Settled.accepted {a : α}
    (h : (Parsing.start (.ofSource source) arena).Settled (.ok a s)) :
    Parsing.Accepted source (Parsing.start (.ofSource source) arena) s := by
  obtain ⟨ts, s₁, hs, heof, hend⟩ := h
  have hall : (Token.Stream.ofSource source).tokens = ts := by
    have hnone : s₁.cursor.tokens = [] := if_pos heof
    rw [hs.tokens_eq, hnone, List.append_nil]
  rw [← hall] at hs
  refine ⟨⟨s₁, hs, heof, ?_⟩, fun t ht => Token.Kind.not_refused_of_hasUse (hs.used t ht)⟩
  rcases hend with hend | ⟨sp, s₂, hexpect, hcursor, htaken⟩
  · exact .inl hend
  · rw [expect_at heof] at hexpect
    obtain rfl : s₁.next = s₂ := by injection hexpect
    exact .inr ⟨hcursor, htaken⟩

-- ============================================================== failure

/-- How the error of a parse that began at `s` and failed at `s'` stands
to the rubbish in the source. -/
structure Parsing.Refused (source : String) (s : Parsing) (e : ParseError) (s' : Parsing) :
    Prop where
  /-- The current token is the first that has not been taken. -/
  taken : ∃ ts, s.Took ts s' ∧ (Token.Stream.ofSource source).tokens = ts ++ s'.cursor.tokens
  /-- A wrong token is none that is rubbish. -/
  elsewhere : ∀ wanted got sp trace, e = .unexpected wanted got sp trace →
    ∀ t ∈ (Token.Stream.ofSource source).tokens, t.kind = .error → sp ≠ t.span
  /-- What is said to be rubbish is the current token. -/
  exact : ∀ text sp, e = .badRune text sp →
    s'.current.kind = .error ∧ text = s'.current.text ∧ sp = s'.current.span
  /-- If the current token is rubbish, that is the error. Only an error
  that does not ask for a token comes before it: that the limit is reached,
  or that something read to its end is not what it has to be. -/
  rubbish : s'.current.kind = .error →
    e = .badRune s'.current.text s'.current.span ∨
      (∃ limit, e = .tooDeep limit s'.current.span) ∨
      ∃ wanted got sp trace, e = .unexpected wanted got sp trace ∧
        (wanted, got) ∈ ParseError.misreadings ∧ s.cursor.Stopped s'.cursor sp

/-- An error that is founded is never that of a wrong token where there is
rubbish. -/
theorem ParseError.Founded.ne_span {limit : Nat} {short : Prop} {wanted got : String} {sp : Span}
    {trace : List String}
    (h : Founded limit short (Parsing.start (.ofSource source) arena).cursor s.cursor
      (.unexpected wanted got sp trace))
    (hs : (Parsing.start (.ofSource source) arena).Took ts s)
    (ht : t ∈ (Token.Stream.ofSource source).tokens) (hk : t.kind = .error) : sp ≠ t.span := by
  intro hspan
  have hleft := hs.mem_of_error ht hk
  cases h with
  | earlier _ hsp =>
    -- No token that has been taken ends where the rubbish ends.
    obtain ⟨us, hus, u, hu, hstop⟩ := hsp
    rw [hus.unique hs.takes] at hu
    have hlt := Token.Stream.stop_lt_of_error hs.tokens_eq hu hleft hk
    rw [← hstop, hspan] at hlt
    exact Location.not_lt_self _ hlt
  | missing hne =>
    -- Neither does the current token, which is another one.
    unfold Cursor.tokens at hleft
    split at hleft
    · exact nomatch hleft
    · next hcurrent =>
      have hahead : t ∈ s.cursor.ahead.tokens := by
        rcases List.mem_cons.mp hleft with rfl | hahead
        · exact absurd hk hne
        · exact hahead
      have hsplit := hs.tokens_eq
      rw [Cursor.tokens, if_neg hcurrent, List.append_cons] at hsplit
      have hlt := Token.Stream.stop_lt_of_error hsplit
        (List.mem_append_right ts (List.mem_singleton_self s.cursor.current)) hahead hk
      rw [hspan] at hlt
      exact Location.not_lt_self _ hlt

/-- Where there is rubbish, a founded error is that of rubbish, or does not
ask for a token. -/
theorem ParseError.Founded.of_error {e : ParseError} {limit : Nat} {short : Prop} {o c : Cursor}
    (h : e.Founded limit short o c) (hk : c.current.kind = .error) :
    e = .badRune c.current.text c.current.span ∨
      (∃ limit, e = .tooDeep limit c.current.span) ∨
      ∃ wanted got sp trace, e = .unexpected wanted got sp trace ∧
        (wanted, got) ∈ ParseError.misreadings ∧ o.Stopped c sp := by
  cases h with
  | missing hne => exact absurd hk hne
  | earlier hwanted hsp => exact .inr (.inr ⟨_, _, _, _, rfl, hwanted, hsp⟩)
  | rubbish => exact .inl rfl
  | malformed hlit =>
    rw [hk] at hlit
    exact nomatch hlit
  | functionLiteral hbrace =>
    rw [hk] at hbrace
    exact nomatch hbrace
  | switchStatement hswitch =>
    rw [hk] at hswitch
    exact nomatch hswitch
  | selectStatement hselect =>
    rw [hk] at hselect
    exact nomatch hselect
  | tooDeep => exact .inr (.inl ⟨_, rfl⟩)

theorem ParseError.Founded.badRune_eq {limit : Nat} {short : Prop} {o c : Cursor} {text : String}
    {sp : Span} (h : Founded limit short o c (.badRune text sp)) :
    c.current.kind = .error ∧ text = c.current.text ∧ sp = c.current.span := by
  cases h with
  | rubbish hk => exact ⟨hk, rfl, rfl⟩

-- ========================================================= whole sources

/-- Rubbish and what is refused do not get past the parser. If it succeeds,
it has taken the whole source, each token once and in order, and there was
nothing of the kind in it. If it fails, no wrong token is reported where
there is rubbish: a parse that stops at rubbish for want of a token reports
that rubbish, with its text and its place. -/
theorem parse_heeds_rubbish (source : String) (entry : Entry) (maxDepth : Nat) (arena : Arena) :
    (∀ root s,
        entry.parser (Grammar.parse maxDepth) (.start (.ofSource source) arena) = .ok root s →
          Parsing.Accepted source (.start (.ofSource source) arena) s) ∧
      ∀ e s,
        entry.parser (Grammar.parse maxDepth) (.start (.ofSource source) arena) = .error e s →
          Parsing.Refused source (.start (.ofSource source) arena) e s := by
  have hboth := entry_deeper (.ofSource source) entry arena maxDepth 0
  refine ⟨fun root s hrun => ?_, fun e s hrun => ?_⟩
  · rw [hrun] at hboth
    exact hboth.settled.accepted
  · rw [hrun] at hboth
    obtain ⟨ts, hs⟩ := hboth.settled
    have hfounded := hboth.founded
    refine ⟨⟨ts, hs, hs.tokens_eq⟩, ?_, ?_, hfounded.of_error⟩
    · rintro wanted got sp trace rfl t ht hk
      exact hfounded.ne_span hs ht hk
    · rintro text sp rfl
      exact hfounded.badRune_eq

/-- Rubbish where an operand is wanted. -/
theorem parse_heeds_rubbish_operand : ∃ s,
    Entry.expression.parser (Grammar.parse 10) (.start (.ofSource "a + @") .empty) =
        .error (.badRune "@" ⟨⟨1, 5⟩, ⟨1, 6⟩⟩) s ∧
      Parsing.Refused "a + @" (.start (.ofSource "a + @") .empty)
        (.badRune "@" ⟨⟨1, 5⟩, ⟨1, 6⟩⟩) s := by
  have hrubbish : (parseSource "a + @" .expression 10 .empty).1.map (fun _ => ()) =
      .error (.badRune "@" ⟨⟨1, 5⟩, ⟨1, 6⟩⟩) := by decide +kernel
  cases hrun : (parseSource "a + @" .expression 10 .empty).1 with
  | ok root =>
    rw [hrun] at hrubbish
    cases hrubbish
  | error e =>
    rw [hrun] at hrubbish
    cases hrubbish
    obtain ⟨s, hs⟩ := parseStream_error hrun
    exact ⟨s, hs, (parse_heeds_rubbish "a + @" .expression 10 .empty).2 _ _ hs⟩

end GoSource
