/-
What a token sees.

Where a token ends, and which it is, is decided by what comes next, and how
far the lexer looks is not bounded: a quote may be closed far behind, or not
at all. But it looks for little. Words, numbers and operators are decided
in front of the next white space or slash, where the latter does not begin
them (`measure_stops`), and so neither what a comment says nor how a line
ends is seen. What is quoted and closed is closed in any case, so that it
is only an open quote for which all of the rest matters.

`Alike after after'` says that two texts look the same to a token that they
stand behind: there is no other token then (`measure_alike`). Whether a
block comment ends is not part of this, and it is no token if it does.

No token but a raw string goes on over the end of a line, unless it is a
comment that never ends (`measure_lines`).
-/
import GoSource.Proofs.Lexing.Relexing

namespace GoSource

/-- A block comment that never ends, which is no token and reaches to the end
of the source. -/
def Token.IsUnclosedComment (t : Token) : Prop := t.kind = .error ∧ ['/', '*'] <+: t.text.toList

instance (t : Token) : Decidable t.IsUnclosedComment := inferInstanceAs (Decidable (_ ∧ _))

namespace Piece

variable {c quote : Char} {cs text more after after' : List Char} {kind : Token.Kind}

-- =========================================================== looking ahead

theorem BeginsToken.of_append (h : BeginsToken c (text ++ more)) : BeginsToken c text := by
  refine ⟨h.1, fun hc x hx => h.2 hc x ?_⟩
  rw [Option.mem_def] at hx ⊢
  rw [List.head?_append, hx]
  rfl

/-- What sets a text apart makes no comment of it. -/
theorem BeginsToken.append (h : BeginsToken c text) (hmore : SetApart more) :
    BeginsToken c (text ++ more) := by
  refine ⟨h.1, fun hc x hx => ?_⟩
  cases text with
  | cons y text => exact h.2 hc x hx
  | nil =>
    have hnone : '/' ∉ whites ∧ '*' ∉ whites := by decide
    refine ⟨?_, ?_⟩
    · rintro rfl
      exact hnone.1 (hmore _ hx)
    · rintro rfl
      exact hnone.2 (hmore _ hx)

/-- What is not quoted is decided in front of the next slash. -/
theorem measure_stops (hmore : Stops more) (hquote : c ∉ ['\x60', '\x22', '\x27'])
    (h : BeginsToken c (text ++ more)) : measure (c :: (text ++ more)) = measure (c :: text) := by
  simp only [List.mem_cons, List.not_mem_nil, or_false, not_or] at hquote
  obtain ⟨hraw, hstring, hrune⟩ := hquote
  have hword : (c :: (text ++ more)).takeWhile continuesWord =
      (c :: text).takeWhile continuesWord :=
    @takeWhile_stops (c :: text) more continuesWord hmore (by decide +kernel)
  rw [measure_token h, measure_token h.of_append, hword, startsNumber_stops hmore]
  by_cases hc : startsWord c = true
  · rw [if_pos hc, if_pos hc]
  rw [if_neg hc, if_neg hc]
  by_cases hstart : startsNumber (c :: text) = true
  · obtain ⟨number, after, hnumber, hlength, -⟩ := number_split hstart
    have hcut : c :: (text ++ more) = number ++ (after ++ more) := by
      rw [← List.append_assoc, ← hnumber]
      rfl
    rw [if_pos hstart, if_pos hstart, numberLength_stops hmore hstart, hlength, hcut, hnumber,
      List.take_left, List.take_left]
  rw [if_neg hstart, if_neg hstart, if_neg hraw, if_neg hraw, if_neg hstring, if_neg hstring,
    if_neg hrune, if_neg hrune, leadingOperator_stops hmore]

-- ======================================================= what is not closed

section

variable {passed passed' : Nat}

theorem closingQuote_newline (hquote : '\n' ≠ quote) :
    closingQuote quote passed ('\n' :: cs) = none := by
  rw [closingQuote.eq_def]
  dsimp only
  rw [if_neg hquote, if_pos rfl]

/-- The end of a line cannot be escaped. -/
theorem closingQuote_broken (hquote : '\\' ≠ quote) :
    closingQuote quote passed ('\\' :: '\n' :: cs) = none := by
  rw [closingQuote.eq_def]
  simp [hquote]

/-- What is not closed is not closed, however much has been passed. -/
theorem closingQuote_none (h : closingQuote quote passed cs = none) (passed' : Nat) :
    closingQuote quote passed' cs = none := by
  fun_induction closingQuote quote passed cs generalizing passed' with
  | case1 => rfl
  | case2 => cases h
  | case3 passed rest hquote => exact closingQuote_newline hquote
  | case4 passed rest hquote => exact closingQuote_broken hquote
  | case5 passed d rest hd hquote hnewline ih =>
    rw [closingQuote_escape hquote hd]
    exact ih h _
  | case6 passed hquote =>
    rw [closingQuote.eq_def]
    simp [hquote]
  | case7 passed c rest hquote hnewline hescape ih =>
    rw [closingQuote_plain hquote hnewline hescape]
    exact ih h _

/-- Where a token ends with its quote, the quote is found. -/
theorem closingQuote_token {n : Nat} (hcs : closingQuote quote 1 (text ++ after) = some n)
    (hn : n = text.length + 1) : closingQuote quote 1 (text ++ after') = some n := by
  obtain ⟨body, more, hbody, hlength, hagain⟩ := closingQuote_split hcs
  obtain ⟨rfl, -⟩ := List.append_inj hbody (by omega)
  exact hagain after'

theorem closingBackquote_eq_none : closingBackquote passed cs = none ↔ '\x60' ∉ cs := by
  induction cs generalizing passed with
  | nil => exact ⟨fun _ => List.not_mem_nil, fun _ => rfl⟩
  | cons c cs ih =>
    rw [closingBackquote, List.mem_cons, not_or]
    by_cases hc : c = '\x60'
    · simp [hc]
    · rw [if_neg hc, ih]
      exact ⟨fun h => ⟨fun heq => hc heq.symm, h⟩, And.right⟩

theorem closingBackquote_token {n : Nat}
    (hcs : closingBackquote 1 (text ++ after) = some n) (hn : n = text.length + 1) :
    closingBackquote 1 (text ++ after') = some n := by
  obtain ⟨body, more, hbody, hmem, hlength⟩ := closingBackquote_split hcs
  have hsplit : text ++ after = (body ++ ['\x60']) ++ more := by rw [hbody]; simp
  obtain ⟨rfl, -⟩ := List.append_inj hsplit (by simp; omega)
  rw [List.append_assoc, List.singleton_append, closingBackquote_append hmem, hlength]

/-- A block comment ends where it can first. -/
theorem closingComment_append {body : List Char} (h : ¬['*', '/'] <:+: body) (more : List Char) :
    closingComment passed (body ++ '*' :: '/' :: more) = some (passed + body.length + 2) := by
  induction body generalizing passed with
  | nil => rfl
  | cons c body ih =>
    rw [List.infix_cons_iff, not_or] at h
    obtain ⟨hfirst, hbody⟩ := h
    have hopen : ¬(decide (c = '*') &&
        decide ((body ++ '*' :: '/' :: more).head? = some '/')) = true := by
      rw [Bool.and_eq_true, decide_eq_true_eq, decide_eq_true_eq]
      rintro ⟨rfl, hslash⟩
      cases body with
      | nil => exact nomatch hslash
      | cons d body =>
        obtain rfl := Option.some.inj hslash
        exact hfirst ⟨body, rfl⟩
    rw [List.cons_append, closingComment, if_neg hopen, ih hbody, List.length_cons]
    congr 1
    omega

theorem closingComment_eq_none : closingComment passed cs = none ↔ ¬['*', '/'] <:+: cs := by
  constructor
  · intro h
    fun_induction closingComment passed cs with
    | case1 => simp
    | case2 => cases h
    | case3 passed c rest hc ih =>
      rw [List.infix_cons_iff, not_or]
      refine ⟨fun hfirst => hc ?_, ih h⟩
      obtain ⟨after, hafter⟩ := hfirst
      obtain ⟨rfl, hrest⟩ := List.cons.inj hafter
      rw [← hrest]
      rfl
  · intro h
    rw [Option.eq_none_iff_forall_ne_some]
    intro n hn
    obtain ⟨body, after, rfl, -, -⟩ := closingComment_split hn
    exact h ⟨body, after, by simp⟩

end

-- ================================================================ measured

theorem measure_slashes : measure ('/' :: '/' :: cs) =
    (.lineComment, (('/' :: '/' :: cs).takeWhile (decide <| · ≠ '\n')).length) := rfl

theorem measure_comment : measure ('/' :: '*' :: cs) =
    match closingComment 2 cs with
      | some n => (.blockComment, n)
      | none => (.token .error, ('/' :: '*' :: cs).length) := rfl

/-- A comment that never ends is no token. -/
theorem measure_unclosed (h : ¬['*', '/'] <:+: cs) :
    measure ('/' :: '*' :: cs) = (.token .error, ('/' :: '*' :: cs).length) := by
  rw [measure_comment, closingComment_eq_none.mpr h]

/-- A line comment goes on to the end of its line. -/
theorem measure_lineComment {body : List Char} (hbody : '\n' ∉ body)
    (hmore : ∀ c ∈ more.head?, c = '\n') :
    measure ('/' :: '/' :: body ++ more) = (.lineComment, ('/' :: '/' :: body).length) := by
  have hline : ∀ c ∈ '/' :: '/' :: body, decide (c ≠ '\n') = true := by
    intro c hc
    rw [decide_eq_true_eq]
    rintro rfl
    simp [hbody] at hc
  have hends : ∀ c ∈ more.head?, decide (c ≠ '\n') = false :=
    fun c hc => decide_eq_false (not_not.mpr (hmore c hc))
  have hrun := takeWhile_run hline hends
  rw [List.cons_append, List.cons_append] at hrun ⊢
  rw [measure_slashes, hrun]

/-- A block comment ends with itself. -/
theorem measure_blockComment {body : List Char} (hbody : ¬['*', '/'] <:+: body)
    (more : List Char) : measure ('/' :: '*' :: (body ++ ['*', '/']) ++ more) =
      (.blockComment, ('/' :: '*' :: (body ++ ['*', '/'])).length) := by
  have htext : '/' :: '*' :: (body ++ ['*', '/']) ++ more =
      '/' :: '*' :: (body ++ '*' :: '/' :: more) := by
    simp
  rw [htext, measure_comment, closingComment_append hbody]
  simp
  omega

theorem measure_backquote : measure ('\x60' :: cs) =
    measureQuoted .rawStringLit (fun _ => true) ('\x60' :: cs) (closingBackquote 1 cs) := rfl

theorem measure_quote : measure ('\x22' :: cs) =
    measureQuoted .stringLit isStringShape ('\x22' :: cs) (closingQuote '\x22' 1 cs) := rfl

theorem measure_apostrophe : measure ('\x27' :: cs) =
    measureQuoted .runeLit isRuneShape ('\x27' :: cs)
      ((closingQuote '\x27' 1 cs).filter (decide <| · > 2)) := rfl

/-- Only a comment that never ends begins like a comment and is a token. -/
theorem unclosed_of_measure (h : measure ('/' :: '*' :: cs) = (.token kind, text.length)) :
    kind = .error ∧ ¬['*', '/'] <:+: cs ∧ text.length = cs.length + 2 := by
  rw [measure_comment] at h
  split at h
  · exact nomatch h
  · next hopen =>
    obtain ⟨hkind, hlength⟩ := Prod.mk.inj h
    exact ⟨(PieceKind.token.inj hkind).symm, closingComment_eq_none.mp hopen, hlength.symm⟩

/-- A token begins like one, unless it is a comment that never ends. -/
theorem beginsToken_of_measure
    (h : measure (c :: (text ++ after)) = (.token kind, (c :: text).length))
    (hends : after = [] → ¬['/', '*'] <+: c :: text) : BeginsToken c (text ++ after) := by
  constructor
  · intro hwhite
    rcases mem_whites.mp hwhite with hblank | rfl
    · rw [measure_blanks hblank] at h
      exact nomatch h
    · rw [measure_newline] at h
      exact nomatch h
  · rintro rfl x hx
    obtain ⟨rest, hrest⟩ := List.head?_eq_some_iff.mp hx
    constructor
    · rintro rfl
      rw [hrest, measure_slashes] at h
      exact nomatch h
    · rintro rfl
      rw [hrest] at h
      obtain ⟨-, -, hlength⟩ := unclosed_of_measure h
      have hall := congrArg List.length hrest
      simp only [List.length_append, List.length_cons] at hlength hall
      have hafter : after = [] := List.length_eq_zero_iff.mp (by omega)
      rw [hafter, List.append_nil] at hrest
      exact hends hafter ⟨rest, by rw [hrest]; rfl⟩

/-- What is quoted is what stands between the quotes. -/
theorem measureQuoted_token {isShape : List Char → Bool} {quoted : Token.Kind}
    {found found' : Option Nat}
    (h : measureQuoted quoted isShape (c :: (text ++ after)) found =
      (.token kind, (c :: text).length)) (hfound : found' = found) :
    measureQuoted quoted isShape (c :: (text ++ after')) found' =
      (.token kind, (c :: text).length) := by
  subst hfound
  cases found' with
  | none => exact h
  | some n =>
    obtain rfl : n = (c :: text).length := congrArg Prod.snd h
    rw [measureQuoted, ← List.cons_append, List.take_left] at h ⊢
    exact h

theorem length_of_measureQuoted {isShape : List Char → Bool} {quoted : Token.Kind}
    {found : Option Nat}
    (h : measureQuoted quoted isShape cs found = (.token kind, text.length + 1)) :
    (found = none → text = []) ∧ ∀ n, found = some n → n = text.length + 1 := by
  have hlength := congrArg Prod.snd h
  constructor
  · rintro rfl
    exact List.length_eq_zero_iff.mp (Nat.succ.inj hlength).symm
  · rintro n rfl
    exact hlength

-- ================================================================== alike

/-- What stands behind a token, and what might as well. -/
structure Alike (after after' : List Char) : Prop where
  next : ∃ common more more', after = common ++ more ∧ after' = common ++ more' ∧
    Stops more ∧ SetApart more'
  backquote : '\x60' ∉ after → '\x60' ∉ after'
  quote : ∀ quote, quote = '\x22' ∨ quote = '\x27' → closingQuote quote 1 after = none →
    closingQuote quote 1 after' = none
  empty : after.head? = some '\x27' → after'.head? = some '\x27'

theorem closingQuote_head (hcs : cs.head? = some quote) : closingQuote quote 1 cs = some 2 := by
  obtain ⟨rest, rfl⟩ := List.head?_eq_some_iff.mp hcs
  exact closingQuote_quote

/-- Two quotes, one behind the other, have nothing between them. -/
theorem head?_of_closingQuote {n : Nat} (h : closingQuote quote 1 cs = some n) (hn : n ≤ 2) :
    cs.head? = some quote := by
  cases cs with
  | nil => exact nomatch h
  | cons c cs =>
    by_contra hhead
    have hc : c ≠ quote := fun hc => hhead (congrArg some hc)
    rw [closingQuote.eq_def] at h
    dsimp only at h
    rw [if_neg hc] at h
    split at h
    · cases h
    split at h
    · split at h
      · split at h
        · cases h
        · exact absurd (closingQuote_lt h) (by omega)
      · cases h
    · exact absurd (closingQuote_lt h) (by omega)

section

variable (halike : Alike after after')

include halike

/-- A token that ends with its quote does so in front of anything, and one
that is not closed stays open. -/
theorem closingBackquote_alike (hopen : closingBackquote 1 (text ++ after) = none → text = [])
    (hclosed : ∀ n, closingBackquote 1 (text ++ after) = some n → n = text.length + 1) :
    closingBackquote 1 (text ++ after') = closingBackquote 1 (text ++ after) := by
  cases hend : closingBackquote 1 (text ++ after) with
  | some n => exact closingBackquote_token hend (hclosed n hend)
  | none =>
    obtain rfl := hopen hend
    exact closingBackquote_eq_none.mpr (halike.backquote (closingBackquote_eq_none.mp hend))

theorem closingQuote_alike (hquote : quote = '\x22' ∨ quote = '\x27')
    (hopen : closingQuote quote 1 (text ++ after) = none → text = [])
    (hclosed : ∀ n, closingQuote quote 1 (text ++ after) = some n → n = text.length + 1) :
    closingQuote quote 1 (text ++ after') = closingQuote quote 1 (text ++ after) := by
  cases hend : closingQuote quote 1 (text ++ after) with
  | some n => exact closingQuote_token hend (hclosed n hend)
  | none =>
    obtain rfl := hopen hend
    exact halike.quote quote hquote hend

/-- Two quotes next to each other are not a rune that is closed, but they
stay what they are. -/
theorem closingRune_alike {found : Option Nat}
    (hfound : closingQuote '\x27' 1 (text ++ after) = found)
    (hopen : found.filter (decide <| · > 2) = none → text = [])
    (hclosed : ∀ n, found.filter (decide <| · > 2) = some n → n = text.length + 1) :
    closingQuote '\x27' 1 (text ++ after') = found := by
  by_cases hshort : ∃ n ≤ 2, found = some n
  · obtain ⟨n, hn, rfl⟩ := hshort
    obtain rfl := hopen (by simpa using hn)
    have hhead : after.head? = some '\x27' := head?_of_closingQuote hfound hn
    rw [← hfound]
    exact (closingQuote_head (halike.empty hhead)).trans (closingQuote_head hhead).symm
  · have hall : found.filter (decide <| · > 2) = found := by
      cases found with
      | none => rfl
      | some n =>
        apply Option.filter_some_pos
        exact decide_eq_true (Nat.lt_of_not_le fun hn => hshort ⟨n, hn, rfl⟩)
    rw [hall] at hopen hclosed
    subst hfound
    exact closingQuote_alike halike (.inr rfl) hopen hclosed

/-- A token is the same token in front of what looks alike. -/
theorem measure_alike (hne : text ≠ [])
    (h : measure (text ++ after) = (.token kind, text.length))
    (hends : after = [] → ¬['/', '*'] <+: text) :
    measure (text ++ after') = (.token kind, text.length) := by
  obtain ⟨c, text, rfl⟩ := List.exists_cons_of_ne_nil hne
  rw [List.cons_append] at h ⊢
  by_cases hquote : c ∈ ['\x60', '\x22', '\x27']
  · simp only [List.mem_cons, List.not_mem_nil, or_false] at hquote
    rcases hquote with rfl | rfl | rfl
    · rw [measure_backquote] at h ⊢
      obtain ⟨hopen, hclosed⟩ := length_of_measureQuoted h
      exact measureQuoted_token h (closingBackquote_alike halike hopen hclosed)
    · rw [measure_quote] at h ⊢
      obtain ⟨hopen, hclosed⟩ := length_of_measureQuoted h
      exact measureQuoted_token h (closingQuote_alike halike (.inl rfl) hopen hclosed)
    · rw [measure_apostrophe] at h ⊢
      obtain ⟨hopen, hclosed⟩ := length_of_measureQuoted h
      have hsame := closingRune_alike halike rfl hopen hclosed
      exact measureQuoted_token h (congrArg _ hsame)
  · have hbegins := beginsToken_of_measure h hends
    obtain ⟨common, more, more', rfl, rfl, hmore, hmore'⟩ := halike.next
    rw [← List.append_assoc] at h hbegins ⊢
    rw [measure_stops hmore hquote hbegins] at h
    rw [measure_stops hmore'.stops hquote (hbegins.of_append.append hmore'), h]

end

-- =================================================================== lines

/-- A quote is not closed on another line. -/
theorem newline_notMem_of_closingQuote {passed : Nat} (hquote : quote ≠ '\n')
    (h : closingQuote quote passed (text ++ after) = some (passed + text.length)) :
    '\n' ∉ text := by
  fun_induction closingQuote quote passed text with
  | case1 => exact List.not_mem_nil
  | case2 passed rest =>
    rw [List.cons_append, closingQuote_quote, List.length_cons] at h
    have hrest : rest = [] := List.length_eq_zero_iff.mp (by have := Option.some.inj h; omega)
    rw [hrest]
    exact fun hmem => hquote (List.mem_singleton.mp hmem).symm
  | case3 passed rest hne =>
    rw [List.cons_append, closingQuote_newline hne] at h
    cases h
  | case4 passed rest hne =>
    rw [List.cons_append, List.cons_append, closingQuote_broken hne] at h
    cases h
  | case5 passed d rest hd hne hnewline ih =>
    rw [List.cons_append, List.cons_append, closingQuote_escape hne hd, List.length_cons,
      List.length_cons] at h
    have hrest : '\n' ∉ rest := ih (h.trans (congrArg some (by omega)))
    simp [hrest, Ne.symm hd]
  | case6 => decide
  | case7 passed c rest hne hnewline hescape ih =>
    rw [List.cons_append, closingQuote_plain hne hnewline hescape, List.length_cons] at h
    have hrest : '\n' ∉ rest := ih (h.trans (congrArg some (by omega)))
    simp [hrest, Ne.symm hnewline]

theorem newline_notMem_of_closed {found : Option Nat} (hquote : quote ≠ '\n')
    (hfound : ∀ n ∈ found, closingQuote quote 1 (text ++ after) = some n)
    (hopen : found = none → text = []) (hclosed : ∀ n, found = some n → n = text.length + 1) :
    '\n' ∉ text := by
  cases found with
  | none =>
    rw [hopen rfl]
    exact List.not_mem_nil
  | some n =>
    have hend := hfound n rfl
    rw [hclosed n rfl, Nat.add_comm] at hend
    exact newline_notMem_of_closingQuote hquote hend

/-- What is measured is not longer than the text. -/
theorem measure_le (c : Char) (cs : List Char) : (measure (c :: cs)).2 ≤ (c :: cs).length := by
  obtain ⟨text, after, htext, hlength, -⟩ := measure_finds c cs
  rw [hlength, htext, List.length_append]
  omega

/-- What is not quoted ends before the line does. -/
theorem newline_notMem_of_begins (hbegins : BeginsToken c (text ++ after))
    (hquote : c ∉ ['\x60', '\x22', '\x27'])
    (h : measure (c :: (text ++ after)) = (.token kind, (c :: text).length)) : '\n' ∉ text := by
  intro hmem
  obtain ⟨before, rest, rfl⟩ := List.append_of_mem hmem
  have hstops : Stops ('\n' :: rest ++ after) := by
    intro x hx
    obtain rfl := Option.some.inj hx
    decide
  rw [List.append_assoc] at h hbegins
  rw [measure_stops hstops hquote hbegins] at h
  have hle := measure_le c before
  rw [h] at hle
  simp only [List.length_cons, List.length_append] at hle
  omega

/-- A token ends before the line does, unless it is a raw string or a
comment that never ends. -/
theorem measure_lines (hne : text ≠ [])
    (h : measure (text ++ after) = (.token kind, text.length)) :
    '\n' ∉ text ∨
      (∃ body, kind = .rawStringLit ∧ text = '\x60' :: (body ++ ['\x60']) ∧ '\x60' ∉ body) ∨
      ∃ body, kind = .error ∧ after = [] ∧ text = '/' :: '*' :: body ∧ ¬['*', '/'] <:+: body := by
  obtain ⟨c, text, rfl⟩ := List.exists_cons_of_ne_nil hne
  have line (hc : c ≠ '\n') (htext : '\n' ∉ text) : '\n' ∉ c :: text := by
    rw [List.mem_cons, not_or]
    exact ⟨hc.symm, htext⟩
  rw [List.cons_append] at h
  by_cases hends : after = [] → ¬['/', '*'] <+: c :: text
  · by_cases hquote : c ∈ ['\x60', '\x22', '\x27']
    · simp only [List.mem_cons, List.not_mem_nil, or_false] at hquote
      rcases hquote with rfl | rfl | rfl
      · rw [measure_backquote] at h
        obtain ⟨hopen, hclosed⟩ := length_of_measureQuoted h
        cases hend : closingBackquote 1 (text ++ after) with
        | none =>
          rw [hopen hend]
          exact .inl (by decide)
        | some n =>
          obtain ⟨body, more, hbody, hmem, hlength⟩ := closingBackquote_split hend
          have hn := hclosed n hend
          have hsplit : text ++ after = (body ++ ['\x60']) ++ more := by rw [hbody]; simp
          obtain ⟨rfl, -⟩ := List.append_inj hsplit (by simp; omega)
          rw [hend] at h
          exact .inr (.inl ⟨body, (PieceKind.token.inj (congrArg Prod.fst h)).symm, rfl, hmem⟩)
      · rw [measure_quote] at h
        obtain ⟨hopen, hclosed⟩ := length_of_measureQuoted h
        exact .inl (line (by decide)
          (newline_notMem_of_closed (by decide) (fun n hn => hn) hopen hclosed))
      · rw [measure_apostrophe] at h
        obtain ⟨hopen, hclosed⟩ := length_of_measureQuoted h
        have hfound : ∀ n ∈ (closingQuote '\x27' 1 (text ++ after)).filter (decide <| · > 2),
            closingQuote '\x27' 1 (text ++ after) = some n :=
          fun n hn => (Option.filter_eq_some_iff.mp hn).1
        exact .inl (line (by decide) (newline_notMem_of_closed (by decide) hfound hopen hclosed))
    · have hbegins := beginsToken_of_measure h hends
      have hc : c ≠ '\n' := by
        rintro rfl
        exact hbegins.1 (by decide)
      exact .inl (line hc (newline_notMem_of_begins hbegins hquote h))
  · rw [Classical.not_imp, not_not] at hends
    obtain ⟨rfl, body, hbody⟩ := hends
    obtain ⟨rfl, rfl⟩ := List.cons.inj hbody
    rw [List.append_nil] at h
    obtain ⟨hkind, hopen, -⟩ := unclosed_of_measure h
    exact .inr (.inr ⟨body, hkind, rfl, rfl, hopen⟩)

end Piece

end GoSource
