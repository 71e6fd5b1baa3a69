/-
How tokens are written.

`Piece.IsSpelling kind text` says that a token of a kind may be written
with a text, and says it of the text alone. What follows a token matters
only to where the token ends: a text that is set apart, by white space or
by the end of the source, is cut out as it stands (`measure_spelling`).

Words and numbers end where a character comes that cannot continue them,
and of operators the longest is taken. A quoted literal ends with itself,
and nothing that follows can change that.
-/
import GoSource.Proofs.Lexing.Width
import Mathlib.Data.Bool.AllAny
import Mathlib.Data.List.Find

namespace GoSource.Piece

variable {c : Char} {cs text more : List Char} {kind : Token.Kind}

-- ========================================================== white space

/-- The characters of which white space consists. -/
def whites : List Char := [' ', '\t', '\r', '\n']

/-- What follows a text sets it apart if it begins with white space, or
if nothing follows. -/
def SetApart (more : List Char) : Prop := ∀ c ∈ more.head?, c ∈ whites

/-- A text goes on with white space or a slash, or ends. Neither continues
a word, a number or an operator. -/
def Stops (more : List Char) : Prop := ∀ c ∈ more.head?, c ∈ '/' :: whites

theorem setApart_nil : SetApart [] := nofun

theorem setApart_cons : SetApart (c :: cs) ↔ c ∈ whites := by
  simp [SetApart]

theorem SetApart.stops (h : SetApart more) : Stops more :=
  fun c hc => List.mem_cons_of_mem _ (h c hc)

section

variable {p : Char → Bool}

/-- A run of characters of a class ends before what begins otherwise. -/
theorem takeWhile_before (hmore : ∀ c ∈ more.head?, p c = false) :
    (text ++ more).takeWhile p = text.takeWhile p := by
  induction text with
  | nil =>
    cases more with
    | nil => rfl
    | cons c more => exact List.takeWhile_cons_of_neg (by simp [hmore c rfl])
  | cons c text ih =>
    by_cases hc : p c = true
    · rw [List.cons_append, List.takeWhile_cons_of_pos hc, List.takeWhile_cons_of_pos hc, ih]
    · rw [List.cons_append, List.takeWhile_cons_of_neg hc, List.takeWhile_cons_of_neg hc]

theorem takeWhile_run (htext : ∀ c ∈ text, p c = true) (hmore : ∀ c ∈ more.head?, p c = false) :
    (text ++ more).takeWhile p = text := by
  have hself := @List.takeWhile_append_of_pos _ p text [] htext
  rw [List.append_nil, List.takeWhile_nil, List.append_nil] at hself
  rw [takeWhile_before hmore, hself]

theorem not_of_any (hp : cs.any p = false) (hc : c ∈ cs) : p c = false := by
  simpa using List.any_eq_false.mp hp c hc

/-- Whether a character of a class comes next does not depend on what
follows, if that begins with no such character. -/
theorem any_head?_append (hmore : ∀ c ∈ more.head?, p c = false) :
    (text ++ more).head?.any p = text.head?.any p := by
  cases text with
  | cons c cs => rfl
  | nil =>
    cases more with
    | nil => rfl
    | cons c cs => exact hmore c rfl

theorem any_head?_stops (hmore : Stops more) (hp : ('/' :: whites).any p = false) :
    (text ++ more).head?.any p = text.head?.any p :=
  any_head?_append fun c hc => not_of_any hp (hmore c hc)

theorem takeWhile_stops (hmore : Stops more) (hp : ('/' :: whites).any p = false) :
    (text ++ more).takeWhile p = text.takeWhile p :=
  takeWhile_before fun c hc => not_of_any hp (hmore c hc)

end

-- ============================================================== numbers

/-- The signs that an exponent may have. -/
def isSign (c : Char) : Bool := c = '+' || c = '-'

section

variable {hexadecimal pointSeen : Bool} {passed : Nat}

/-- A letter goes on, with the sign behind it if it marks an exponent. -/
theorem numberTail_letter (hc : (c.isAlphanum || decide (c = '_')) = true) :
    numberTail hexadecimal pointSeen passed (c :: cs) =
      if isExponentMark hexadecimal c && cs.head?.any isSign then
        numberTail hexadecimal pointSeen (passed + 2) cs.tail
      else numberTail hexadecimal pointSeen (passed + 1) cs := by
  cases cs with
  | nil => simp [numberTail, hc]
  | cons s rest => simp [numberTail, hc, isSign]

/-- So does the first point, unless another one is behind it. -/
theorem numberTail_point (hnext : cs.head?.any (decide <| · = '.') = false) :
    numberTail hexadecimal false passed ('.' :: cs) =
      numberTail hexadecimal true (passed + 1) cs := by
  have hne : cs.head? ≠ some '.' := by
    intro h
    rw [h] at hnext
    exact nomatch hnext
  rw [numberTail.eq_def]
  dsimp only
  rw [if_neg (by decide), if_pos (by simpa using hne)]

/-- What follows a number is no letter, no digit, no underscore and no
point. -/
def EndsNumber (more : List Char) : Prop :=
  ∀ c ∈ more.head?, c.isAlphanum = false ∧ c ≠ '_' ∧ c ≠ '.'

theorem Stops.endsNumber (hmore : Stops more) : EndsNumber more := by
  have hends : ∀ c ∈ '/' :: whites, c.isAlphanum = false ∧ c ≠ '_' ∧ c ≠ '.' :=
    List.all_iff_forall_prop.mp (by decide)
  exact fun c hc => hends c (hmore c hc)

theorem EndsNumber.numberTail_eq (hmore : EndsNumber more) :
    numberTail hexadecimal pointSeen passed more = passed := by
  cases more with
  | nil => rfl
  | cons c cs =>
    obtain ⟨hletter, hscore, hpoint⟩ := hmore c rfl
    rw [numberTail.eq_def]
    dsimp only
    rw [hletter, decide_eq_false hscore, decide_eq_false hpoint]
    rfl

/-- What comes next is no point, or is one, whatever ends the text. -/
theorem point_stops (hmore : Stops more) :
    decide ((text ++ more).head? ≠ some '.') = decide (text.head? ≠ some '.') := by
  cases text with
  | cons c text => rfl
  | nil =>
    rw [decide_eq_decide]
    refine ⟨fun _ => nofun, fun _ hpoint => ?_⟩
    have hnone : '.' ∉ '/' :: whites := by decide
    exact hnone (hmore '.' hpoint)

/-- What stops a text does not continue a number in it. -/
theorem numberTail_stops (hmore : Stops more) :
    numberTail hexadecimal pointSeen passed (text ++ more) =
      numberTail hexadecimal pointSeen passed text := by
  fun_induction numberTail hexadecimal pointSeen passed text with
  | case1 => exact hmore.endsNumber.numberTail_eq
  | case2 pointSeen passed c hc s rest hsign ih =>
    have hsigned : (isExponentMark hexadecimal c && (s :: (rest ++ more)).head?.any isSign) =
        true := hsign
    rw [List.cons_append, List.cons_append, numberTail_letter hc, if_pos hsigned, List.tail_cons,
      ih]
  | case3 pointSeen passed c hc s rest hsign ih =>
    have hunsigned : ¬(isExponentMark hexadecimal c && (s :: (rest ++ more)).head?.any isSign) =
        true := hsign
    rw [List.cons_append, List.cons_append, numberTail_letter hc, if_neg hunsigned,
      ← List.cons_append, ih]
  | case4 pointSeen passed c hc =>
    have hunsigned : more.head?.any isSign = false :=
      @any_head?_stops [] more isSign hmore (by decide)
    rw [List.singleton_append, numberTail_letter hc, hunsigned, Bool.and_false,
      if_neg Bool.false_ne_true, hmore.endsNumber.numberTail_eq]
  | case5 pointSeen passed c rest hc hpoint ih =>
    rw [List.cons_append, numberTail.eq_def]
    dsimp only
    rw [if_neg hc, point_stops hmore, if_pos hpoint, ih]
  | case6 pointSeen passed c rest hc hpoint =>
    rw [List.cons_append, numberTail.eq_def]
    dsimp only
    rw [if_neg hc, point_stops hmore, if_neg hpoint]

/-- The part of a text that continues a number continues it as well on its
own. -/
theorem numberTail_split (cs : List Char) : ∃ body after, cs = body ++ after ∧
    numberTail hexadecimal pointSeen passed cs = passed + body.length ∧
    numberTail hexadecimal pointSeen passed body = passed + body.length := by
  fun_induction numberTail hexadecimal pointSeen passed cs with
  | case1 pointSeen passed => exact ⟨[], [], rfl, rfl, rfl⟩
  | case2 pointSeen passed c hc s rest hsign ih =>
    obtain ⟨body, after, rfl, hlength, hself⟩ := ih
    have hsigned : (isExponentMark hexadecimal c && (s :: body).head?.any isSign) = true := hsign
    refine ⟨c :: s :: body, after, rfl, ?_, ?_⟩
    · rw [hlength, List.length_cons, List.length_cons]
      omega
    · rw [numberTail_letter hc, if_pos hsigned, List.tail_cons, hself, List.length_cons,
        List.length_cons]
      omega
  | case3 pointSeen passed c hc s rest hsign ih =>
    obtain ⟨body, after, hbody, hlength, hself⟩ := ih
    have hunsigned : ¬(isExponentMark hexadecimal c && body.head?.any isSign) = true := by
      cases body with
      | nil => simp
      | cons x body =>
        obtain rfl : s = x := (List.cons.inj hbody).1
        exact hsign
    refine ⟨c :: body, after, by rw [hbody]; rfl, ?_, ?_⟩
    · rw [hlength, List.length_cons]
      omega
    · rw [numberTail_letter hc, if_neg hunsigned, hself, List.length_cons]
      omega
  | case4 pointSeen passed c hc =>
    refine ⟨[c], [], rfl, rfl, ?_⟩
    rw [numberTail_letter hc, List.head?_nil, Option.any_none, Bool.and_false,
      if_neg Bool.false_ne_true]
    rfl
  | case5 pointSeen passed c rest hc hpoint ih =>
    obtain ⟨body, after, hbody, hlength, hself⟩ := ih
    simp only [Bool.and_eq_true, decide_eq_true_eq, Bool.not_eq_true'] at hpoint
    obtain ⟨⟨rfl, rfl⟩, hnext⟩ := hpoint
    have hnext' : body.head?.any (decide <| · = '.') = false := by
      cases body with
      | nil => rfl
      | cons x body =>
        rw [hbody] at hnext
        simpa using hnext
    refine ⟨'.' :: body, after, by rw [hbody]; rfl, ?_, ?_⟩
    · rw [hlength, List.length_cons]
      omega
    · rw [numberTail_point hnext', hself, List.length_cons]
      omega
  | case6 pointSeen passed c rest hc hpoint => exact ⟨[], _, rfl, rfl, rfl⟩

theorem isHexadecimal_cons : isHexadecimal (c :: cs) =
    (decide (c = '0') && cs.head?.any fun x => x = 'x' || x = 'X') := by
  unfold isHexadecimal
  split
  · next h =>
    obtain ⟨rfl, rfl⟩ := List.cons.inj h
    rfl
  · next h =>
    obtain ⟨rfl, rfl⟩ := List.cons.inj h
    rfl
  · next hlower hupper =>
    cases cs with
    | nil => simp
    | cons x cs =>
      have hx : c = '0' → ¬(x = 'x' ∨ x = 'X') := by
        rintro rfl (rfl | rfl)
        · exact hlower cs rfl
        · exact hupper cs rfl
      simpa using hx

theorem numberLength_digit (hc : c.isDigit = true) :
    numberLength (c :: cs) = numberTail (isHexadecimal (c :: cs)) false 1 cs := by
  unfold numberLength
  split
  · next h =>
    obtain ⟨rfl, -⟩ := List.cons.inj h
    exact nomatch hc
  · rfl

theorem startsNumber_digit (hc : c.isDigit = true) : startsNumber (c :: cs) = true := by
  unfold startsNumber
  split
  · next h =>
    obtain ⟨rfl, -⟩ := List.cons.inj h
    exact nomatch hc
  · next h =>
    obtain ⟨rfl, -⟩ := List.cons.inj h
    exact hc
  · next h => exact nomatch h

/-- A letter continues a number. -/
theorem lt_numberTail (hc : (c.isAlphanum || decide (c = '_')) = true) :
    passed < numberTail hexadecimal pointSeen passed (c :: cs) := by
  rw [numberTail_letter hc]
  split
  · exact Nat.lt_of_lt_of_le (by omega) le_numberTail
  · exact Nat.lt_of_lt_of_le (by omega) le_numberTail

/-- The letter of a prefix continues a number, so it is in the number that
has the prefix. -/
theorem isHexadecimal_split {after : List Char}
    (hlength : numberTail hexadecimal false 1 (text ++ after) = 1 + text.length) :
    isHexadecimal (c :: text) = isHexadecimal (c :: (text ++ after)) := by
  rw [isHexadecimal_cons, isHexadecimal_cons]
  cases text with
  | cons x text => rfl
  | nil =>
    cases after with
    | nil => rfl
    | cons x after =>
      have hx : (decide (x = 'x') || decide (x = 'X')) = false := by
        by_contra hx
        have hletter : (x.isAlphanum || decide (x = '_')) = true := by
          rw [Bool.not_eq_false, Bool.or_eq_true, decide_eq_true_eq, decide_eq_true_eq] at hx
          rcases hx with rfl | rfl <;> rfl
        have hlt : 1 < numberTail hexadecimal false 1 (x :: after) := lt_numberTail hletter
        rw [List.nil_append] at hlength
        rw [hlength] at hlt
        exact Nat.lt_irrefl 1 hlt
      simp [hx]

/-- The number at the start of a text is a number of the same length on its
own. -/
theorem number_split (hstart : startsNumber cs = true) : ∃ text after, cs = text ++ after ∧
    numberLength cs = text.length ∧ startsNumber text = true ∧
    numberLength text = text.length := by
  unfold startsNumber at hstart
  split at hstart
  · next d rest =>
    obtain ⟨body, after, rfl, hlength, hself⟩ := @numberTail_split false true 2 rest
    refine ⟨'.' :: d :: body, after, rfl, ?_, hstart, ?_⟩
    · rw [numberLength, List.drop_one, List.tail_cons, hlength, List.length_cons, List.length_cons]
      omega
    · rw [numberLength, List.drop_one, List.tail_cons, hself, List.length_cons, List.length_cons]
      omega
  · next c rest hpoint =>
    obtain ⟨body, after, rfl, hlength, hself⟩ :=
      @numberTail_split (isHexadecimal (c :: rest)) false 1 rest
    have hhex : isHexadecimal (c :: body) = isHexadecimal (c :: (body ++ after)) :=
      isHexadecimal_split hlength
    refine ⟨c :: body, after, rfl, ?_, startsNumber_digit hstart, ?_⟩
    · rw [numberLength_digit hstart, hlength, List.length_cons]
      omega
    · rw [numberLength_digit hstart, hhex, hself, List.length_cons]
      omega
  · exact nomatch hstart

end

-- ======================================================= what has an end

section

variable {quote : Char} {passed n : Nat}

theorem closingQuote_quote : closingQuote quote passed (quote :: cs) = some (passed + 1) := by
  rw [closingQuote.eq_def]
  dsimp only
  rw [if_pos rfl]

theorem closingQuote_escape {d : Char} (hquote : '\\' ≠ quote) (hd : d ≠ '\n') :
    closingQuote quote passed ('\\' :: d :: cs) = closingQuote quote (passed + 2) cs := by
  rw [closingQuote.eq_def]
  dsimp only
  rw [if_neg hquote, if_neg (by decide), if_pos rfl, if_neg hd]

theorem closingQuote_plain (hquote : c ≠ quote) (hnewline : c ≠ '\n') (hescape : c ≠ '\\') :
    closingQuote quote passed (c :: cs) = closingQuote quote (passed + 1) cs := by
  rw [closingQuote.eq_def]
  dsimp only
  rw [if_neg hquote, if_neg hnewline, if_neg hescape]

/-- Where a quoted literal ends is decided before it ends. -/
theorem closingQuote_split (h : closingQuote quote passed cs = some n) :
    ∃ body after, cs = body ++ after ∧ n = passed + body.length ∧
      ∀ more, closingQuote quote passed (body ++ more) = some n := by
  fun_induction closingQuote quote passed cs with
  | case1 => cases h
  | case2 passed rest =>
    obtain rfl := Option.some.inj h
    exact ⟨[quote], rest, rfl, rfl, fun more => closingQuote_quote⟩
  | case3 => cases h
  | case4 => cases h
  | case5 passed d rest hd hquote hnewline ih =>
    obtain ⟨body, after, rfl, rfl, hagain⟩ := ih h
    refine ⟨'\\' :: d :: body, after, rfl, ?_, fun more => ?_⟩
    · rw [List.length_cons, List.length_cons]
      omega
    · rw [List.cons_append, List.cons_append, closingQuote_escape hquote hd, hagain more]
  | case6 => cases h
  | case7 passed c rest hquote hnewline hescape ih =>
    obtain ⟨body, after, rfl, rfl, hagain⟩ := ih h
    refine ⟨c :: body, after, rfl, ?_, fun more => ?_⟩
    · rw [List.length_cons]
      omega
    · rw [List.cons_append, closingQuote_plain hquote hnewline hescape, hagain more]

theorem closingQuote_append (h : closingQuote quote passed text = some (passed + text.length))
    (more : List Char) :
    closingQuote quote passed (text ++ more) = some (passed + text.length) := by
  obtain ⟨body, after, rfl, hlength, hagain⟩ := closingQuote_split h
  obtain rfl : after = [] := by
    rw [List.length_append] at hlength
    exact List.length_eq_zero_iff.mp (by omega)
  rw [List.append_nil, hagain more, List.append_nil]

/-- A raw string ends at the next backquote. -/
theorem closingBackquote_split (h : closingBackquote passed cs = some n) :
    ∃ body after, cs = body ++ '\x60' :: after ∧ '\x60' ∉ body ∧ n = passed + body.length + 1 := by
  fun_induction closingBackquote passed cs with
  | case1 => cases h
  | case2 passed rest =>
    obtain rfl := Option.some.inj h
    exact ⟨[], rest, rfl, List.not_mem_nil, rfl⟩
  | case3 passed c rest hc ih =>
    obtain ⟨body, after, rfl, hbody, rfl⟩ := ih h
    refine ⟨c :: body, after, rfl, ?_, ?_⟩
    · rw [List.mem_cons, not_or]
      exact ⟨fun h => hc h.symm, hbody⟩
    · rw [List.length_cons]
      omega

theorem closingBackquote_append {body : List Char} (h : '\x60' ∉ body) (more : List Char) :
    closingBackquote passed (body ++ '\x60' :: more) = some (passed + body.length + 1) := by
  induction body generalizing passed with
  | nil => rfl
  | cons c body ih =>
    rw [List.mem_cons, not_or] at h
    rw [List.cons_append, closingBackquote, if_neg fun hc => h.1 hc.symm, ih h.2, List.length_cons]
    congr 1
    omega

/-- A block comment ends where it can first. -/
theorem closingComment_split (h : closingComment passed cs = some n) :
    ∃ body after, cs = body ++ '*' :: '/' :: after ∧ ¬['*', '/'] <:+: body ∧
      n = passed + body.length + 2 := by
  fun_induction closingComment passed cs with
  | case1 => cases h
  | case2 passed c rest hc =>
    obtain rfl := Option.some.inj h
    simp only [Bool.and_eq_true, decide_eq_true_eq] at hc
    obtain ⟨rfl, hslash⟩ := hc
    obtain ⟨after, rfl⟩ : ∃ after, rest = '/' :: after := List.head?_eq_some_iff.mp hslash
    exact ⟨[], after, rfl, by simp, rfl⟩
  | case3 passed c rest hc ih =>
    obtain ⟨body, after, rfl, hbody, rfl⟩ := ih h
    refine ⟨c :: body, after, rfl, fun hinfix => ?_, ?_⟩
    · rcases List.infix_cons_iff.mp hinfix with hprefix | hinfix
      · apply hc
        obtain ⟨t, ht⟩ := hprefix
        rw [List.cons_append, List.cons_append] at ht
        obtain ⟨rfl, rfl⟩ := List.cons.inj ht
        rfl
      · exact hbody hinfix
    · rw [List.length_cons]
      omega

end

-- ============================================================= spellings

/-- A token of a kind may be written so. -/
inductive IsSpelling : Token.Kind → List Char → Prop
  | word {c : Char} {tail : List Char} (hc : startsWord c = true)
      (htail : ∀ x ∈ tail, continuesWord x = true) : IsSpelling (wordKind (c :: tail)) (c :: tail)
  | number {text : List Char} (hstart : startsNumber text = true)
      (hlength : numberLength text = text.length) : IsSpelling (numberKind text) text
  | rawString {body : List Char} (hbody : '\x60' ∉ body) :
      IsSpelling .rawStringLit ('\x60' :: (body ++ ['\x60']))
  | string {body : List Char} (hend : closingQuote '\x22' 1 body = some (1 + body.length))
      (hshape : isStringShape ('\x22' :: body) = true) : IsSpelling .stringLit ('\x22' :: body)
  | rune {body : List Char} (hend : closingQuote '\x27' 1 body = some (1 + body.length))
      (hlong : 1 < body.length) (hshape : isRuneShape ('\x27' :: body) = true) :
      IsSpelling .runeLit ('\x27' :: body)
  | operator {kind : Token.Kind} {text : List Char} (h : (text, kind) ∈ operatorTable) :
      IsSpelling kind text

-- ============================================================= measured

/-- Neither white space nor a comment begins here. -/
def BeginsToken (c : Char) (cs : List Char) : Prop :=
  c ∉ whites ∧ (c = '/' → ∀ x ∈ cs.head?, x ≠ '/' ∧ x ≠ '*')

theorem BeginsToken.of_ne (hc : c ∉ '/' :: whites) : BeginsToken c cs := by
  rw [List.mem_cons, not_or] at hc
  exact ⟨hc.2, fun h => absurd h hc.1⟩

/-- What is measured where a token begins. -/
theorem measure_token (h : BeginsToken c cs) : measure (c :: cs) =
    if startsWord c then
      (.token (wordKind ((c :: cs).takeWhile continuesWord)),
        ((c :: cs).takeWhile continuesWord).length)
    else if startsNumber (c :: cs) then
      (.token (numberKind ((c :: cs).take (numberLength (c :: cs)))), numberLength (c :: cs))
    else if c = '\x60' then
      measureQuoted .rawStringLit (fun _ => true) (c :: cs) (closingBackquote 1 cs)
    else if c = '\x22' then
      measureQuoted .stringLit isStringShape (c :: cs) (closingQuote '\x22' 1 cs)
    else if c = '\x27' then
      measureQuoted .runeLit isRuneShape (c :: cs) ((closingQuote '\x27' 1 cs).filter (· > 2))
    else match leadingOperator (c :: cs) with
      | some (spelling, kind) => (.token kind, spelling.length)
      | none => (.token .error, 1) := by
  obtain ⟨hwhite, hslash⟩ := h
  simp only [whites, List.mem_cons, List.not_mem_nil, or_false, not_or] at hwhite
  obtain ⟨hspace, htab, hreturn, hnewline⟩ := hwhite
  have hblank : isBlank c = false := by simp [isBlank, hspace, htab, hreturn]
  have hline : (decide (c = '/') && decide (cs.head? = some '/')) = false := by
    by_contra h
    simp only [Bool.not_eq_false, Bool.and_eq_true, decide_eq_true_eq] at h
    exact (hslash h.1 '/' h.2).1 rfl
  have hblock : (decide (c = '/') && decide (cs.head? = some '*')) = false := by
    by_contra h
    simp only [Bool.not_eq_false, Bool.and_eq_true, decide_eq_true_eq] at h
    exact (hslash h.1 '*' h.2).2 rfl
  have hmeasure := measure.eq_def (c :: cs)
  dsimp only at hmeasure
  rw [hblank, hline, hblock, if_neg Bool.false_ne_true, if_neg hnewline,
    if_neg Bool.false_ne_true, if_neg Bool.false_ne_true] at hmeasure
  exact hmeasure

theorem beginsToken_of_startsWord (hc : startsWord c = true) : BeginsToken c cs := by
  apply BeginsToken.of_ne
  intro hmem
  have hnone : ('/' :: whites).any startsWord = false := by decide
  exact List.any_eq_false.mp hnone c hmem hc

theorem startsNumber_cons : startsNumber (c :: cs) =
    (c.isDigit || (decide (c = '.') && cs.head?.any Char.isDigit)) := by
  unfold startsNumber
  split
  · next h =>
    obtain ⟨rfl, rfl⟩ := List.cons.inj h
    rfl
  · next hpoint h =>
    obtain ⟨rfl, rfl⟩ := List.cons.inj h
    cases cs with
    | nil => simp
    | cons x cs =>
      have hc : c ≠ '.' := fun hc => hpoint x cs hc rfl
      simp [hc]
  · next h => exact nomatch h

theorem startsNumber_ne_nil (h : startsNumber cs = true) : cs ≠ [] := by
  rintro rfl
  exact nomatch h

theorem startsNumber_stops (hmore : Stops more) :
    startsNumber (c :: (text ++ more)) = startsNumber (c :: text) := by
  rw [startsNumber_cons, startsNumber_cons, any_head?_stops hmore (by decide)]

theorem numberLength_stops (hmore : Stops more) (hstart : startsNumber (c :: text) = true) :
    numberLength (c :: (text ++ more)) = numberLength (c :: text) := by
  rw [startsNumber_cons, Bool.or_eq_true, Bool.and_eq_true, decide_eq_true_eq] at hstart
  rcases hstart with hdigit | ⟨rfl, hdigit⟩
  · have hhex : isHexadecimal (c :: (text ++ more)) = isHexadecimal (c :: text) := by
      rw [isHexadecimal_cons, isHexadecimal_cons, any_head?_stops hmore (by decide)]
    rw [numberLength_digit hdigit, numberLength_digit hdigit, hhex, numberTail_stops hmore]
  · cases text with
    | nil => exact nomatch hdigit
    | cons d text => exact @numberTail_stops text more _ _ _ hmore

/-- What an operator begins with begins no word, and after a slash or a
point no comment and no number. -/
theorem operator_begins : ∀ entry ∈ operatorTable,
    entry.1.head?.any (fun c => c ∉ whites && !startsWord c && !c.isDigit &&
      c ∉ ['\x60', '\x22', '\x27']) = true ∧
    (entry.1.head? = some '/' → entry.1.tail.head?.any (fun x => x = '/' || x = '*') = false) ∧
    (entry.1.head? = some '.' → entry.1.tail.head?.any Char.isDigit = false) ∧
    leadingOperator entry.1 = some entry := by
  decide +kernel

/-- No operator has a slash but at its beginning. -/
theorem operator_tail : ∀ entry ∈ operatorTable,
    entry.1.tail.all (decide <| · ∉ '/' :: whites) = true := by
  decide +kernel

theorem isPrefixOf_stops {spelling : List Char}
    (h : spelling.all (decide <| · ∉ '/' :: whites) = true) (hmore : Stops more) :
    spelling.isPrefixOf (text ++ more) = spelling.isPrefixOf text := by
  induction spelling generalizing text with
  | nil => cases text <;> simp
  | cons x spelling ih =>
    rw [List.all_cons, Bool.and_eq_true, decide_eq_true_eq] at h
    cases text with
    | cons c text => rw [List.cons_append, List.isPrefixOf, List.isPrefixOf, ih h.2]
    | nil =>
      cases more with
      | nil => rfl
      | cons c more =>
        have hne : (x == c) = false := by
          rw [beq_eq_false_iff_ne]
          rintro rfl
          exact h.1 (hmore x rfl)
        rw [List.nil_append, List.isPrefixOf_cons_cons, hne]
        rfl

/-- An operator is no longer than it was. -/
theorem leadingOperator_stops (hmore : Stops more) :
    leadingOperator (c :: (text ++ more)) = leadingOperator (c :: text) := by
  unfold leadingOperator
  apply List.find?_congr
  intro entry hentry
  have htail := operator_tail entry hentry
  cases hspelling : entry.1 with
  | nil => rfl
  | cons x spelling =>
    rw [hspelling, List.tail_cons] at htail
    rw [List.isPrefixOf_cons_cons, List.isPrefixOf_cons_cons, isPrefixOf_stops htail hmore]

/-- Digits come before all letters. -/
theorem startsWord_digit (hc : c.isDigit = true) : startsWord c = false := by
  have hle : c.toNat ≤ 57 := by
    simp only [Char.isDigit, Bool.and_eq_true, decide_eq_true_eq] at hc
    exact UInt32.le_iff_toNat_le.mp hc.2
  have hletters : Text.letterRanges = (65, 90) :: Text.letterRanges.tail := rfl
  have hletter : Text.isLetter c = false := by
    rw [Text.isLetter, hletters, Text.inRanges, decide_eq_true (show c.toNat < 65 by omega)]
    rfl
  have hne : c ≠ '_' := by
    rintro rfl
    exact nomatch hc
  rw [startsWord, hletter, decide_eq_false hne, Bool.or_false]

/-- What a number begins with begins no word. -/
theorem startsWord_of_startsNumber (h : startsNumber (c :: cs) = true) : startsWord c = false := by
  rw [startsNumber_cons, Bool.or_eq_true, Bool.and_eq_true, decide_eq_true_eq] at h
  rcases h with hc | ⟨rfl, -⟩
  · exact startsWord_digit hc
  · rfl

theorem beginsToken_of_startsNumber (h : startsNumber (c :: cs) = true) : BeginsToken c more := by
  apply BeginsToken.of_ne
  intro hmem
  have hnone : ('/' :: whites).any (fun x => x.isDigit || x = '.') = false := by decide
  apply List.any_eq_false.mp hnone c hmem
  rw [startsNumber_cons, Bool.or_eq_true, Bool.and_eq_true, decide_eq_true_eq] at h
  rw [Bool.or_eq_true, decide_eq_true_eq]
  exact h.imp_right And.left

theorem measureQuoted_some {isShape : List Char → Bool} {n : Nat} (hn : n = text.length) :
    measureQuoted kind isShape (text ++ more) (some n) =
      (.token (if isShape text then kind else .error), text.length) := by
  rw [hn, measureQuoted, List.take_left]

section

variable {body : List Char}

theorem measure_word (hc : startsWord c = true) (htail : ∀ x ∈ cs, continuesWord x = true)
    (hmore : SetApart more) :
    measure (c :: cs ++ more) = (.token (wordKind (c :: cs)), (c :: cs).length) := by
  have hends : ('/' :: whites).any continuesWord = false := by decide +kernel
  have hword : (c :: cs ++ more).takeWhile continuesWord = c :: cs := by
    apply takeWhile_run
    · rw [List.forall_mem_cons]
      exact ⟨continuesWord_of_startsWord hc, htail⟩
    · exact fun x hx => not_of_any hends (hmore.stops x hx)
  rw [List.cons_append, measure_token (beginsToken_of_startsWord hc), if_pos hc,
    ← List.cons_append, hword]

/-- Where a number starts, it is measured. -/
theorem measure_startsNumber (hstart : startsNumber (text ++ more) = true)
    (hlength : numberLength (text ++ more) = text.length) :
    measure (text ++ more) = (.token (numberKind text), text.length) := by
  have hkind : (text ++ more).take (numberLength (text ++ more)) = text := by
    rw [hlength, List.take_left]
  obtain ⟨c, cs, hcs⟩ := List.exists_cons_of_ne_nil (startsNumber_ne_nil hstart)
  rw [hcs] at hstart hlength hkind ⊢
  rw [measure_token (beginsToken_of_startsNumber hstart), startsWord_of_startsNumber hstart,
    if_neg Bool.false_ne_true, if_pos hstart, hkind, hlength]

theorem measure_number (hstart : startsNumber text = true)
    (hlength : numberLength text = text.length) (hmore : SetApart more) :
    measure (text ++ more) = (.token (numberKind text), text.length) := by
  obtain ⟨c, tail, rfl⟩ := List.exists_cons_of_ne_nil (startsNumber_ne_nil hstart)
  apply measure_startsNumber
  · rw [List.cons_append, startsNumber_stops hmore.stops, hstart]
  · rw [List.cons_append, numberLength_stops hmore.stops hstart, hlength]

theorem measure_rawString (hbody : '\x60' ∉ body) (more : List Char) :
    measure ('\x60' :: (body ++ ['\x60']) ++ more) =
      (.token .rawStringLit, ('\x60' :: (body ++ ['\x60'])).length) := by
  have htext : '\x60' :: (body ++ ['\x60']) ++ more = '\x60' :: (body ++ '\x60' :: more) := by
    simp
  rw [htext, measure_token (.of_ne (by decide)), if_neg (by decide), startsNumber_cons,
    if_neg (by simp), if_pos rfl, closingBackquote_append hbody, ← htext,
    measureQuoted_some (by simp; omega)]
  rfl

theorem measure_string (hend : closingQuote '\x22' 1 body = some (1 + body.length))
    (hshape : isStringShape ('\x22' :: body) = true) (more : List Char) :
    measure ('\x22' :: body ++ more) = (.token .stringLit, ('\x22' :: body).length) := by
  rw [List.cons_append, measure_token (.of_ne (by decide)), if_neg (by decide),
    startsNumber_cons, if_neg (by simp), if_neg (by decide), if_pos rfl,
    closingQuote_append hend, ← List.cons_append, measureQuoted_some (Nat.add_comm _ _), hshape]
  rfl

theorem measure_rune (hend : closingQuote '\x27' 1 body = some (1 + body.length))
    (hlong : 1 < body.length) (hshape : isRuneShape ('\x27' :: body) = true) (more : List Char) :
    measure ('\x27' :: body ++ more) = (.token .runeLit, ('\x27' :: body).length) := by
  have hfilter : (some (1 + body.length)).filter (decide <| · > 2) = some (1 + body.length) := by
    rw [Option.filter_some_pos]
    exact decide_eq_true (by omega)
  rw [List.cons_append, measure_token (.of_ne (by decide)), if_neg (by decide),
    startsNumber_cons, if_neg (by simp), if_neg (by decide), if_neg (by decide), if_pos rfl,
    closingQuote_append hend, hfilter, ← List.cons_append, measureQuoted_some (Nat.add_comm _ _),
    hshape]
  rfl

/-- An operator begins no comment and no number, whatever it is set apart
by. -/
theorem measure_operator (hentry : (text, kind) ∈ operatorTable) (hmore : SetApart more) :
    measure (text ++ more) = (.token kind, text.length) := by
  obtain ⟨hopens, hslash, hpoint, hfirst⟩ := operator_begins _ hentry
  cases text with
  | nil => exact nomatch hopens
  | cons c tail =>
    simp only [List.head?_cons, Option.any_some, Bool.and_eq_true, Bool.not_eq_true',
      decide_eq_true_eq, List.mem_cons, List.not_mem_nil, or_false, not_or] at hopens
    obtain ⟨⟨⟨hwhite, hword⟩, hdigit⟩, hraw, hstring, hrune⟩ := hopens
    have hbegins : BeginsToken c (tail ++ more) := by
      refine ⟨hwhite, fun hc x hx => ?_⟩
      have hwhites : whites.any (fun x => x = '/' || x = '*') = false := by decide
      have hnone : (tail ++ more).head?.any (fun x => x = '/' || x = '*') = false := by
        rw [any_head?_append fun x hx => not_of_any hwhites (hmore x hx)]
        exact hslash (by rw [hc]; rfl)
      rw [hx] at hnone
      simpa using hnone
    have hnumber : startsNumber (c :: (tail ++ more)) = false := by
      rw [startsNumber_stops hmore.stops, startsNumber_cons, hdigit, Bool.false_or,
        Bool.and_eq_false_imp, decide_eq_true_eq]
      rintro rfl
      exact hpoint rfl
    rw [List.cons_append, measure_token hbegins, hword, if_neg Bool.false_ne_true, hnumber,
      if_neg Bool.false_ne_true, if_neg hraw, if_neg hstring, if_neg hrune,
      leadingOperator_stops hmore.stops, hfirst]

end

/-- A spelling that is set apart is cut out as it stands. -/
theorem measure_spelling (h : IsSpelling kind text) (hmore : SetApart more) :
    measure (text ++ more) = (.token kind, text.length) := by
  cases h with
  | word hc htail => exact measure_word hc htail hmore
  | number hstart hlength => exact measure_number hstart hlength hmore
  | rawString hbody => exact measure_rawString hbody more
  | string hend hshape => exact measure_string hend hshape more
  | rune hend hlong hshape => exact measure_rune hend hlong hshape more
  | operator hentry => exact measure_operator hentry hmore

end GoSource.Piece
