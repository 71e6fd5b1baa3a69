/-
Numbers in a source.

The lexer takes what it can for a number and knows nothing of the grammar. A
literal is taken as a whole because its digits, underscores and letters go on
with any number (`IsPlain`), its point is the first one, and a sign in it
stands behind the mark of an exponent. Nothing behind a literal is taken,
because a character that ends a number comes next.

Both the lexer and the decoder ask whether a text begins like a number in
base sixteen. It does if the literal has the prefix, and so the marks that
end the digits are the marks of that base for both.
-/
import GoSource.Proofs.Lexing.Spelling
import GoSource.Proofs.Lexing.Standing
import GoSource.Proofs.Literals.Grammar

namespace GoSource.Literal

open Token.Stream (ofSource)
open Piece (EndsNumber isExponentMark isHexadecimal isSign measure numberKind numberLength
  numberTail startsNumber)

variable {hexadecimal pointSeen : Bool} {base passed n : Nat} {c : Char} {x : Rat} {e : Int}
  {text more ds m : List Char} {Whole : List Char → List Char → Prop}

-- ================================================================ digits

theorem rank_ascii : ∀ n < 128,
    (rank (Char.ofNat n) < 16 → (Char.ofNat n).isAlphanum = true) ∧
    (rank (Char.ofNat n) < 10 → (Char.ofNat n).isDigit = true) := by
  decide +kernel

theorem isAscii_of_rank (hc : rank c < 16) : c.toNat < 128 := by
  by_contra hbig
  have hrank : rank c = 16 := rank_beyond (Nat.le_of_not_lt hbig)
  omega

theorem isAlphanum_of_rank (hc : rank c < 16) : c.isAlphanum = true := by
  have hascii := (rank_ascii c.toNat (isAscii_of_rank hc)).1
  rw [Char.ofNat_toNat] at hascii
  exact hascii hc

theorem isDigit_of_rank (hc : rank c < 10) : c.isDigit = true := by
  have hascii := (rank_ascii c.toNat (isAscii_of_rank (hc.trans (by decide)))).2
  rw [Char.ofNat_toNat] at hascii
  exact hascii hc

/-- The base of the digits that a number may have in front of its exponent. -/
def radix (hexadecimal : Bool) : Nat := if hexadecimal then 16 else 10

theorem radix_le : radix hexadecimal ≤ 16 := by cases hexadecimal <;> decide

theorem le_radix : 10 ≤ radix hexadecimal := by cases hexadecimal <;> decide

theorem isExponentMark_iff : isExponentMark hexadecimal c = true ↔
    c ∈ if hexadecimal then ['p', 'P'] else ['e', 'E'] := by
  cases hexadecimal <;> simp [isExponentMark]

/-- The mark of an exponent is a letter, but no digit. -/
theorem letter_of_mark (hc : isExponentMark hexadecimal c = true) :
    c.isAlphanum = true ∧ c.isDigit = false ∧ radix hexadecimal ≤ rank c := by
  have hmarks : ∀ c ∈ if hexadecimal then ['p', 'P'] else ['e', 'E'],
      c.isAlphanum = true ∧ c.isDigit = false ∧ radix hexadecimal ≤ rank c := by
    cases hexadecimal with
    | false => exact List.all_iff_forall_prop.mp (by decide)
    | true => exact List.all_iff_forall_prop.mp (by decide)
  exact hmarks c (isExponentMark_iff.mp hc)

/-- A character goes on with a number, whatever follows it. -/
def IsPlain (hexadecimal : Bool) (c : Char) : Prop :=
  (c.isAlphanum || decide (c = '_')) = true ∧ isExponentMark hexadecimal c = false

theorem isPlain_of_rank (hc : rank c < radix hexadecimal) : IsPlain hexadecimal c := by
  refine ⟨?_, Bool.eq_false_iff.mpr fun hmark => Nat.not_le_of_lt hc (letter_of_mark hmark).2.2⟩
  rw [isAlphanum_of_rank (Nat.lt_of_lt_of_le hc radix_le), Bool.true_or]

theorem isPlain_of_isDigit (hc : c.isDigit = true) : IsPlain hexadecimal c := by
  refine ⟨by rw [Char.isAlphanum, hc, Bool.or_true, Bool.true_or], ?_⟩
  exact Bool.eq_false_iff.mpr fun hmark => Bool.eq_false_iff.mp (letter_of_mark hmark).2.1 hc

theorem IsPlain.ne_point (h : IsPlain hexadecimal c) : c ≠ '.' := by
  rintro rfl
  exact nomatch h.1

theorem Consists.plain (hbase : base ≤ radix hexadecimal) (h : Consists base ['_'] text) :
    ∀ c ∈ text, IsPlain hexadecimal c := by
  intro c hc
  rcases h c hc with hrank | hscore
  · exact isPlain_of_rank (Nat.lt_of_lt_of_le hrank hbase)
  · obtain rfl := List.mem_singleton.mp hscore
    cases hexadecimal <;> exact ⟨rfl, rfl⟩

theorem DigitRun.plain (hbase : base ≤ radix hexadecimal) (h : DigitRun base text ds) :
    ∀ c ∈ text, IsPlain hexadecimal c :=
  (h.scored (hbase.trans radix_le)).consists.plain hbase

-- ================================================================= reach

theorem IsPlain.numberTail_cons (h : IsPlain hexadecimal c) :
    numberTail hexadecimal pointSeen passed (c :: text) =
      numberTail hexadecimal pointSeen (passed + 1) text := by
  rw [Piece.numberTail_letter h.1, h.2, Bool.false_and, if_neg Bool.false_ne_true]

theorem numberTail_plain (h : ∀ c ∈ text, IsPlain hexadecimal c) :
    numberTail hexadecimal pointSeen passed (text ++ more) =
      numberTail hexadecimal pointSeen (passed + text.length) more := by
  induction text generalizing passed with
  | nil => rfl
  | cons c text ih =>
    obtain ⟨hc, htext⟩ := List.forall_mem_cons.mp h
    rw [List.cons_append, hc.numberTail_cons, ih htext, List.length_cons, Nat.add_assoc,
      Nat.add_comm 1]

/-- A sign behind the mark of an exponent goes on with a number. -/
theorem numberTail_exponent (hc : isExponentMark hexadecimal c = true) (he : SignedRun text e) :
    numberTail hexadecimal pointSeen passed (c :: text ++ more) =
      numberTail hexadecimal pointSeen (passed + (c :: text).length) more := by
  have hletter : (c.isAlphanum || decide (c = '_')) = true := by
    rw [(letter_of_mark hc).1, Bool.true_or]
  have signed {s : Char} {text ds : List Char} (hs : isSign s = true) (h : DigitRun 10 text ds) :
      numberTail hexadecimal pointSeen passed (c :: s :: text ++ more) =
        numberTail hexadecimal pointSeen (passed + (c :: s :: text).length) more := by
    have hmark : (isExponentMark hexadecimal c && (s :: text ++ more).head?.any isSign) = true := by
      rw [hc, Bool.true_and]
      exact hs
    rw [List.cons_append, Piece.numberTail_letter hletter, if_pos hmark, List.cons_append,
      List.tail_cons, numberTail_plain (h.plain le_radix), List.length_cons, List.length_cons]
    congr 1
    omega
  cases he with
  | plus h | minus h => exact signed rfl h
  | unsigned h =>
    have hmark : (isExponentMark hexadecimal c && (text ++ more).head?.any isSign) = false := by
      obtain ⟨d, rest, -, rfl, -, hd⟩ := h.exists_cons
      have hsign : isSign d = false := by
        rw [Bool.eq_false_iff]
        intro hsign
        have hsigns : ∀ s ∈ ['+', '-'], ¬rank s < 10 :=
          List.all_iff_forall_prop.mp (by decide)
        exact hsigns d (by simpa [isSign] using hsign) hd
      rw [List.cons_append, List.head?_cons, Option.any_some, hsign, Bool.and_false]
    rw [List.cons_append, Piece.numberTail_letter hletter, hmark, if_neg Bool.false_ne_true,
      numberTail_plain (h.plain le_radix), List.length_cons]
    congr 1
    omega

/-- A number reaches at least as far as the text, unless a second point
follows. -/
def Reaches (hexadecimal : Bool) (text : List Char) : Prop :=
  ∃ pointSeen, ∀ passed more, more.head?.any (decide <| · = '.') = false →
    numberTail hexadecimal false passed (text ++ more) =
      numberTail hexadecimal pointSeen (passed + text.length) more

theorem reaches_nil : Reaches hexadecimal [] := ⟨false, fun _ _ _ => rfl⟩

theorem Reaches.plain_append (htext : ∀ c ∈ text, IsPlain hexadecimal c)
    (hm : Reaches hexadecimal m) : Reaches hexadecimal (text ++ m) := by
  obtain ⟨pointSeen, hm⟩ := hm
  refine ⟨pointSeen, fun passed more hmore => ?_⟩
  rw [List.append_assoc, numberTail_plain htext, hm _ _ hmore, List.length_append, Nat.add_assoc]

theorem reaches_plain (htext : ∀ c ∈ text, IsPlain hexadecimal c) : Reaches hexadecimal text := by
  rw [← List.append_nil text]
  exact reaches_nil.plain_append htext

/-- A point is passed with the digits behind it. -/
theorem reaches_point (htext : ∀ c ∈ text, IsPlain hexadecimal c) :
    Reaches hexadecimal ('.' :: text) := by
  refine ⟨true, fun passed more hmore => ?_⟩
  have hnext : (text ++ more).head?.any (decide <| · = '.') = false := by
    cases text with
    | nil => exact hmore
    | cons c text => exact decide_eq_false (htext c List.mem_cons_self).ne_point
  rw [List.cons_append, Piece.numberTail_point hnext, numberTail_plain htext, List.length_cons,
    Nat.add_assoc, Nat.add_comm 1]

/-- What goes on whether or not there was a point may follow. -/
theorem Reaches.append (hm : Reaches hexadecimal m) (hc : c ≠ '.')
    (htext : ∀ pointSeen passed more, numberTail hexadecimal pointSeen passed (c :: text ++ more) =
      numberTail hexadecimal pointSeen (passed + (c :: text).length) more) :
    Reaches hexadecimal (m ++ c :: text) := by
  obtain ⟨pointSeen, hm⟩ := hm
  refine ⟨pointSeen, fun passed more _ => ?_⟩
  have hpoint : (c :: text ++ more).head?.any (decide <| · = '.') = false := decide_eq_false hc
  rw [List.append_assoc, hm _ _ hpoint, htext, List.length_append, Nat.add_assoc]

theorem Reaches.exponent (hm : Reaches hexadecimal m) (hc : isExponentMark hexadecimal c = true)
    (he : SignedRun text e) : Reaches hexadecimal (m ++ c :: text) := by
  refine hm.append ?_ fun _ _ _ => numberTail_exponent hc he
  rintro rfl
  exact nomatch (letter_of_mark hc).1

theorem Reaches.imaginary (hm : Reaches hexadecimal m) : Reaches hexadecimal (m ++ ['i']) := by
  refine hm.append (by decide) fun _ _ _ => numberTail_plain (List.forall_mem_singleton.mpr ?_)
  cases hexadecimal <;> exact ⟨rfl, rfl⟩

section

variable (hbase : base ≤ radix hexadecimal)
  (hwhole : ∀ {text ds}, Whole text ds → ∀ c ∈ text, IsPlain hexadecimal c)

include hbase hwhole

theorem PointedMantissa.reaches (h : PointedMantissa base Whole m x) : Reaches hexadecimal m := by
  cases h with
  | whole hw hf =>
    have hplain := (hf.scored (hbase.trans radix_le)).consists.plain hbase
    exact (reaches_point hplain).plain_append (hwhole hw)
  | fraction hf => exact reaches_point (hf.plain hbase)

theorem ScaledMantissa.reaches (h : ScaledMantissa base Whole m x) : Reaches hexadecimal m := by
  cases h with
  | whole h => exact reaches_plain (hwhole h)
  | pointed h => exact h.reaches hbase hwhole

end

-- ============================================================ beginnings

theorem DigitRun.starts (h : DigitRun 10 text ds) : startsNumber (text ++ more) = true := by
  obtain ⟨d, rest, -, rfl, -, hd⟩ := h.exists_cons
  exact Piece.startsNumber_digit (isDigit_of_rank hd)

theorem PointedMantissa.starts (h : PointedMantissa 10 (DigitRun 10) m x) :
    startsNumber (m ++ more) = true := by
  cases h with
  | whole hw =>
    rw [List.append_assoc]
    exact hw.starts
  | fraction hf =>
    obtain ⟨d, rest, -, rfl, -, hd⟩ := hf.exists_cons
    exact isDigit_of_rank hd

theorem ScaledMantissa.starts (h : ScaledMantissa 10 (DigitRun 10) m x) :
    startsNumber (m ++ more) = true := by
  cases h with
  | whole h => exact h.starts
  | pointed h => exact h.starts

theorem IntegerLiteral.starts (h : IntegerLiteral text n) : startsNumber (text ++ more) = true := by
  rcases h.cases with ⟨ds, h⟩ | ⟨c, base, rest, rfl, -, -⟩
  · exact h.starts
  · rfl

theorem FloatLiteral.starts (h : FloatLiteral text x) : startsNumber (text ++ more) = true := by
  cases h with
  | plain hm => exact hm.starts
  | decimal hm =>
    rw [List.append_assoc]
    exact hm.starts
  | hexadecimal => rfl

/-- What has no prefix is not in base sixteen. -/
theorem isHexadecimal_of_unprefixed (h : hasBasePrefix text = false) :
    isHexadecimal text = false := by
  unfold isHexadecimal
  split
  · exact nomatch h
  · exact nomatch h
  · rfl

theorem isHexadecimal_prefixed :
    isHexadecimal ('0' :: c :: text) = decide (c ∈ ['x', 'X']) := by
  rw [Piece.isHexadecimal_cons]
  simp

/-- Whether a number is in base sixteen is seen from the literal. -/
theorem isHexadecimal_append (hne : text ≠ []) (hmore : ∀ c ∈ more.head?, c ∉ ['x', 'X']) :
    isHexadecimal (text ++ more) = isHexadecimal text := by
  obtain ⟨c, text, rfl⟩ := List.exists_cons_of_ne_nil hne
  rw [List.cons_append, Piece.isHexadecimal_cons, Piece.isHexadecimal_cons,
    Piece.any_head?_append fun c hc => ?_]
  simpa using hmore c hc

-- ============================================================== literals

/-- All of an integer is letters, digits and underscores, and its letters
mark no exponent. -/
theorem IntegerLiteral.plain (h : IntegerLiteral text n) :
    ∀ c ∈ text, IsPlain (isHexadecimal text) c := by
  rcases h.cases with ⟨ds, h⟩ | ⟨c, base, rest, rfl, hc, hrest⟩
  · exact h.plain le_radix
  · have hletters : ∀ entry ∈ baseLetters, entry.2 ≤ radix (decide (entry.1 ∈ ['x', 'X'])) ∧
        entry.1.isAlphanum = true ∧ ∀ hexadecimal, isExponentMark hexadecimal entry.1 = false := by
      decide
    obtain ⟨hbase, hletter, hmark⟩ := hletters _ hc
    rw [isHexadecimal_prefixed]
    refine List.forall_mem_cons.mpr ⟨isPlain_of_rank (Nat.lt_of_lt_of_le (by decide) le_radix),
      List.forall_mem_cons.mpr ⟨⟨?_, hmark _⟩, hrest.plain hbase⟩⟩
    rw [hletter, Bool.true_or]

theorem FloatLiteral.reaches (h : FloatLiteral text x) : Reaches (isHexadecimal text) text := by
  have hdecimal {text ds : List Char} (h : DigitRun 10 text ds) :
      ∀ c ∈ text, IsPlain false c := h.plain (by decide)
  have hhexadecimal {text ds : List Char} (h : PrefixedRun 16 text ds) :
      ∀ c ∈ text, IsPlain true c := (h.scored (by decide)).consists.plain (by decide)
  cases h with
  | plain hm =>
    have hconsists := (hm.consists (by decide) DigitRun.scored_decimal).1
    rw [isHexadecimal_of_unprefixed (hconsists.mono (by decide) (by decide)).unprefixed]
    exact hm.reaches (by decide) hdecimal
  | decimal hm hc he =>
    have hconsists := hm.marked (by decide) DigitRun.scored_decimal (by decide) hc he
    rw [isHexadecimal_of_unprefixed hconsists.unprefixed]
    exact (hm.reaches (by decide) hdecimal).exponent (isExponentMark_iff.mpr hc) he
  | @hexadecimal m text p c x e hp hm hc he =>
    have hletters : ∀ p ∈ ['x', 'X'], p.isAlphanum = true ∧ isExponentMark true p = false :=
      List.all_iff_forall_prop.mp (by decide)
    obtain ⟨hletter, hmark⟩ := hletters p hp
    have hopening : ∀ c ∈ ['0', p], IsPlain true c :=
      List.forall_mem_cons.mpr ⟨isPlain_of_rank (by decide),
        List.forall_mem_singleton.mpr ⟨by rw [hletter, Bool.true_or], hmark⟩⟩
    rw [isHexadecimal_prefixed, decide_eq_true hp]
    exact ((hm.reaches (by decide) hhexadecimal).exponent (isExponentMark_iff.mpr hc)
      he).plain_append hopening

theorem IntegerLiteral.not_mem (h : IntegerLiteral text n) : 'i' ∉ text := by
  rcases h.cases with ⟨ds, h⟩ | ⟨c, base, rest, rfl, hc, hrest⟩
  · exact (h.scored (by decide)).consists.not_mem (by decide) (by decide)
  · have hletters : ∀ entry ∈ baseLetters, entry.2 ≤ rank 'i' ∧ 'i' ≠ entry.1 := by decide
    obtain ⟨hbase, hne⟩ := hletters _ hc
    exact List.not_mem_cons_of_ne_of_not_mem (by decide)
      (List.not_mem_cons_of_ne_of_not_mem hne (hrest.not_mem hbase (by decide)))

theorem FloatLiteral.not_mem (h : FloatLiteral text x) : 'i' ∉ text := by
  rcases h.cases with ⟨h, -⟩ | ⟨p, rest, rfl, hp, h, -⟩
  · exact h.not_mem (by decide) (by decide)
  · exact List.not_mem_cons_of_ne_of_not_mem (by decide)
      (List.not_mem_cons_of_ne_of_not_mem (ne_of_mem_of_not_mem hp (by decide)).symm
        (h.not_mem (by decide) (by decide)))

-- ================================================================= kinds

theorem numberKind_real (hlast : 'i' ∉ text) : numberKind text =
    if text.any fun c => c = '.' || isExponentMark (isHexadecimal text) c then .floatLit
    else .intLit := by
  rw [numberKind, if_neg fun h => hlast (List.mem_of_getLast? h)]

theorem IntegerLiteral.kind (h : IntegerLiteral text n) : numberKind text = .intLit := by
  rw [numberKind_real h.not_mem, if_neg]
  rw [List.any_eq_true]
  rintro ⟨c, hc, hreal⟩
  rw [decide_eq_false (h.plain c hc).ne_point, (h.plain c hc).2] at hreal
  exact nomatch hreal

theorem FloatLiteral.kind (h : FloatLiteral text x) : numberKind text = .floatLit := by
  rw [numberKind_real h.not_mem, if_pos]
  rw [List.any_eq_true]
  rcases h.cases with ⟨hconsists, c, hmem, hc⟩ | ⟨p, rest, rfl, hp, -, c, hmem, hc⟩
  · refine ⟨c, hmem, ?_⟩
    rw [isHexadecimal_of_unprefixed hconsists.unprefixed, Bool.or_eq_true, decide_eq_true_eq]
    exact (List.mem_cons.mp hc).imp_right isExponentMark_iff.mpr
  · refine ⟨c, List.mem_cons_of_mem _ (List.mem_cons_of_mem _ hmem), ?_⟩
    rw [isHexadecimal_prefixed, decide_eq_true hp, Bool.or_eq_true]
    exact .inr (isExponentMark_iff.mpr hc)

-- ============================================================== measured

/-- The first character of a number is counted like the others. -/
theorem numberLength_eq (hstart : startsNumber text = true) :
    numberLength text = numberTail (isHexadecimal text) false 0 text := by
  obtain ⟨c, cs, rfl⟩ := List.exists_cons_of_ne_nil (Piece.startsNumber_ne_nil hstart)
  rw [Piece.startsNumber_cons, Bool.or_eq_true, Bool.and_eq_true, decide_eq_true_eq] at hstart
  rcases hstart with hc | ⟨rfl, hd⟩
  · rw [Piece.numberLength_digit hc, (isPlain_of_isDigit hc).numberTail_cons]
  · obtain ⟨d, rest, rfl, hd⟩ : ∃ d rest, cs = d :: rest ∧ d.isDigit = true := by
      cases cs with
      | nil => exact nomatch hd
      | cons d rest => exact ⟨d, rest, rfl, hd⟩
    have hplain : IsPlain false d := isPlain_of_isDigit hd
    have hnext : (d :: rest).head?.any (decide <| · = '.') = false :=
      decide_eq_false hplain.ne_point
    have hhex : isHexadecimal ('.' :: d :: rest) = false := rfl
    rw [hhex, Piece.numberTail_point hnext, hplain.numberTail_cons]
    rfl

/-- The lexer takes a text for a number, and all of it. -/
structure Taken (text : List Char) : Prop where
  starts : ∀ more, startsNumber (text ++ more) = true
  reaches : Reaches (isHexadecimal text) text

theorem DigitRun.taken (h : DigitRun 10 text ds) : Taken text :=
  ⟨fun _ => h.starts, reaches_plain (h.plain le_radix)⟩

theorem IntegerLiteral.taken (h : IntegerLiteral text n) : Taken text :=
  ⟨fun _ => h.starts, reaches_plain h.plain⟩

theorem FloatLiteral.taken (h : FloatLiteral text x) : Taken text :=
  ⟨fun _ => h.starts, h.reaches⟩

namespace Taken

theorem ne_nil (h : Taken text) : text ≠ [] := by
  rw [← List.append_nil text]
  exact Piece.startsNumber_ne_nil (h.starts [])

theorem imaginary (h : Taken text) : Taken (text ++ ['i']) := by
  refine ⟨fun more => ?_, ?_⟩
  · rw [List.append_assoc]
    exact h.starts _
  · have hletter : ∀ c ∈ ['i'].head?, c ∉ ['x', 'X'] := by
      rintro _ ⟨⟩
      decide
    rw [isHexadecimal_append h.ne_nil hletter]
    exact h.reaches.imaginary

theorem measure_append (h : Taken text) (hmore : EndsNumber more) :
    measure (text ++ more) = (.token (numberKind text), text.length) := by
  have hletters : ∀ c ∈ more.head?, c ∉ ['x', 'X'] := by
    intro c hc hmem
    have hletter : ∀ c ∈ ['x', 'X'], c.isAlphanum = true :=
      List.all_iff_forall_prop.mp (by decide)
    exact Bool.eq_false_iff.mp (hmore c hc).1 (hletter c hmem)
  have hpoint : ([] ++ more).head?.any (decide <| · = '.') = false :=
    Piece.any_head?_append fun c hc => decide_eq_false (hmore c hc).2.2
  obtain ⟨pointSeen, hreaches⟩ := h.reaches
  apply Piece.measure_startsNumber (h.starts more)
  rw [numberLength_eq (h.starts more), isHexadecimal_append h.ne_nil hletters,
    hreaches 0 more hpoint, hmore.numberTail_eq, Nat.zero_add]

end Taken

theorem ImaginaryLiteral.taken (h : ImaginaryLiteral text x) : Taken text := by
  cases h with
  | digits h => exact h.taken.imaginary
  | integer h => exact h.taken.imaginary
  | float h => exact h.taken.imaginary

theorem ImaginaryLiteral.kind (h : ImaginaryLiteral text x) : numberKind text = .imagLit := by
  cases h with
  | digits | integer | float => rw [numberKind, if_pos List.getLast?_concat]

section

variable {source : String} {before : List Char}

/-- A literal is one token where a token begins, unless a letter, a digit, an
underscore or a point follows it. It is a token of its kind, and its value is
the value of the literal. -/
theorem number_literals (hsource : source.toList = before ++ text ++ more)
    (hmore : EndsNumber more)
    (hbegins : (ofSource source).BeginsAt (Location.first.pastAll before)) :
    (∀ n, IntegerLiteral text n →
      (ofSource source).OneToken before text .intLit ∧ intValue text = some n) ∧
    (∀ x, FloatLiteral text x →
      (ofSource source).OneToken before text .floatLit ∧ floatValue text = some x) ∧
    ∀ x, ImaginaryLiteral text x →
      (ofSource source).OneToken before text .imagLit ∧ imagValue text = some x := by
  have one {kind : Token.Kind} (h : Taken text) (hkind : numberKind text = kind) :
      (ofSource source).OneToken before text kind := by
    refine Token.Stream.oneToken_of_measure hsource ?_ hbegins
    rw [h.measure_append hmore, hkind]
  refine ⟨fun n h => ⟨one h.taken h.kind, intValue_eq_some.mpr h.form⟩,
    fun x h => ⟨one h.taken h.kind, floatValue_eq_some.mpr h.form⟩,
    fun x h => ⟨one h.taken h.kind, h.value⟩⟩

/-- A number of each kind in one source: an underscore behind a prefix, a
sign in an exponent, and a zero in front of an imaginary number. -/
theorem number_literals_sum :
    let s := ofSource "0x_F+1_0.5e-1+0_17i)"
    let float := ['1', '_', '0'] ++ '.' :: ['5'] ++ 'e' :: ['-', '1']
    (IntegerLiteral "0x_F".toList 15 ∧ s.BeginsAt (Location.first.pastAll []) ∧
      s.OneToken [] "0x_F".toList .intLit ∧ intValue "0x_F".toList = some 15) ∧
    (FloatLiteral float (21 / 20) ∧ s.BeginsAt (Location.first.pastAll "0x_F+".toList) ∧
      s.OneToken "0x_F+".toList float .floatLit ∧ floatValue float = some (21 / 20)) ∧
    ImaginaryLiteral "0_17i".toList 17 ∧
      s.BeginsAt (Location.first.pastAll "0x_F+1_0.5e-1+".toList) ∧
      s.OneToken "0x_F+1_0.5e-1+".toList "0_17i".toList .imagLit ∧
      imagValue "0_17i".toList = some 17 := by
  intro s float
  have ends {c : Char} {cs : List Char} (hc : c.isAlphanum = false ∧ c ≠ '_' ∧ c ≠ '.') :
      EndsNumber (c :: cs) := by
    rintro _ ⟨⟩
    exact hc
  refine ⟨?_, ?_, ?_⟩
  · have hliteral : IntegerLiteral "0x_F".toList 15 :=
      .lettered (by decide : ('x', 16) ∈ baseLetters) (.score (.last (by decide)))
    have hsource : "0x_F+1_0.5e-1+0_17i)".toList =
        [] ++ "0x_F".toList ++ "+1_0.5e-1+0_17i)".toList := rfl
    have hbegins : s.BeginsAt (Location.first.pastAll []) := by decide +kernel
    exact ⟨hliteral, hbegins, (number_literals hsource (ends (by decide)) hbegins).1 15 hliteral⟩
  · have hmantissa : PointedMantissa 10 (DigitRun 10) (['1', '_', '0'] ++ '.' :: ['5'])
        (positional 10 ['1', '0'] ['5']) :=
      .whole (.score (by decide) (.last (by decide))) (.digits (.last (by decide)))
    have hscaled : FloatLiteral float
        (positional 10 ['1', '0'] ['5'] * 10 ^ (-spelled 10 ['1'] : Int)) :=
      .decimal (.pointed hmantissa) (by decide) (.minus (.last (by decide))) (by decide)
    have hvalue : positional 10 ['1', '0'] ['5'] * 10 ^ (-spelled 10 ['1'] : Int) = 21 / 20 := by
      decide +kernel
    have hliteral : FloatLiteral float (21 / 20) := hvalue ▸ hscaled
    have hsource : "0x_F+1_0.5e-1+0_17i)".toList =
        "0x_F+".toList ++ float ++ "+0_17i)".toList := rfl
    have hbegins : s.BeginsAt (Location.first.pastAll "0x_F+".toList) := by decide +kernel
    exact ⟨hliteral, hbegins,
      (number_literals hsource (ends (by decide)) hbegins).2.1 _ hliteral⟩
  · have hliteral : ImaginaryLiteral "0_17i".toList 17 :=
      .digits (.score (by decide) (.digit (by decide) (.last (by decide))))
    have hsource : "0x_F+1_0.5e-1+0_17i)".toList =
        "0x_F+1_0.5e-1+".toList ++ "0_17i".toList ++ ")".toList := rfl
    have hbegins : s.BeginsAt (Location.first.pastAll "0x_F+1_0.5e-1+".toList) := by decide +kernel
    exact ⟨hliteral, hbegins,
      (number_literals hsource (ends (by decide)) hbegins).2.2 _ hliteral⟩

end

end GoSource.Literal
