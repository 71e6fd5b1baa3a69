/-
The grammar of numbers.

Literals are given as they may be written, with their values: an underscore
may stand between two digits and behind the prefix of a base, and nowhere
else. All digit runs of the grammar are digits with underscores among them
(`Scored`), which is all that reading them depends on. Without its
underscores a literal is of a form that the decoders read, and the value of
the form is the value of the literal.

An imaginary literal is digits or another literal, and what it is decoded as
is told by a prefix, by a point and by marks of exponents. Where these are in
a literal is seen from its characters.
-/
import GoSource.Proofs.Literals.Form

namespace GoSource.Literal

variable {base n : Nat} {c : Char} {x : Rat} {e : Int} {text ds m marks : List Char}
  {Whole : List Char → List Char → Prop}

-- =============================================================== grammar

/-- Digits with single underscores between them, and the digits alone. -/
inductive DigitRun (base : Nat) : List Char → List Char → Prop
  | last {c : Char} (hc : rank c < base) : DigitRun base [c] [c]
  | digit {c : Char} {text ds : List Char} (hc : rank c < base) (h : DigitRun base text ds) :
      DigitRun base (c :: text) (c :: ds)
  | score {c : Char} {text ds : List Char} (hc : rank c < base) (h : DigitRun base text ds) :
      DigitRun base (c :: '_' :: text) (c :: ds)

/-- What stands behind the prefix of a base: an underscore may come first. -/
inductive PrefixedRun (base : Nat) : List Char → List Char → Prop
  | digits {text ds : List Char} (h : DigitRun base text ds) : PrefixedRun base text ds
  | score {text ds : List Char} (h : DigitRun base text ds) : PrefixedRun base ('_' :: text) ds

/-- What stands behind a point. -/
inductive OptionalRun (base : Nat) : List Char → List Char → Prop
  | none : OptionalRun base [] []
  | digits {text ds : List Char} (h : DigitRun base text ds) : OptionalRun base text ds

/-- The digits of an exponent, behind a sign or not. -/
inductive SignedRun : List Char → Int → Prop
  | unsigned {text ds : List Char} (h : DigitRun 10 text ds) : SignedRun text (spelled 10 ds)
  | plus {text ds : List Char} (h : DigitRun 10 text ds) : SignedRun ('+' :: text) (spelled 10 ds)
  | minus {text ds : List Char} (h : DigitRun 10 text ds) :
      SignedRun ('-' :: text) (-spelled 10 ds)

/-- A point with digits on one side of it at least. -/
inductive PointedMantissa (base : Nat) (Whole : List Char → List Char → Prop) :
    List Char → Rat → Prop
  | whole {text ws rest fs : List Char} (hw : Whole text ws) (hf : OptionalRun base rest fs) :
      PointedMantissa base Whole (text ++ '.' :: rest) (positional base ws fs)
  | fraction {rest fs : List Char} (hf : DigitRun base rest fs) :
      PointedMantissa base Whole ('.' :: rest) (positional base [] fs)

/-- What an exponent scales. -/
inductive ScaledMantissa (base : Nat) (Whole : List Char → List Char → Prop) :
    List Char → Rat → Prop
  | whole {text ds : List Char} (h : Whole text ds) :
      ScaledMantissa base Whole text (spelled base ds)
  | pointed {m : List Char} {x : Rat} (h : PointedMantissa base Whole m x) :
      ScaledMantissa base Whole m x

/-- Integer literals, and what they are. -/
inductive IntegerLiteral : List Char → Nat → Prop
  | zero : IntegerLiteral ['0'] 0
  | decimal {c : Char} {text ds : List Char} (hc : c ≠ '0') (h : DigitRun 10 (c :: text) ds) :
      IntegerLiteral (c :: text) (spelled 10 ds)
  | octal {text ds : List Char} (h : PrefixedRun 8 text ds) :
      IntegerLiteral ('0' :: text) (spelled 8 ds)
  | lettered {c : Char} {base : Nat} {text ds : List Char} (hc : (c, base) ∈ baseLetters)
      (h : PrefixedRun base text ds) : IntegerLiteral ('0' :: c :: text) (spelled base ds)

/-- Floating-point literals, and what they are. -/
inductive FloatLiteral : List Char → Rat → Prop
  | plain {m : List Char} {x : Rat} (hm : PointedMantissa 10 (DigitRun 10) m x) : FloatLiteral m x
  | decimal {m text : List Char} {c : Char} {x : Rat} {e : Int}
      (hm : ScaledMantissa 10 (DigitRun 10) m x) (hc : c ∈ ['e', 'E']) (he : SignedRun text e)
      (hlimit : e.natAbs ≤ 65536) : FloatLiteral (m ++ c :: text) (x * 10 ^ e)
  | hexadecimal {m text : List Char} {p c : Char} {x : Rat} {e : Int} (hp : p ∈ ['x', 'X'])
      (hm : ScaledMantissa 16 (PrefixedRun 16) m x) (hc : c ∈ ['p', 'P']) (he : SignedRun text e)
      (hlimit : e.natAbs ≤ 65536) : FloatLiteral ('0' :: p :: (m ++ c :: text)) (x * 2 ^ e)

/-- Imaginary literals, and what they are. Digits are decimal there, also if
they would be an octal number elsewhere. -/
inductive ImaginaryLiteral : List Char → Rat → Prop
  | digits {text ds : List Char} (h : DigitRun 10 text ds) :
      ImaginaryLiteral (text ++ ['i']) (spelled 10 ds)
  | integer {text : List Char} {n : Nat} (h : IntegerLiteral text n)
      (hdigits : ∀ ds, ¬DigitRun 10 text ds) : ImaginaryLiteral (text ++ ['i']) n
  | float {text : List Char} {x : Rat} (h : FloatLiteral text x) :
      ImaginaryLiteral (text ++ ['i']) x

-- ================================================================== runs

/-- Digits, and underscores wherever they are. -/
structure Scored (base : Nat) (text ds : List Char) : Prop where
  digits : withoutUnderscores text = ds
  inBase : InBase base ds

theorem withoutUnderscores_append (cs ds : List Char) :
    withoutUnderscores (cs ++ ds) = withoutUnderscores cs ++ withoutUnderscores ds :=
  List.filter_append _ _

theorem withoutUnderscores_cons (hc : c ≠ '_') (cs : List Char) :
    withoutUnderscores (c :: cs) = c :: withoutUnderscores cs :=
  List.filter_cons_of_pos (decide_eq_true hc)

theorem withoutUnderscores_score (cs : List Char) :
    withoutUnderscores ('_' :: cs) = withoutUnderscores cs := rfl

/-- An underscore is a digit in no base. -/
theorem ne_score (hbase : base ≤ 16) (hc : rank c < base) : c ≠ '_' := by
  rintro rfl
  have hscore : rank '_' = 16 := by decide
  omega

section

variable (hbase : base ≤ 16)

include hbase

theorem DigitRun.scored (h : DigitRun base text ds) : Scored base text ds := by
  induction h with
  | last hc => exact ⟨withoutUnderscores_cons (ne_score hbase hc) [], inBase_cons.mpr ⟨hc, nofun⟩⟩
  | digit hc _ ih =>
    exact ⟨by rw [withoutUnderscores_cons (ne_score hbase hc), ih.digits],
      inBase_cons.mpr ⟨hc, ih.inBase⟩⟩
  | score hc _ ih =>
    exact ⟨by rw [withoutUnderscores_cons (ne_score hbase hc), withoutUnderscores_score, ih.digits],
      inBase_cons.mpr ⟨hc, ih.inBase⟩⟩

theorem PrefixedRun.scored (h : PrefixedRun base text ds) : Scored base text ds := by
  cases h with
  | digits h => exact h.scored hbase
  | score h => exact ⟨(h.scored hbase).digits, (h.scored hbase).inBase⟩

theorem OptionalRun.scored (h : OptionalRun base text ds) : Scored base text ds := by
  cases h with
  | none => exact ⟨rfl, nofun⟩
  | digits h => exact h.scored hbase

end

theorem Scored.consists (h : Scored base text ds) : Consists base ['_'] text := by
  intro c hc
  by_cases hscore : c = '_'
  · exact .inr (List.mem_singleton.mpr hscore)
  · refine .inl (h.inBase c ?_)
    rw [← h.digits]
    exact List.mem_filter.mpr ⟨hc, decide_eq_true hscore⟩

theorem DigitRun.ne_nil (h : DigitRun base text ds) : ds ≠ [] := by
  cases h with
  | last | digit | score => exact List.cons_ne_nil _ _

theorem PrefixedRun.ne_nil (h : PrefixedRun base text ds) : ds ≠ [] := by
  cases h with
  | digits h | score h => exact h.ne_nil

/-- The first character of a run is its first digit. -/
theorem DigitRun.exists_cons (h : DigitRun base text ds) :
    ∃ d rest tail, text = d :: rest ∧ ds = d :: tail ∧ rank d < base := by
  cases h with
  | last hc | digit hc | score hc => exact ⟨_, _, _, rfl, rfl, hc⟩

theorem DigitRun.mono {base' : Nat} (hle : base ≤ base') (h : DigitRun base text ds) :
    DigitRun base' text ds := by
  induction h with
  | last hc => exact .last (Nat.lt_of_lt_of_le hc hle)
  | digit hc _ ih => exact .digit (Nat.lt_of_lt_of_le hc hle) ih
  | score hc _ ih => exact .score (Nat.lt_of_lt_of_le hc hle) ih

-- ================================================================= forms

theorem baseLetters_ne_score : ∀ entry ∈ baseLetters, entry.1 ≠ '_' := by decide

theorem IntegerLiteral.form (h : IntegerLiteral text n) :
    IntegerForm (withoutUnderscores text) n := by
  cases h with
  | zero => exact .zero
  | decimal hc h =>
    obtain ⟨hds, hbase⟩ := h.scored (by decide)
    obtain ⟨d, rest, tail, htext, rfl, -⟩ := h.exists_cons
    obtain ⟨rfl, rfl⟩ := List.cons.inj htext
    rw [hds]
    exact .decimal hc ⟨h.ne_nil, hbase⟩
  | octal h =>
    obtain ⟨hds, hbase⟩ := h.scored (by decide)
    rw [withoutUnderscores_cons (by decide), hds]
    exact .octal ⟨h.ne_nil, hbase⟩
  | lettered hc h =>
    obtain ⟨hds, hbase⟩ := h.scored (baseLetters_le _ hc)
    rw [withoutUnderscores_cons (by decide), withoutUnderscores_cons (baseLetters_ne_score _ hc),
      hds]
    exact .lettered hc ⟨h.ne_nil, hbase⟩

theorem SignedRun.form (h : SignedRun text e) : SignedNumeral (withoutUnderscores text) e := by
  have numeral {text ds : List Char} (h : DigitRun 10 text ds) :
      withoutUnderscores text = ds ∧ Numeral 10 ds :=
    ⟨(h.scored (by decide)).digits, h.ne_nil, (h.scored (by decide)).inBase⟩
  cases h with
  | unsigned h =>
    obtain ⟨hds, hnumeral⟩ := numeral h
    rw [hds]
    exact .unsigned hnumeral
  | plus h =>
    obtain ⟨hds, hnumeral⟩ := numeral h
    rw [withoutUnderscores_cons (by decide), hds]
    exact .plus hnumeral
  | minus h =>
    obtain ⟨hds, hnumeral⟩ := numeral h
    rw [withoutUnderscores_cons (by decide), hds]
    exact .minus hnumeral

section

variable (hbase : base ≤ 16) (hwhole : ∀ {text ds}, Whole text ds → Scored base text ds ∧ ds ≠ [])

include hbase hwhole

theorem PointedMantissa.form (h : PointedMantissa base Whole m x) :
    Mantissa base (withoutUnderscores m) x := by
  cases h with
  | whole hw hf =>
    obtain ⟨⟨hws, hwsbase⟩, hne⟩ := hwhole hw
    obtain ⟨hfs, hfsbase⟩ := hf.scored hbase
    rw [withoutUnderscores_append, withoutUnderscores_cons (by decide), hws, hfs]
    exact .pointed ⟨List.append_ne_nil_of_left_ne_nil hne _, inBase_append.mpr ⟨hwsbase, hfsbase⟩⟩
  | @fraction rest fs hf =>
    obtain ⟨hfs, hfsbase⟩ := hf.scored hbase
    rw [withoutUnderscores_cons (by decide), hfs]
    have hnumeral : Numeral base ([] ++ fs) := ⟨hf.ne_nil, hfsbase⟩
    exact .pointed hnumeral

theorem ScaledMantissa.form (h : ScaledMantissa base Whole m x) :
    Mantissa base (withoutUnderscores m) x := by
  cases h with
  | whole h =>
    obtain ⟨⟨hds, hdsbase⟩, hne⟩ := hwhole h
    rw [hds]
    exact .whole ⟨hne, hdsbase⟩
  | pointed h => exact h.form hbase hwhole

end

theorem DigitRun.scored_decimal (h : DigitRun 10 text ds) : Scored 10 text ds ∧ ds ≠ [] :=
  ⟨h.scored (by decide), h.ne_nil⟩

theorem PrefixedRun.scored_hexadecimal (h : PrefixedRun 16 text ds) : Scored 16 text ds ∧ ds ≠ [] :=
  ⟨h.scored (by decide), h.ne_nil⟩

/-- A mantissa and an exponent, without their underscores. -/
theorem withoutUnderscores_marked (hc : c ≠ '_') :
    withoutUnderscores (m ++ c :: text) = withoutUnderscores m ++ c :: withoutUnderscores text := by
  rw [withoutUnderscores_append, withoutUnderscores_cons hc]

theorem FloatLiteral.form (h : FloatLiteral text x) : FloatForm (withoutUnderscores text) x := by
  cases h with
  | plain hm => exact .plain (hm.form (by decide) DigitRun.scored_decimal)
  | decimal hm hc he hlimit =>
    rw [withoutUnderscores_marked (ne_of_mem_of_not_mem hc (by decide))]
    exact .decimal (hm.form (by decide) DigitRun.scored_decimal) hc he.form hlimit
  | hexadecimal hp hm hc he hlimit =>
    rw [withoutUnderscores_cons (by decide),
      withoutUnderscores_cons (ne_of_mem_of_not_mem hp (by decide)),
      withoutUnderscores_marked (ne_of_mem_of_not_mem hc (by decide))]
    exact .hexadecimal hp (hm.form (by decide) PrefixedRun.scored_hexadecimal) hc he.form hlimit

-- ============================================================ characters

theorem SignedRun.consists (h : SignedRun text e) : Consists 10 ['_', '+', '-'] text := by
  have digits {text ds : List Char} (h : DigitRun 10 text ds) :
      Consists 10 ['_', '+', '-'] text :=
    (h.scored (by decide)).consists.mono (by decide) (by decide)
  cases h with
  | unsigned h => exact digits h
  | plus h | minus h => exact List.forall_mem_cons.mpr ⟨.inr (by decide), digits h⟩

section

variable (hbase : base ≤ 16) (hwhole : ∀ {text ds}, Whole text ds → Scored base text ds ∧ ds ≠ [])

include hbase hwhole

theorem PointedMantissa.consists (h : PointedMantissa base Whole m x) :
    Consists base ['_', '.'] m ∧ '.' ∈ m := by
  have scored {text ds : List Char} (h : Scored base text ds) : Consists base ['_', '.'] text :=
    h.consists.mono (Nat.le_refl _) (by decide)
  cases h with
  | whole hw hf =>
    refine ⟨List.forall_mem_append.mpr ⟨scored (hwhole hw).1, List.forall_mem_cons.mpr
      ⟨.inr (by decide), scored (hf.scored hbase)⟩⟩, ?_⟩
    exact List.mem_append_right _ List.mem_cons_self
  | fraction hf =>
    exact ⟨List.forall_mem_cons.mpr ⟨.inr (by decide), scored (hf.scored hbase)⟩,
      List.mem_cons_self⟩

theorem ScaledMantissa.consists (h : ScaledMantissa base Whole m x) :
    Consists base ['_', '.'] m := by
  cases h with
  | whole h => exact (hwhole h).1.consists.mono (Nat.le_refl _) (by decide)
  | pointed h => exact (h.consists hbase hwhole).1

/-- A mantissa, a mark, and an exponent. -/
theorem ScaledMantissa.marked (h : ScaledMantissa base Whole m x) (hten : 10 ≤ base)
    (hc : c ∈ marks) (he : SignedRun text e) :
    Consists base ('_' :: '.' :: '+' :: '-' :: marks) (m ++ c :: text) := by
  refine List.forall_mem_append.mpr ⟨?_, List.forall_mem_cons.mpr ⟨.inr ?_, ?_⟩⟩
  · exact (h.consists hbase hwhole).mono (Nat.le_refl _) (by simp)
  · simp [hc]
  · exact he.consists.mono hten (by simp)

end

/-- An integer is digits, or has a letter that names its base. -/
theorem IntegerLiteral.cases (h : IntegerLiteral text n) : (∃ ds, DigitRun 10 text ds) ∨
    ∃ c base rest, text = '0' :: c :: rest ∧ (c, base) ∈ baseLetters ∧
      Consists base ['_'] rest := by
  cases h with
  | zero => exact .inl ⟨_, .last (by decide)⟩
  | decimal hc h => exact .inl ⟨_, h⟩
  | octal h =>
    cases h with
    | digits h => exact .inl ⟨_, .digit (by decide) (h.mono (by decide))⟩
    | score h => exact .inl ⟨_, .score (by decide) (h.mono (by decide))⟩
  | lettered hc h =>
    exact .inr ⟨_, _, _, rfl, hc, (h.scored (baseLetters_le _ hc)).consists⟩

/-- A float has a point or a mark, in decimal or behind the prefix of base
sixteen. -/
theorem FloatLiteral.cases (h : FloatLiteral text x) :
    (Consists 10 ['_', '.', '+', '-', 'e', 'E'] text ∧ ∃ c ∈ text, c ∈ ['.', 'e', 'E']) ∨
    ∃ p rest, text = '0' :: p :: rest ∧ p ∈ ['x', 'X'] ∧
      Consists 16 ['_', '.', '+', '-', 'p', 'P'] rest ∧ ∃ c ∈ rest, c ∈ ['p', 'P'] := by
  cases h with
  | plain hm =>
    obtain ⟨hconsists, hpoint⟩ := hm.consists (by decide) DigitRun.scored_decimal
    exact .inl ⟨hconsists.mono (by decide) (by decide), '.', hpoint, List.mem_cons_self⟩
  | decimal hm hc he =>
    exact .inl ⟨hm.marked (by decide) DigitRun.scored_decimal (by decide) hc he, _,
      List.mem_append_right _ List.mem_cons_self, List.mem_cons_of_mem _ hc⟩
  | hexadecimal hp hm hc he =>
    exact .inr ⟨_, _, rfl, hp,
      hm.marked (by decide) PrefixedRun.scored_hexadecimal (by decide) hc he, _,
      List.mem_append_right _ List.mem_cons_self, hc⟩

-- ============================================================ imaginaries

theorem imagValue_append : imagValue (text ++ ['i']) =
    if hasBasePrefix text && !(hasHexPrefix text && text.any fun c => c ∈ ['p', 'P', '.']) then
      (intValue text).map fun n : Nat => (n : Rat)
    else floatValue text := by
  rw [imagValue, if_pos List.getLast?_concat, List.dropLast_concat]
  dsimp only
  cases intValue text <;> rfl

/-- What consists of decimal digits and of no letters but marks of exponents
has no prefix. -/
theorem Consists.unprefixed (h : Consists 10 ['_', '.', '+', '-', 'e', 'E'] text) :
    hasBasePrefix text = false := by
  unfold hasBasePrefix
  split
  · next c _ =>
    rw [decide_eq_false_iff_not]
    intro hc
    have hletters : ∀ c ∈ ['x', 'X', 'o', 'O', 'b', 'B'], 10 ≤ rank c ∧
        c ∉ ['_', '.', '+', '-', 'e', 'E'] := List.all_iff_forall_prop.mp (by decide)
    obtain ⟨hrank, hother⟩ := hletters c hc
    exact h.not_mem hrank hother (List.mem_cons_of_mem _ List.mem_cons_self)
  · rfl

/-- An integer in base sixteen has neither a point nor the mark of an
exponent. -/
theorem no_hexFloat (hc : (c, base) ∈ baseLetters) (h : Consists base ['_'] text) :
    (hasHexPrefix ('0' :: c :: text) && ('0' :: c :: text).any fun c => c ∈ ['p', 'P', '.']) =
      false := by
  have hentries : ∀ entry ∈ baseLetters, entry.1 ∈ ['x', 'X'] →
      entry.2 = 16 ∧ entry.1 ∉ ['p', 'P', '.'] := by decide
  rw [Bool.and_eq_false_imp]
  intro hopening
  obtain ⟨rfl, hmark⟩ := hentries _ hc (of_decide_eq_true hopening)
  have hmarks : ∀ d ∈ ['p', 'P', '.'], 16 ≤ rank d ∧ d ∉ ['_'] ∧ d ≠ '0' :=
    List.all_iff_forall_prop.mp (by decide)
  rw [List.any_eq_false]
  intro d hd
  rw [decide_eq_true_eq]
  intro hmem
  obtain ⟨hrank, hscore, hzero⟩ := hmarks d hmem
  rcases List.mem_cons.mp hd with rfl | hd
  · exact hzero rfl
  · rcases List.mem_cons.mp hd with rfl | hd
    · exact hmark hmem
    · exact h.not_mem hrank hscore hd

/-- An imaginary literal is decoded as what it is. -/
theorem ImaginaryLiteral.value (h : ImaginaryLiteral text x) : imagValue text = some x := by
  cases h with
  | @digits text ds h =>
    have hscored := h.scored (by decide)
    have hnone := (hscored.consists.mono (Nat.le_refl _) (by decide)).unprefixed
    rw [imagValue_append, hnone, Bool.false_and, if_neg Bool.false_ne_true, floatValue_eq_some,
      hscored.digits]
    exact .plain (.whole ⟨h.ne_nil, hscored.inBase⟩)
  | @integer text n h hdigits =>
    rcases h.cases with ⟨ds, hds⟩ | ⟨c, base, rest, rfl, hc, hrest⟩
    · exact absurd hds (hdigits ds)
    · have hopening : hasBasePrefix ('0' :: c :: rest) = true := by
        have hletters : ∀ entry ∈ baseLetters, entry.1 ∈ ['x', 'X', 'o', 'O', 'b', 'B'] := by decide
        exact decide_eq_true (hletters _ hc)
      rw [imagValue_append, hopening, no_hexFloat hc hrest, Bool.not_false, Bool.true_and,
        if_pos rfl, intValue_eq_some.mpr h.form, Option.map_some]
  | @float text x h =>
    have hvalue : floatValue text = some x := floatValue_eq_some.mpr h.form
    rcases h.cases with ⟨hconsists, -⟩ | ⟨p, rest, rfl, hp, -, c, hmem, hc⟩
    · rw [imagValue_append, hconsists.unprefixed, Bool.false_and, if_neg Bool.false_ne_true, hvalue]
    · have hopening : hasHexPrefix ('0' :: p :: rest) = true := decide_eq_true hp
      have hfloat : ('0' :: p :: rest).any (fun c => c ∈ ['p', 'P', '.']) = true := by
        rw [List.any_eq_true]
        exact ⟨c, List.mem_cons_of_mem _ (List.mem_cons_of_mem _ hmem),
          decide_eq_true (List.mem_append_left ['.'] hc)⟩
      rw [imagValue_append, hopening, hfloat, Bool.and_true, Bool.not_true, Bool.and_false,
        if_neg Bool.false_ne_true, hvalue]

end GoSource.Literal
