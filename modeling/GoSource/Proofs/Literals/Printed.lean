/-
Rationals in decimal, and back.

A rational is rounded to units of the twentieth place (`scaled`), and the
units are written: digits for what is whole, padded digits for the rest, and
of those the zeros at the end left off again. None of this changes the value
(`spelled_toDigits`, `paddedDigits_spec`, `positional_zeros`), so the text
differs from the rational by the rounding alone (`roundedQuotient_bounds`).
What needs no rounding is read back as what it was.
-/
import GoSource.Literal.Rational
import GoSource.Proofs.Literals.Form
import Mathlib.Algebra.Order.Ring.Abs
import Mathlib.Data.List.DropRight
import Mathlib.Tactic.Linarith

namespace GoSource.Literal

variable {base k n : Nat} {cs ws fs : List Char}

-- ============================================================== rounding

/-- A rounded quotient is off by half at most, and a half goes up. -/
theorem roundedQuotient_bounds (n : Nat) {d : Nat} (hd : 0 < d) :
    2 * (d * roundedQuotient n d) ≤ 2 * n + d ∧ 2 * n < 2 * (d * roundedQuotient n d) + d := by
  have hsplit := Nat.div_add_mod n d
  have hlt := Nat.mod_lt n hd
  unfold roundedQuotient
  split
  · rw [Nat.mul_add, Nat.mul_one]
    omega
  · omega

-- ================================================================ digits

theorem rank_digitChar : ∀ n < 10, rank (Nat.digitChar n) = n := by decide

/-- The digits of a number spell it. -/
theorem spelled_toDigits (n : Nat) :
    InBase 10 (Nat.toDigits 10 n) ∧ spelled 10 (Nat.toDigits 10 n) = n := by
  induction n using Nat.strongRecOn with
  | ind n ih =>
    by_cases hn : n < 10
    · rw [Nat.toDigits_of_lt_base hn, spelled_singleton, rank_digitChar n hn]
      refine ⟨List.forall_mem_singleton.mpr ?_, rfl⟩
      rw [rank_digitChar n hn]
      exact hn
    · obtain ⟨hdigits, hvalue⟩ := ih (n / 10) (by omega)
      have hlast : rank (Nat.digitChar (n % 10)) = n % 10 := rank_digitChar _ (by omega)
      rw [Nat.toDigits_of_base_le (by decide) (by omega), inBase_append, spelled_append, hvalue,
        spelled_singleton, hlast]
      refine ⟨⟨hdigits, List.forall_mem_singleton.mpr ?_⟩, ?_⟩
      · rw [hlast]
        omega
      · rw [List.length_singleton, pow_one]
        omega

/-- Only zero begins with a zero. -/
theorem toDigits_lead (h : (Nat.toDigits 10 n).head? = some '0') : n = 0 := by
  induction n using Nat.strongRecOn with
  | ind n ih =>
    by_cases hn : n < 10
    · rw [Nat.toDigits_of_lt_base hn] at h
      have hrank := congrArg rank (Option.some.inj h)
      rwa [rank_digitChar n hn] at hrank
    · rw [Nat.toDigits_of_base_le (by decide) (by omega),
        List.head?_append_of_ne_nil _ Nat.toDigits_ne_nil] at h
      have hzero := ih (n / 10) (by omega) h
      omega

@[simp] theorem spelled_zeros : spelled base (List.replicate k '0') = 0 := by
  have hzero : rank '0' = 0 := by decide
  rw [spelled, List.map_replicate, hzero, List.reverse_replicate, Nat.ofDigits_replicate_zero]

theorem inBase_zeros (hbase : 0 < base) : InBase base (List.replicate k '0') := by
  intro c hc
  rwa [List.eq_of_mem_replicate hc]

/-- Zeros in front fill a width and spell nothing. -/
theorem paddedDigits_spec {width : Nat} (hwidth : 0 < width) (hn : n < 10 ^ width) :
    InBase 10 (paddedDigits width n) ∧ spelled 10 (paddedDigits width n) = n ∧
      (paddedDigits width n).length = width := by
  obtain ⟨hdigits, hvalue⟩ := spelled_toDigits n
  have hlength : (Nat.toDigits 10 n).length ≤ width :=
    (Nat.length_toDigits_le_iff (by decide) hwidth).mpr hn
  unfold paddedDigits
  refine ⟨inBase_append.mpr ⟨inBase_zeros (by decide), hdigits⟩, ?_, ?_⟩
  · rw [spelled_append, spelled_zeros, hvalue, Nat.zero_mul, Nat.zero_add]
  · rw [List.length_append, List.length_replicate]
    omega

/-- What is left off is zeros, and what stays does not end in one, unless
nothing else stays. -/
theorem trimZeros_spec (hcs : cs ≠ []) : ∃ k, cs = trimZeros cs ++ List.replicate k '0' ∧
    trimZeros cs ≠ [] ∧ (1 < (trimZeros cs).length → (trimZeros cs).getLast? ≠ some '0') := by
  obtain ⟨c, cs, rfl⟩ := List.exists_cons_of_ne_nil hcs
  have htrim : trimZeros (c :: cs) = c :: cs.rdropWhile (decide <| · = '0') := rfl
  have hzeros : ∀ x ∈ cs.rtakeWhile (decide <| · = '0'), x = '0' := by
    intro x hx
    have hx := List.mem_rtakeWhile_imp hx
    exact of_decide_eq_true hx
  refine ⟨(cs.rtakeWhile (decide <| · = '0')).length, ?_, ?_, ?_⟩
  · rw [htrim, ← List.eq_replicate_of_mem hzeros, List.cons_append,
      List.rdropWhile_append_rtakeWhile]
  · rw [htrim]
    exact List.cons_ne_nil _ _
  · rw [htrim, List.length_cons]
    intro hlong hlast
    have hne : cs.rdropWhile (decide <| · = '0') ≠ [] :=
      List.ne_nil_of_length_pos (by omega)
    rw [List.getLast?_cons_of_ne_nil hne, List.getLast?_eq_getLast_of_ne_nil hne] at hlast
    exact List.rdropWhile_last_not _ _ hne (by simpa using hlast)

/-- Zeros at the end of a fraction count nothing. -/
theorem positional_zeros (hbase : base ≠ 0) :
    positional base ws (fs ++ List.replicate k '0') = positional base ws fs := by
  have hpow : (base : Rat) ^ k ≠ 0 := pow_ne_zero k (Nat.cast_ne_zero.mpr hbase)
  rw [positional, positional, spelled_append, spelled_zeros, List.length_append,
    List.length_replicate, Nat.add_zero, pow_add]
  push_cast
  rw [mul_div_mul_right _ _ hpow]

-- =============================================================== decimals

/-- A number in decimal: a sign or none, digits without superfluous zeros in
front, a point, and up to twenty digits without superfluous zeros at the
end. -/
structure Decimal where
  negative : Bool
  whole : List Char
  fraction : List Char
  whole_digits : Numeral 10 whole
  whole_lead : whole.head? = some '0' → whole = ['0']
  fraction_digits : Numeral 10 fraction
  fraction_length : fraction.length ≤ 20
  fraction_last : 1 < fraction.length → fraction.getLast? ≠ some '0'

namespace Decimal

def text (d : Decimal) : List Char :=
  (if d.negative then ['-'] else []) ++ d.whole ++ '.' :: d.fraction

def magnitude (d : Decimal) : Rat := positional 10 d.whole d.fraction

def value (d : Decimal) : Rat := if d.negative then -d.magnitude else d.magnitude

/-- Units of the twentieth place, written out. -/
theorem exists_units (negative : Bool) (q : Nat) : ∃ d : Decimal, d.negative = negative ∧
    d.whole = Nat.toDigits 10 (q / unitsInOne) ∧
    d.fraction = trimZeros (paddedDigits places (q % unitsInOne)) ∧
    d.magnitude = (q : Rat) / 10 ^ 20 := by
  obtain ⟨hwhole, hvalue⟩ := spelled_toDigits (q / unitsInOne)
  obtain ⟨hpadded, hrest, hlength⟩ := @paddedDigits_spec (q % unitsInOne) places
    (by decide) (Nat.mod_lt q (by decide))
  have hne : paddedDigits places (q % unitsInOne) ≠ [] :=
    List.ne_nil_of_length_pos (by rw [hlength]; decide)
  obtain ⟨k, hzeros, hfraction, hlast⟩ := trimZeros_spec hne
  have hdigits : InBase 10 (trimZeros (paddedDigits places (q % unitsInOne))) := by
    rw [hzeros] at hpadded
    exact (inBase_append.mp hpadded).1
  have hshort := congrArg List.length hzeros
  rw [hlength, List.length_append] at hshort
  have hlead (h : (Nat.toDigits 10 (q / unitsInOne)).head? = some '0') :
      Nat.toDigits 10 (q / unitsInOne) = ['0'] := by
    rw [toDigits_lead h, Nat.toDigits_zero]
  refine ⟨⟨negative, _, _, ⟨Nat.toDigits_ne_nil, hwhole⟩, hlead, ⟨hfraction, hdigits⟩,
    Nat.le.intro hshort.symm, hlast⟩, rfl, rfl, rfl, ?_⟩
  have hunits : (q : Rat) = unitsInOne * (q / unitsInOne : Nat) + (q % unitsInOne : Nat) := by
    exact_mod_cast (Nat.div_add_mod q unitsInOne).symm
  have hone : (unitsInOne : Rat) = 10 ^ 20 := Nat.cast_pow 10 20
  rw [magnitude, ← @positional_zeros 10 k _ _ (by decide), ← hzeros, positional, hvalue, hrest,
    hlength, hunits, hone]
  simp only [places]
  push_cast
  field_simp

end Decimal

/-- A magnitude in units of the twentieth place, rounded. -/
theorem scaled_bounds (r : Rat) :
    (scaled r : Rat) ≤ |r| * 10 ^ 20 + 1 / 2 ∧ |r| * 10 ^ 20 < scaled r + 1 / 2 := by
  have hden : (0 : Rat) < r.den := Nat.cast_pos.mpr r.den_pos
  have hmagnitude : (r.num.natAbs : Rat) = |r| * r.den := by
    rw [Nat.cast_natAbs, Int.cast_abs, ← Rat.mul_den_eq_num, abs_mul, abs_of_pos hden]
  obtain ⟨hle, hlt⟩ := roundedQuotient_bounds (r.num.natAbs * unitsInOne) r.den_pos
  have hle' : 2 * ((r.den : Rat) * scaled r) ≤ 2 * (r.num.natAbs * 10 ^ 20) + r.den := by
    exact_mod_cast hle
  have hlt' : 2 * ((r.num.natAbs : Rat) * 10 ^ 20) < 2 * (r.den * scaled r) + r.den := by
    exact_mod_cast hlt
  rw [hmagnitude] at hle' hlt'
  constructor
  · refine le_of_mul_le_mul_left ?_ hden
    linarith only [hle']
  · refine lt_of_mul_lt_mul_left ?_ hden.le
    linarith only [hlt']

/-- Nothing is rounded if there is nothing beyond the twentieth place. -/
theorem scaled_eq {r : Rat} {k : Int} (hr : 0 ≤ r) (hk : r * 10 ^ 20 = k) :
    (scaled r : Rat) = k := by
  obtain ⟨hle, hlt⟩ := scaled_bounds r
  rw [abs_of_nonneg hr, hk] at hle hlt
  have hle' : 2 * (scaled r : Int) ≤ 2 * k + 1 := by
    have hdouble : 2 * (scaled r : Rat) ≤ 2 * k + 1 := by linarith only [hle]
    exact_mod_cast hdouble
  have hlt' : 2 * k < 2 * (scaled r : Int) + 1 := by
    have hdouble : 2 * (k : Rat) < 2 * scaled r + 1 := by linarith only [hlt]
    exact_mod_cast hdouble
  -- Two integers that differ by less than one are the same.
  have hexact : (scaled r : Int) = k := by omega
  exact_mod_cast hexact

/-- What is written, in units of the twentieth place. -/
theorem formatRational_units (r : Rat) : ∃ d : Decimal, formatRational r = .ofList d.text ∧
    d.magnitude = (scaled r : Rat) / 10 ^ 20 ∧ (d.negative = true ↔ r < 0 ∧ scaled r ≠ 0) := by
  obtain ⟨d, hnegative, hwhole, hfraction, hmagnitude⟩ :=
    Decimal.exists_units (decide (r.num < 0) && decide (scaled r ≠ 0)) (scaled r)
  refine ⟨d, ?_, hmagnitude, ?_⟩
  · rw [Decimal.text, hnegative, hwhole, hfraction, formatRational]
    simp
  · rw [hnegative, Bool.and_eq_true, decide_eq_true_eq, decide_eq_true_eq, Rat.num_neg]

namespace Decimal

variable {d : Decimal} {r : Rat}

/-- The sign makes no difference to how far a decimal is off, as long as it
is the sign of the rational. -/
theorem abs_value_sub (hnegative : d.negative = true ↔ r < 0 ∧ d.magnitude ≠ 0) :
    |d.value - r| = |d.magnitude - abs r| := by
  by_cases hd : d.negative = true
  · obtain ⟨hr, -⟩ := hnegative.mp hd
    rw [value, if_pos hd, abs_of_neg hr, ← abs_neg]
    congr 1
    ring
  · rw [value, if_neg hd]
    by_cases hr : r < 0
    · have hzero : d.magnitude = 0 := by
        by_contra hne
        exact hd (hnegative.mpr ⟨hr, hne⟩)
      rw [hzero, zero_sub, zero_sub, abs_neg, abs_neg, abs_abs]
    · rw [abs_of_nonneg (le_of_not_gt hr)]

theorem value_ne_zero : d.value ≠ 0 ↔ d.magnitude ≠ 0 := by
  rw [value]
  split
  · exact neg_ne_zero
  · rfl

theorem abs_value (h : 0 ≤ d.magnitude) : |d.value| = d.magnitude := by
  rw [value]
  split
  · rw [abs_neg, abs_of_nonneg h]
  · exact abs_of_nonneg h

/-- A decimal without a sign is a float. -/
theorem floatValue_text (hd : d.negative = false) : floatValue d.text = some d.magnitude := by
  have hform : Mantissa 10 (d.whole ++ '.' :: d.fraction) d.magnitude := .pointed
    ⟨List.append_ne_nil_of_left_ne_nil d.whole_digits.1 _,
      inBase_append.mpr ⟨d.whole_digits.2, d.fraction_digits.2⟩⟩
  have hplain : withoutUnderscores (d.whole ++ '.' :: d.fraction) =
      d.whole ++ '.' :: d.fraction := by
    refine List.filter_eq_self.mpr fun c hc => decide_eq_true ?_
    rintro rfl
    exact hform.consists.not_mem (by decide) (by decide) hc
  rw [floatValue_eq_some, text, hd, if_neg Bool.false_ne_true, List.nil_append, hplain]
  exact .plain hform

end Decimal

/-- A rational is written as the decimal of at most twenty places that is
nearest to it, of two as near the one further from zero, with a sign only if
it is negative and not written as zero. It is read back as it was if it has
no more places and no sign. -/
theorem formatRational_nearest (r : Rat) : ∃ d : Decimal, formatRational r = .ofList d.text ∧
    |d.value - r| ≤ 1 / 10 ^ 20 / 2 ∧ (|d.value - r| = 1 / 10 ^ 20 / 2 → |r| < |d.value|) ∧
    (d.negative = true ↔ r < 0 ∧ d.value ≠ 0) ∧
    (0 ≤ r → (∃ k : Int, r * 10 ^ 20 = k) → floatValue (formatRational r).toList = some r) := by
  obtain ⟨d, htext, hmagnitude, hsign⟩ := formatRational_units r
  obtain ⟨hle, hlt⟩ := scaled_bounds r
  have hone : (0 : Rat) < 10 ^ 20 := by positivity
  have hscaled : (scaled r : Rat) = d.magnitude * 10 ^ 20 := by
    rw [hmagnitude, div_mul_cancel₀ _ hone.ne']
  have hnegative : d.negative = true ↔ r < 0 ∧ d.magnitude ≠ 0 := by
    rw [hsign, hmagnitude, div_ne_zero_iff, Nat.cast_ne_zero]
    exact ⟨fun h => ⟨h.1, h.2, hone.ne'⟩, fun h => ⟨h.1, h.2.1⟩⟩
  have hpositive : 0 ≤ d.magnitude := by
    rw [hmagnitude]
    exact div_nonneg (Nat.cast_nonneg _) hone.le
  have habove : d.magnitude - |r| ≤ 1 / 10 ^ 20 / 2 := by
    rw [div_div, le_div_iff₀ (by positivity)]
    linarith only [hle, hscaled]
  have hbelow : |r| - d.magnitude < 1 / 10 ^ 20 / 2 := by
    rw [div_div, lt_div_iff₀ (by positivity)]
    linarith only [hlt, hscaled]
  refine ⟨d, htext, ?_, fun htie => ?_, ?_, fun hr hk => ?_⟩
  · rw [d.abs_value_sub hnegative, abs_le]
    constructor <;> linarith only [habove, hbelow]
  · rw [d.abs_value_sub hnegative] at htie
    rw [d.abs_value hpositive]
    by_contra hnot
    rw [abs_of_nonpos (by linarith only [hnot]), neg_sub] at htie
    exact hbelow.ne htie
  · rw [hnegative, Decimal.value_ne_zero]
  · obtain ⟨k, hk⟩ := hk
    have hvalue : d.magnitude = r := by
      rw [hmagnitude, scaled_eq hr hk, ← hk, mul_div_cancel_right₀ _ hone.ne']
    have hplain : d.negative = false := by
      by_contra hd
      exact absurd (hnegative.mp (by simpa using hd)).1 (not_lt_of_ge hr)
    rw [htext, String.toList_ofList, d.floatValue_text hplain, hvalue]

end GoSource.Literal
