/-
What the decoders of numbers accept.

The forms are those of the numbers without their underscores, and each form
has its value (`IntegerForm`, `FloatForm`). A decoder reads a form piece by
piece: a text is cut at the mark of its exponent and at its point, digits
are read, and the pieces put together. The cuts are where the form has them,
because no mark and no point is a digit (`Mantissa.consists`).

A decimal and a hexadecimal float are read in one way, with other bases and
marks, and whether the exponent may be missing is the only other difference
(`floatPair`). What is read is a numerator and a denominator, of which a
rational is made at the very end (`floatValue_eq`).
-/
import GoSource.Literal.Number
import GoSource.Proofs.Literals.Digits
import Mathlib.Data.List.TakeWhile
import Mathlib.Data.Rat.Lemmas

namespace GoSource.Literal

variable {base digitBase scaleBase value places n : Nat} {c p : Char} {x : Rat} {e : Int}
  {cs ds ws fs m before after text : List Char}

-- ================================================================= forms

/-- The letters that name a base, behind a zero. -/
def baseLetters : List (Char × Nat) :=
  [('x', 16), ('X', 16), ('o', 8), ('O', 8), ('b', 2), ('B', 2)]

/-- Integers, and what they are. -/
inductive IntegerForm : List Char → Nat → Prop
  | zero : IntegerForm ['0'] 0
  | decimal {c : Char} {ds : List Char} (hc : c ≠ '0') (h : Numeral 10 (c :: ds)) :
      IntegerForm (c :: ds) (spelled 10 (c :: ds))
  | octal {ds : List Char} (h : Numeral 8 ds) : IntegerForm ('0' :: ds) (spelled 8 ds)
  | lettered {c : Char} {base : Nat} {ds : List Char} (hc : (c, base) ∈ baseLetters)
      (h : Numeral base ds) : IntegerForm ('0' :: c :: ds) (spelled base ds)

/-- Digits, behind a sign or not. -/
inductive SignedNumeral : List Char → Int → Prop
  | unsigned {ds : List Char} (h : Numeral 10 ds) : SignedNumeral ds (spelled 10 ds)
  | plus {ds : List Char} (h : Numeral 10 ds) : SignedNumeral ('+' :: ds) (spelled 10 ds)
  | minus {ds : List Char} (h : Numeral 10 ds) : SignedNumeral ('-' :: ds) (-spelled 10 ds)

/-- At least one digit, and at most one point among the digits. -/
inductive Mantissa (base : Nat) : List Char → Rat → Prop
  | whole {ds : List Char} (h : Numeral base ds) : Mantissa base ds (spelled base ds)
  | pointed {ws fs : List Char} (h : Numeral base (ws ++ fs)) :
      Mantissa base (ws ++ '.' :: fs) (positional base ws fs)

/-- Floats, and what they are. -/
inductive FloatForm : List Char → Rat → Prop
  | plain {m : List Char} {x : Rat} (hm : Mantissa 10 m x) : FloatForm m x
  | decimal {m ds : List Char} {c : Char} {x : Rat} {e : Int} (hm : Mantissa 10 m x)
      (hc : c ∈ ['e', 'E']) (he : SignedNumeral ds e) (hlimit : e.natAbs ≤ 65536) :
      FloatForm (m ++ c :: ds) (x * 10 ^ e)
  | hexadecimal {m ds : List Char} {p c : Char} {x : Rat} {e : Int} (hp : p ∈ ['x', 'X'])
      (hm : Mantissa 16 m x) (hc : c ∈ ['p', 'P']) (he : SignedNumeral ds e)
      (hlimit : e.natAbs ≤ 65536) : FloatForm ('0' :: p :: (m ++ c :: ds)) (x * 2 ^ e)

-- ============================================================== integers

theorem integerParts_decimal (hc : c ≠ '0') : integerParts (c :: cs) = (10, c :: cs) := by
  unfold integerParts
  split <;> simp_all

theorem integerParts_lettered (hc : (c, base) ∈ baseLetters) :
    integerParts ('0' :: c :: cs) = (base, cs) := by
  simp only [baseLetters, List.mem_cons, Prod.mk.injEq, List.not_mem_nil, or_false] at hc
  rcases hc with ⟨rfl, rfl⟩ | ⟨rfl, rfl⟩ | ⟨rfl, rfl⟩ | ⟨rfl, rfl⟩ | ⟨rfl, rfl⟩ | ⟨rfl, rfl⟩ <;> rfl

/-- A digit of base eight names no base. -/
theorem integerParts_octal (hc : rank c < 8) : integerParts ('0' :: c :: cs) = (8, c :: cs) := by
  have hne {letter : Char} (hletter : 8 ≤ rank letter) : c ≠ letter := by
    rintro rfl
    omega
  unfold integerParts
  split <;> simp_all +decide

theorem baseLetters_le : ∀ entry ∈ baseLetters, entry.2 ≤ 16 := by decide

theorem IntegerForm.number_eq (h : IntegerForm cs n) :
    number (integerParts cs).1 (integerParts cs).2 = some n := by
  cases h with
  | zero => rfl
  | decimal hc h =>
    rw [integerParts_decimal hc, number_eq_some (Nat.le_of_ble_eq_true rfl)]
    exact ⟨h, rfl⟩
  | @octal ds h =>
    obtain ⟨c, ds, rfl⟩ := List.exists_cons_of_ne_nil h.1
    rw [integerParts_octal (inBase_cons.mp h.2).1, number_eq_some (Nat.le_of_ble_eq_true rfl)]
    exact ⟨h, rfl⟩
  | lettered hc h =>
    rw [integerParts_lettered hc, number_eq_some (baseLetters_le _ hc)]
    exact ⟨h, rfl⟩

theorem IntegerForm.of_number :
    number (integerParts cs).1 (integerParts cs).2 = some n → IntegerForm cs n := by
  have lettered {c : Char} {base : Nat} {rest : List Char} (hc : (c, base) ∈ baseLetters)
      (h : number base rest = some n) : IntegerForm ('0' :: c :: rest) n := by
    obtain ⟨hnumeral, rfl⟩ := (number_eq_some (baseLetters_le _ hc)).mp h
    exact .lettered hc hnumeral
  fun_cases integerParts cs with
  | case1 | case2 | case3 | case4 | case5 | case6 =>
    exact lettered (List.mem_of_elem_eq_true rfl)
  | case7 c rest =>
    intro h
    obtain ⟨hnumeral, rfl⟩ := (number_eq_some (Nat.le_of_ble_eq_true rfl)).mp h
    exact .octal hnumeral
  | case8 cs _ _ _ _ _ _ hzero =>
    intro h
    obtain ⟨hnumeral, rfl⟩ := (number_eq_some (Nat.le_of_ble_eq_true rfl)).mp h
    obtain ⟨c, ds, hds⟩ := List.exists_cons_of_ne_nil hnumeral.1
    obtain rfl : cs = c :: ds := hds
    by_cases hc : c = '0'
    · subst hc
      cases ds with
      | nil => exact .zero
      | cons d ds => exact (hzero d ds rfl).elim
    · exact .decimal hc hnumeral

theorem intValue_eq_some :
    intValue text = some n ↔ IntegerForm (withoutUnderscores text) n :=
  ⟨.of_number, IntegerForm.number_eq⟩

-- ================================================================== cuts

section

variable {q : Char → Bool}

theorem cutAt_none (h : ∀ c ∈ cs, q c = false) : cutAt q cs = (cs, none) := by
  have hall : ∀ c ∈ cs, (!q c) = true := fun c hc => by rw [h c hc]; rfl
  have hdrop : cs.dropWhile (!q ·) = [] := List.dropWhile_eq_nil_iff.mpr hall
  rw [cutAt, hdrop]

theorem cutAt_some (h : ∀ c ∈ before, q c = false) (hc : q c = true) :
    cutAt q (before ++ c :: after) = (before, some after) := by
  have hbefore : ∀ c ∈ before, (!q c) = true := fun c hc => by rw [h c hc]; rfl
  have hstop : ¬(!q c) = true := by rw [hc]; exact Bool.false_ne_true
  have hdrop : (before ++ c :: after).dropWhile (!q ·) = c :: after := by
    rw [List.dropWhile_append_of_pos hbefore]
    exact List.dropWhile_cons_of_neg hstop
  have htake : (before ++ c :: after).takeWhile (!q ·) = before := by
    rw [List.takeWhile_append_of_pos hbefore]
    simp [hc]
  rw [cutAt, hdrop, htake]

/-- A text is cut at the first character of a set, if there is one. -/
theorem exists_cut (q : Char → Bool) (cs : List Char) : (∀ c ∈ cs, q c = false) ∨
    ∃ before c after, cs = before ++ c :: after ∧ (∀ c ∈ before, q c = false) ∧ q c = true := by
  induction cs with
  | nil => exact .inl nofun
  | cons c cs ih =>
    by_cases hc : q c = true
    · exact .inr ⟨[], c, cs, rfl, nofun, hc⟩
    · rw [Bool.not_eq_true] at hc
      rcases ih with hnone | ⟨before, d, after, rfl, hbefore, hd⟩
      · exact .inl (List.forall_mem_cons.mpr ⟨hc, hnone⟩)
      · exact .inr ⟨c :: before, d, after, rfl, List.forall_mem_cons.mpr ⟨hc, hbefore⟩, hd⟩

end

-- ============================================================= mantissas

theorem rank_point : rank '.' = 16 := by decide

/-- Digits hold no point. -/
theorem InBase.ne_point (h : InBase base cs) (hbase : base ≤ 16) :
    ∀ c ∈ cs, decide (c = '.') = false := by
  intro c hc
  rw [decide_eq_false_iff_not]
  rintro rfl
  have hrank := h '.' hc
  rw [rank_point] at hrank
  omega

/-- A mantissa consists of digits and a point. -/
theorem Mantissa.consists (h : Mantissa base m x) : Consists base ['.'] m := by
  cases h with
  | whole h => exact h.2.consists
  | pointed h =>
    obtain ⟨hws, hfs⟩ := inBase_append.mp h.2
    exact List.forall_mem_append.mpr ⟨hws.consists,
      List.forall_mem_cons.mpr ⟨.inr List.mem_cons_self, hfs.consists⟩⟩

theorem mantissa_whole (h : ∀ c ∈ m, decide (c = '.') = false) :
    mantissa base m = (number base m).map fun value => (value, 0) := by
  rw [mantissa, cutAt_none h]
  simp [Option.map_eq_bind]

theorem mantissa_pointed (h : ∀ c ∈ ws, decide (c = '.') = false) :
    mantissa base (ws ++ '.' :: fs) =
      (number base (ws ++ fs)).map fun value => (value, fs.length) := by
  rw [mantissa, cutAt_some h rfl]
  simp [Option.map_eq_bind]

/-- A mantissa is read as a number and a power of the base to divide it
by. -/
theorem mantissa_iff (hbase : base ≤ 16) (hzero : base ≠ 0) :
    (∃ value places, mantissa base m = some (value, places) ∧
      x = (value : Rat) / (base : Rat) ^ places) ↔ Mantissa base m x := by
  constructor
  · rintro ⟨value, places, hread, rfl⟩
    rcases exists_cut (decide <| · = '.') m with hnone | ⟨ws, c, fs, rfl, hws, hc⟩
    · rw [mantissa_whole hnone] at hread
      obtain ⟨n, hn, hpair⟩ := Option.map_eq_some_iff.mp hread
      obtain ⟨rfl, rfl⟩ := Prod.mk.inj hpair
      obtain ⟨hnumeral, rfl⟩ := (number_eq_some hbase).mp hn
      rw [pow_zero, div_one]
      exact .whole hnumeral
    · obtain rfl : c = '.' := of_decide_eq_true hc
      rw [mantissa_pointed hws] at hread
      obtain ⟨n, hn, hpair⟩ := Option.map_eq_some_iff.mp hread
      obtain ⟨rfl, rfl⟩ := Prod.mk.inj hpair
      obtain ⟨hnumeral, rfl⟩ := (number_eq_some hbase).mp hn
      rw [← positional_eq hzero]
      exact .pointed hnumeral
  · intro h
    cases h with
    | whole h =>
      refine ⟨spelled base m, 0, ?_, by rw [pow_zero, div_one]⟩
      rw [mantissa_whole (h.2.ne_point hbase), (number_eq_some hbase).mpr ⟨h, rfl⟩]
      rfl
    | @pointed ws fs h =>
      refine ⟨spelled base (ws ++ fs), fs.length, ?_, positional_eq hzero⟩
      rw [mantissa_pointed ((inBase_append.mp h.2).1.ne_point hbase),
        (number_eq_some hbase).mpr ⟨h, rfl⟩]
      rfl

-- ============================================================= exponents

theorem signedNumber_minus :
    signedNumber ('-' :: ds) = (number 10 ds).map fun n : Nat => -(n : Int) := by
  cases h : number 10 ds <;> simp [signedNumber, h]

theorem signedNumber_plus : signedNumber ('+' :: ds) = (number 10 ds).map Int.ofNat := rfl

theorem signedNumber_unsigned (hminus : cs.head? ≠ some '-') (hplus : cs.head? ≠ some '+') :
    signedNumber cs = (number 10 cs).map Int.ofNat := by
  unfold signedNumber
  split
  · exact absurd rfl hminus
  · rw [signedUp_eq hplus]

theorem signedNumber_eq_some : signedNumber cs = some e ↔ SignedNumeral cs e := by
  have hten {ds : List Char} {n : Nat} : number 10 ds = some n ↔
      Numeral 10 ds ∧ n = spelled 10 ds := number_eq_some (by decide)
  constructor
  · intro h
    by_cases hminus : cs.head? = some '-'
    · obtain ⟨ds, rfl⟩ := List.head?_eq_some_iff.mp hminus
      rw [signedNumber_minus] at h
      obtain ⟨n, hn, rfl⟩ := Option.map_eq_some_iff.mp h
      obtain ⟨hnumeral, rfl⟩ := hten.mp hn
      exact .minus hnumeral
    by_cases hplus : cs.head? = some '+'
    · obtain ⟨ds, rfl⟩ := List.head?_eq_some_iff.mp hplus
      rw [signedNumber_plus] at h
      obtain ⟨n, hn, rfl⟩ := Option.map_eq_some_iff.mp h
      obtain ⟨hnumeral, rfl⟩ := hten.mp hn
      exact .plus hnumeral
    · rw [signedNumber_unsigned hminus hplus] at h
      obtain ⟨n, hn, rfl⟩ := Option.map_eq_some_iff.mp h
      obtain ⟨hnumeral, rfl⟩ := hten.mp hn
      exact .unsigned hnumeral
  · intro h
    cases h with
    | minus h => rw [signedNumber_minus, hten.mpr ⟨h, rfl⟩, Option.map_some]
    | plus h => rw [signedNumber_plus, hten.mpr ⟨h, rfl⟩, Option.map_some]; rfl
    | unsigned h =>
      have hminus : cs.head? ≠ some '-' := h.2.head?_ne (by decide) (by decide)
      have hplus : cs.head? ≠ some '+' := h.2.head?_ne (by decide) (by decide)
      rw [signedNumber_unsigned hminus hplus, hten.mpr ⟨h, rfl⟩, Option.map_some]
      rfl

-- ================================================================ floats

/-- What `scale` makes a rational of. -/
def scaledPair (mantissa denominator base : Nat) (exponent : Int) : Option (Nat × Nat) :=
  if exponent.natAbs > maxExponent then none
  else
    let factor := Nat.pow base exponent.natAbs
    some (if 0 ≤ exponent then (mantissa * factor, denominator)
      else (mantissa, denominator * factor))

/-- A mantissa, scaled. -/
def scaledMantissa (digitBase scaleBase : Nat) (m : List Char) (e : Int) : Option (Nat × Nat) :=
  (mantissa digitBase m).bind fun r => scaledPair r.1 (Nat.pow digitBase r.2) scaleBase e

/-- The numerator and the denominator of a float. What an exponent is that
is missing depends on the base, and it may be nothing. -/
def floatPair (digitBase scaleBase : Nat) (isMark : Char → Bool) (missing : Option Int)
    (cs : List Char) : Option (Nat × Nat) :=
  ((cutAt isMark cs).2.elim missing signedNumber).bind
    (scaledMantissa digitBase scaleBase (cutAt isMark cs).1)

/-- The marks of exponents. -/
def isDecimalMark (c : Char) : Bool := c = 'e' || c = 'E'

def isBinaryMark (c : Char) : Bool := c = 'p' || c = 'P'

/-- The numerator and the denominator of a floating-point literal. -/
def floatFraction (text : List Char) : Option (Nat × Nat) :=
  let cs := withoutUnderscores text
  if hasHexPrefix cs then floatPair 16 2 isBinaryMark none (cs.drop 2)
  else floatPair 10 10 isDecimalMark (some 0) cs

/-- The rational of a numerator and a denominator. -/
def quotient (f : Nat × Nat) : Rat := mkRat f.1 f.2

theorem scale_eq (value d b : Nat) (e : Int) :
    scale value d b e = (scaledPair value d b e).map quotient := by
  unfold scale scaledPair
  split
  · rfl
  · dsimp only
    split <;> rfl

theorem map_scaledMantissa : (scaledMantissa digitBase scaleBase m e).map quotient =
    (mantissa digitBase m).bind fun r => scale r.1 (Nat.pow digitBase r.2) scaleBase e := by
  simp only [scaledMantissa, scale_eq, Option.map_bind, Function.comp_def]

theorem hexFloat_eq (cs : List Char) :
    hexFloat cs = (floatPair 16 2 isBinaryMark none cs).map quotient := by
  rw [floatPair, Option.map_bind]
  simp only [Function.comp_def, map_scaledMantissa]
  have hcut : cutAt (fun c => c = 'p' || c = 'P') cs = cutAt isBinaryMark cs := rfl
  rw [hexFloat, hcut]
  obtain ⟨m, exponent⟩ := cutAt isBinaryMark cs
  cases exponent <;> simp

theorem decimalFloat_eq (cs : List Char) :
    decimalFloat cs = (floatPair 10 10 isDecimalMark (some 0) cs).map quotient := by
  rw [floatPair, Option.map_bind]
  simp only [Function.comp_def, map_scaledMantissa]
  have hcut : cutAt (fun c => c = 'e' || c = 'E') cs = cutAt isDecimalMark cs := rfl
  rw [decimalFloat, hcut]
  obtain ⟨m, exponent⟩ := cutAt isDecimalMark cs
  cases exponent <;> simp

theorem hasHexPrefix_iff :
    hasHexPrefix cs = true ↔ ∃ p rest, cs = '0' :: p :: rest ∧ p ∈ ['x', 'X'] := by
  unfold hasHexPrefix
  split
  · next c rest => simp
  · next hnone =>
    simp only [Bool.false_eq_true, false_iff]
    rintro ⟨p, rest, rfl, -⟩
    exact hnone p rest rfl

/-- The value of a float is the fraction that is read. -/
theorem floatValue_eq (text : List Char) :
    floatValue text = (floatFraction text).map quotient := by
  unfold floatValue floatFraction
  dsimp only
  generalize withoutUnderscores text = cs
  split
  · exact hexFloat_eq _
  · exact hexFloat_eq _
  · next hx hX =>
    have hnone : ¬hasHexPrefix cs = true := by
      rw [hasHexPrefix_iff]
      rintro ⟨p, rest, rfl, hp⟩
      rcases List.mem_pair.mp hp with rfl | rfl
      · exact hx rest rfl
      · exact hX rest rfl
    rw [if_neg hnone]
    exact decimalFloat_eq cs

-- =============================================================== fractions

theorem scaledPair_eq_some {d b : Nat} {f : Nat × Nat} (hd : d ≠ 0) (hb : b ≠ 0)
    (h : scaledPair value d b e = some f) :
    e.natAbs ≤ 65536 ∧ quotient f = (value : Rat) / d * (b : Rat) ^ e ∧ f.2 ≠ 0 := by
  rw [scaledPair, maxExponent] at h
  by_cases hlimit : e.natAbs > 65536
  · rw [if_pos hlimit] at h
    cases h
  rw [if_neg hlimit] at h
  obtain rfl := Option.some.inj h
  refine ⟨Nat.le_of_not_gt hlimit, ?_⟩
  have hbase : (b : Rat) ≠ 0 := Nat.cast_ne_zero.mpr hb
  have hfactor : Nat.pow b e.natAbs ≠ 0 := pow_ne_zero e.natAbs hb
  by_cases he : 0 ≤ e
  · rw [if_pos he]
    refine ⟨?_, hd⟩
    have hpow : (b : Rat) ^ e = ((Nat.pow b e.natAbs : Nat) : Rat) := by
      obtain ⟨k, rfl⟩ := Int.eq_ofNat_of_zero_le he
      rw [zpow_natCast, Int.natAbs_natCast, Nat.pow_eq, Nat.cast_pow]
    rw [quotient, Rat.mkRat_eq_div, hpow]
    push_cast
    ring
  · rw [if_neg he]
    refine ⟨?_, Nat.mul_ne_zero hd hfactor⟩
    have hpow : (b : Rat) ^ e = ((Nat.pow b e.natAbs : Nat) : Rat)⁻¹ := by
      obtain ⟨k, hk⟩ := Int.exists_eq_neg_ofNat (le_of_not_ge he)
      rw [hk, zpow_neg, zpow_natCast, Int.natAbs_neg, Int.natAbs_natCast, Nat.pow_eq, Nat.cast_pow]
    rw [quotient, Rat.mkRat_eq_div, hpow]
    push_cast
    field_simp

theorem exists_scaledPair {d b : Nat} (h : e.natAbs ≤ 65536) :
    ∃ f, scaledPair value d b e = some f := by
  rw [scaledPair, maxExponent, if_neg (by omega)]
  exact ⟨_, rfl⟩

section

variable {q : Char → Bool} {missing : Option Int} {f : Nat × Nat} (hbase : digitBase ≤ 16)
  (hzero : digitBase ≠ 0) (hscale : scaleBase ≠ 0)

include hzero hscale

theorem scaledMantissa_denominator (h : scaledMantissa digitBase scaleBase m e = some f) :
    f.2 ≠ 0 := by
  obtain ⟨r, -, hr⟩ := Option.bind_eq_some_iff.mp h
  exact (scaledPair_eq_some (pow_ne_zero r.2 hzero) hscale hr).2.2

theorem floatPair_denominator (h : floatPair digitBase scaleBase q missing cs = some f) :
    f.2 ≠ 0 := by
  obtain ⟨e, -, he⟩ := Option.bind_eq_some_iff.mp h
  exact scaledMantissa_denominator hzero hscale he

include hbase

/-- A mantissa is scaled if the exponent is within the limit. -/
theorem scaledMantissa_iff :
    (scaledMantissa digitBase scaleBase m e).map quotient = some x ↔
      ∃ y, Mantissa digitBase m y ∧ e.natAbs ≤ 65536 ∧ x = y * (scaleBase : Rat) ^ e := by
  constructor
  · intro h
    obtain ⟨f, hf, rfl⟩ := Option.map_eq_some_iff.mp h
    obtain ⟨⟨value, places⟩, hread, hr⟩ := Option.bind_eq_some_iff.mp hf
    obtain ⟨hlimit, hvalue, -⟩ := scaledPair_eq_some (pow_ne_zero places hzero) hscale hr
    rw [Nat.cast_pow] at hvalue
    exact ⟨_, (mantissa_iff hbase hzero).mp ⟨value, places, hread, rfl⟩, hlimit, hvalue⟩
  · rintro ⟨y, hy, hlimit, rfl⟩
    obtain ⟨value, places, hread, rfl⟩ := (mantissa_iff hbase hzero).mpr hy
    obtain ⟨f, hf⟩ := @exists_scaledPair value _ (Nat.pow digitBase places) scaleBase hlimit
    obtain ⟨-, hvalue, -⟩ := scaledPair_eq_some (pow_ne_zero places hzero) hscale hf
    rw [scaledMantissa, hread, Option.bind_some, hf, Option.map_some, hvalue, Nat.cast_pow]

/-- A float is a mantissa, or one in front of the mark of an exponent. -/
theorem floatPair_iff (hmark : ∀ c, q c = true → digitBase ≤ rank c ∧ c ∉ ['.']) :
    (floatPair digitBase scaleBase q missing cs).map quotient = some x ↔
      (∃ y e, missing = some e ∧ Mantissa digitBase cs y ∧ e.natAbs ≤ 65536 ∧
        x = y * (scaleBase : Rat) ^ e) ∨
      ∃ m c ds y e, cs = m ++ c :: ds ∧ q c = true ∧ Mantissa digitBase m y ∧
        SignedNumeral ds e ∧ e.natAbs ≤ 65536 ∧ x = y * (scaleBase : Rat) ^ e := by
  have hnone {m : List Char} {y : Rat} (hm : Mantissa digitBase m y) : ∀ c ∈ m, q c = false := by
    intro c hc
    by_contra hq
    obtain ⟨hrank, hpoint⟩ := hmark c (by simpa using hq)
    exact hm.consists.not_mem hrank hpoint hc
  constructor
  · intro h
    rw [floatPair, Option.map_bind] at h
    obtain ⟨e, he, h⟩ := Option.bind_eq_some_iff.mp h
    obtain ⟨y, hy, hlimit, rfl⟩ := (scaledMantissa_iff hbase hzero hscale).mp h
    rcases exists_cut q cs with hno | ⟨m, c, ds, rfl, hm, hc⟩
    · rw [cutAt_none hno] at he hy
      exact .inl ⟨y, e, he, hy, hlimit, rfl⟩
    · rw [cutAt_some hm hc] at he hy
      exact .inr ⟨m, c, ds, y, e, rfl, hc, hy, signedNumber_eq_some.mp he, hlimit, rfl⟩
  · rintro (⟨y, e, rfl, hy, hlimit, rfl⟩ | ⟨m, c, ds, y, e, rfl, hc, hy, he, hlimit, rfl⟩)
    · rw [floatPair, cutAt_none (hnone hy)]
      exact (scaledMantissa_iff hbase hzero hscale).mpr ⟨y, hy, hlimit, rfl⟩
    · rw [floatPair, cutAt_some (hnone hy) hc, Option.elim_some, signedNumber_eq_some.mpr he,
        Option.bind_some]
      exact (scaledMantissa_iff hbase hzero hscale).mpr ⟨y, hy, hlimit, rfl⟩

end

-- ============================================================ all of them

theorem isDecimalMark_iff : isDecimalMark c = true ↔ c ∈ ['e', 'E'] := by
  simp [isDecimalMark]

theorem isBinaryMark_iff : isBinaryMark c = true ↔ c ∈ ['p', 'P'] := by
  simp [isBinaryMark]

theorem Mantissa.ne_nil (h : Mantissa base m x) : m ≠ [] := by
  cases h with
  | whole h => exact h.1
  | pointed => exact List.append_ne_nil_of_right_ne_nil _ (List.cons_ne_nil _ _)

/-- A mantissa in decimal does not begin like a number in another base, with
an exponent or without. -/
theorem Mantissa.unprefixed (h : Mantissa 10 m x) (hafter : ∀ c ∈ after.head?, c ∈ ['e', 'E']) :
    hasHexPrefix (m ++ after) = false := by
  have hletters : ∀ p ∈ ['x', 'X'], 10 ≤ rank p ∧ p ∉ ['.'] ∧ p ∉ ['e', 'E'] :=
    List.all_iff_forall_prop.mp (by decide)
  rw [Bool.eq_false_iff]
  intro hopening
  obtain ⟨p, rest, htext, hp⟩ := hasHexPrefix_iff.mp hopening
  obtain ⟨hrank, hpoint, hmark⟩ := hletters p hp
  have hnone : p ∉ m := h.consists.not_mem hrank hpoint
  obtain ⟨c, m, rfl⟩ := List.exists_cons_of_ne_nil h.ne_nil
  obtain ⟨-, htext⟩ := List.cons.inj htext
  cases m with
  | nil =>
    obtain rfl : after = p :: rest := htext
    exact hmark (hafter p rfl)
  | cons d m =>
    obtain ⟨rfl, -⟩ := List.cons.inj htext
    exact hnone (List.mem_cons_of_mem _ List.mem_cons_self)

theorem floatPair_decimal : (floatPair 10 10 isDecimalMark (some 0) cs).map quotient = some x ↔
    Mantissa 10 cs x ∨ ∃ m c ds y e, cs = m ++ c :: ds ∧ c ∈ ['e', 'E'] ∧ Mantissa 10 m y ∧
      SignedNumeral ds e ∧ e.natAbs ≤ 65536 ∧ x = y * 10 ^ e := by
  have hmark : ∀ c, isDecimalMark c = true → 10 ≤ rank c ∧ c ∉ ['.'] := by
    intro c hc
    have hletters : ∀ c ∈ ['e', 'E'], 10 ≤ rank c ∧ c ∉ ['.'] :=
      List.all_iff_forall_prop.mp (by decide)
    exact hletters c (isDecimalMark_iff.mp hc)
  rw [floatPair_iff (by decide) (by decide) (by decide) hmark]
  simp only [isDecimalMark_iff, Nat.cast_ofNat]
  refine or_congr_left ⟨?_, fun h => ⟨x, 0, rfl, h, by decide, by rw [zpow_zero, mul_one]⟩⟩
  rintro ⟨y, e, he, hy, -, rfl⟩
  obtain rfl := Option.some.inj he
  rwa [zpow_zero, mul_one]

theorem floatPair_binary : (floatPair 16 2 isBinaryMark none cs).map quotient = some x ↔
    ∃ m c ds y e, cs = m ++ c :: ds ∧ c ∈ ['p', 'P'] ∧ Mantissa 16 m y ∧
      SignedNumeral ds e ∧ e.natAbs ≤ 65536 ∧ x = y * 2 ^ e := by
  have hmark : ∀ c, isBinaryMark c = true → 16 ≤ rank c ∧ c ∉ ['.'] := by
    intro c hc
    have hletters : ∀ c ∈ ['p', 'P'], 16 ≤ rank c ∧ c ∉ ['.'] :=
      List.all_iff_forall_prop.mp (by decide)
    exact hletters c (isBinaryMark_iff.mp hc)
  rw [floatPair_iff (by decide) (by decide) (by decide) hmark]
  simp only [isBinaryMark_iff, Nat.cast_ofNat]
  refine or_iff_right ?_
  rintro ⟨y, e, he, -⟩
  exact nomatch he

theorem floatValue_eq_some :
    floatValue text = some x ↔ FloatForm (withoutUnderscores text) x := by
  rw [floatValue_eq, floatFraction]
  generalize withoutUnderscores text = cs
  constructor
  · intro h
    by_cases hopening : hasHexPrefix cs = true
    · rw [if_pos hopening] at h
      obtain ⟨p, rest, rfl, hp⟩ := hasHexPrefix_iff.mp hopening
      obtain ⟨m, c, ds, y, e, htext, hc, hy, he, hlimit, rfl⟩ := floatPair_binary.mp h
      obtain rfl : rest = m ++ c :: ds := htext
      exact .hexadecimal hp hy hc he hlimit
    · rw [if_neg hopening] at h
      rcases floatPair_decimal.mp h with hm | ⟨m, c, ds, y, e, rfl, hc, hy, he, hlimit, rfl⟩
      · exact .plain hm
      · exact .decimal hy hc he hlimit
  · intro h
    cases h with
    | plain hm =>
      have hopening : hasHexPrefix (cs ++ []) = false := hm.unprefixed nofun
      rw [List.append_nil] at hopening
      rw [if_neg (Bool.eq_false_iff.mp hopening)]
      exact floatPair_decimal.mpr (.inl hm)
    | @decimal m ds c y e hm hc he hlimit =>
      have hafter : ∀ d ∈ (c :: ds).head?, d ∈ ['e', 'E'] := by
        rintro d ⟨⟩
        exact hc
      have hopening := hm.unprefixed hafter
      rw [if_neg (Bool.eq_false_iff.mp hopening)]
      exact floatPair_decimal.mpr (.inr ⟨_, _, _, _, _, rfl, hc, hm, he, hlimit, rfl⟩)
    | hexadecimal hp hm hc he hlimit =>
      rw [if_pos (hasHexPrefix_iff.mpr ⟨_, _, rfl, hp⟩)]
      exact floatPair_binary.mpr ⟨_, _, _, _, _, rfl, hc, hm, he, hlimit, rfl⟩

theorem floatFraction_denominator {f : Nat × Nat} (h : floatFraction text = some f) :
    f.2 ≠ 0 := by
  unfold floatFraction at h
  dsimp only at h
  split at h
  · exact floatPair_denominator (by decide) (by decide) h
  · exact floatPair_denominator (by decide) (by decide) h

/-- A number has a value if its form is one of an integer or of a float, and
then it is the value of the form. What a float is computed from has a
denominator that is not zero. -/
theorem values_of_forms (text : List Char) :
    (∀ n, intValue text = some n ↔ IntegerForm (withoutUnderscores text) n) ∧
    (∀ x, floatValue text = some x ↔ FloatForm (withoutUnderscores text) x) ∧
    floatValue text = (floatFraction text).map quotient ∧
    ∀ f, floatFraction text = some f → f.2 ≠ 0 :=
  ⟨fun _ => intValue_eq_some, fun _ => floatValue_eq_some, floatValue_eq text,
    fun _ => floatFraction_denominator⟩

end GoSource.Literal
