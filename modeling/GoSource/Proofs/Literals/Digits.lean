/-
What digits spell.

The decoder finds the value of a digit by arithmetic on code points. Here it
is the place of the character in the row `0` to `f` (`rank`), and a number is
the sum of its digits, each times its power of the base (`spelled`). The two
agree in all bases in which literals are written (`digit_eq`).

Digits on either side of a point count on from the powers of the base that
are whole to those that are not (`positional`), which is the same as to read
them without the point and to divide (`positional_eq`).
-/
import GoSource.Literal.Digits
import Mathlib.Data.Bool.AllAny
import Mathlib.Data.Nat.Digits.Defs
import Mathlib.Algebra.Order.Field.Rat
import Mathlib.Tactic.FieldSimp

namespace GoSource.Literal

variable {base : Nat} {c : Char} {cs ds : List Char}

-- ================================================================= ranks

/-- The digits of all bases. -/
def numerals : List Char := "0123456789abcdef".toList

/-- The value of a character as a digit, capital letters counting as small
ones; more than any digit if it is none. -/
def rank (c : Char) : Nat := numerals.idxOf c.toLower

/-- All characters are digits of the base. -/
def InBase (base : Nat) (cs : List Char) : Prop := ∀ c ∈ cs, rank c < base

instance : Decidable (InBase base cs) := List.decidableBAll (rank · < base) cs

/-- At least one digit, and nothing else. -/
def Numeral (base : Nat) (cs : List Char) : Prop := cs ≠ [] ∧ InBase base cs

/-- The number that digits spell, the first counting most. -/
def spelled (base : Nat) (cs : List Char) : Nat := Nat.ofDigits base (cs.map rank).reverse

/-- The value of digits with a point among them. -/
def positional (base : Nat) (whole fraction : List Char) : Rat :=
  spelled base whole + spelled base fraction / (base : Rat) ^ fraction.length

theorem inBase_nil : InBase base [] := nofun

theorem inBase_cons : InBase base (c :: cs) ↔ rank c < base ∧ InBase base cs :=
  List.forall_mem_cons

theorem inBase_append : InBase base (cs ++ ds) ↔ InBase base cs ∧ InBase base ds :=
  List.forall_mem_append

@[simp] theorem spelled_nil : spelled base [] = 0 := rfl

/-- Digits, and characters of another kind. -/
def Consists (base : Nat) (others cs : List Char) : Prop :=
  ∀ c ∈ cs, rank c < base ∨ c ∈ others

theorem Consists.mono {base' : Nat} {others others' : List Char} (hbase : base ≤ base')
    (hothers : others ⊆ others') (h : Consists base others cs) : Consists base' others' cs :=
  fun c hc => (h c hc).imp (Nat.lt_of_lt_of_le · hbase) (hothers ·)

theorem Consists.not_mem {others : List Char} (h : Consists base others cs) (hc : base ≤ rank c)
    (hother : c ∉ others) : c ∉ cs :=
  fun hmem => (h c hmem).elim (Nat.not_lt_of_le hc) hother

theorem InBase.consists {others : List Char} (h : InBase base cs) : Consists base others cs :=
  fun c hc => .inl (h c hc)

theorem spelled_append :
    spelled base (cs ++ ds) = spelled base cs * base ^ ds.length + spelled base ds := by
  rw [spelled, List.map_append, List.reverse_append, Nat.ofDigits_append, List.length_reverse,
    List.length_map, Nat.add_comm, Nat.mul_comm]
  rfl

theorem spelled_lt (hbase : 1 < base) (h : InBase base cs) :
    spelled base cs < base ^ cs.length := by
  have hranks : ∀ n ∈ (cs.map rank).reverse, n < base := by
    intro n hn
    obtain ⟨c, hc, rfl⟩ := List.mem_map.mp (List.mem_reverse.mp hn)
    exact h c hc
  have hlt := Nat.ofDigits_lt_base_pow_length hbase hranks
  rwa [List.length_reverse, List.length_map] at hlt

theorem spelled_singleton : spelled base [c] = rank c := Nat.ofDigits_singleton

/-- Digits beyond the point are read like the others, and divided. -/
theorem positional_eq (hbase : base ≠ 0) : positional base cs ds =
    (spelled base (cs ++ ds) : Rat) / (base : Rat) ^ ds.length := by
  have hpow : (base : Rat) ^ ds.length ≠ 0 := pow_ne_zero _ (Nat.cast_ne_zero.mpr hbase)
  rw [positional, spelled_append, Nat.cast_add, Nat.cast_mul, Nat.cast_pow]
  field_simp

-- =============================================================== decoded

/-- Both readings of a character, as far as literals go. -/
theorem digitValue_ascii : ∀ n < 128,
    (digitValue (Char.ofNat n)).filter (· < 16) =
      if rank (Char.ofNat n) < 16 then some (rank (Char.ofNat n)) else none := by
  decide +kernel

/-- There are no digits beyond. -/
theorem digitValue_beyond (hc : 128 ≤ c.toNat) : digitValue c = none := by
  have hle {x : Char} (hx : x.toNat < 128) : decide (c ≤ x) = false := by
    rw [decide_eq_false_iff_not]
    intro hle
    have hnat : c.toNat ≤ x.toNat := hle
    omega
  rw [digitValue, hle (by decide), hle (by decide), hle (by decide)]
  simp

theorem rank_beyond (hc : 128 ≤ c.toNat) : rank c = 16 := by
  have hself : c.toLower = c := by
    unfold Char.toLower
    apply dif_neg
    rintro ⟨-, hle⟩
    have hnat : c.toNat ≤ 'Z'.toNat := hle
    have hlast : 'Z'.toNat = 90 := rfl
    omega
  have hnone : c ∉ numerals := by
    intro hmem
    have hsmall : ∀ x ∈ numerals, x.toNat < 128 := List.all_iff_forall_prop.mp (by decide)
    have hlt := hsmall c hmem
    omega
  rw [rank, hself]
  exact List.idxOf_eq_length hnone

/-- The decoder and the row agree on what is a digit, and of what value. -/
theorem digit_eq (hbase : base ≤ 16) (c : Char) :
    digit base c = if rank c < base then some (rank c) else none := by
  have hsixteen : (digitValue c).filter (decide <| · < 16) =
      if rank c < 16 then some (rank c) else none := by
    by_cases hc : c.toNat < 128
    · have hascii := digitValue_ascii c.toNat hc
      rwa [Char.ofNat_toNat] at hascii
    · rw [digitValue_beyond (by omega), rank_beyond (by omega)]
      rfl
  have hfilter : digit base c =
      ((digitValue c).filter (decide <| · < 16)).filter (decide <| · < base) := by
    rw [Option.filter_filter, digit]
    congr 1
    funext n
    grind
  rw [hfilter, hsixteen]
  by_cases hrank : rank c < 16
  · rw [if_pos hrank, Option.filter_some]
    simp only [decide_eq_true_eq]
  · rw [if_neg hrank, if_neg (by omega)]
    rfl

theorem isDigit_iff (hbase : base ≤ 16) : isDigit base c = true ↔ rank c < base := by
  rw [isDigit, digit_eq hbase]
  by_cases hc : rank c < base <;> simp [hc]

/-- Reading goes on from what has been read. -/
theorem foldlM_digit (hbase : base ≤ 16) {v n : Nat} :
    cs.foldlM (fun v c => (digit base c).map (v * base + ·)) v = some n ↔
      InBase base cs ∧ n = v * base ^ cs.length + spelled base cs := by
  induction cs generalizing v with
  | nil => simp [inBase_nil, eq_comm]
  | cons c cs ih =>
    rw [List.foldlM_cons, digit_eq hbase, inBase_cons]
    by_cases hc : rank c < base
    · have hcons : v * base ^ (c :: cs).length + spelled base (c :: cs) =
          (v * base + rank c) * base ^ cs.length + spelled base cs := by
        rw [← List.singleton_append, spelled_append, spelled_singleton, List.length_append,
          List.length_singleton]
        ring
      rw [if_pos hc, Option.map_some, Option.bind_eq_bind, Option.bind_some, ih, hcons,
        and_iff_right hc]
    · rw [if_neg hc]
      simp [hc]

theorem digits_eq_some (hbase : base ≤ 16) {n : Nat} :
    digits base cs = some n ↔ InBase base cs ∧ n = spelled base cs := by
  rw [digits, foldlM_digit hbase, Nat.zero_mul, Nat.zero_add]

theorem number_eq_some (hbase : base ≤ 16) {n : Nat} :
    number base cs = some n ↔ Numeral base cs ∧ n = spelled base cs := by
  rw [number, Numeral, and_assoc, ← digits_eq_some hbase]
  cases cs with
  | nil => simp
  | cons c cs => simp

/-- A sign that is not there makes no difference. -/
theorem signedUp_eq (h : cs.head? ≠ some '+') : signedUp base cs = number base cs := by
  unfold signedUp
  split
  · exact absurd rfl h
  · rfl

/-- A digit is no sign. -/
theorem InBase.head?_ne (h : InBase base cs) (hbase : base ≤ 16) (hc : rank c = 16) :
    cs.head? ≠ some c := by
  intro hhead
  have hrank := h c (List.mem_of_head? hhead)
  omega

/-- A number with a sign is the number without it. -/
theorem signedUp_eq_some (hbase : base ≤ 16) {n : Nat} : signedUp base cs = some n ↔
    (Numeral base cs ∧ n = spelled base cs) ∨
      ∃ ds, cs = '+' :: ds ∧ Numeral base ds ∧ n = spelled base ds := by
  by_cases hsign : ∃ ds, cs = '+' :: ds
  · obtain ⟨ds, rfl⟩ := hsign
    have hno : ¬Numeral base ('+' :: ds) := fun h => h.2.head?_ne hbase (by decide) rfl
    have hnumber : signedUp base ('+' :: ds) = number base ds := rfl
    rw [hnumber, number_eq_some hbase]
    simp [hno]
  · have hhead : cs.head? ≠ some '+' := fun h => hsign (List.head?_eq_some_iff.mp h)
    rw [signedUp_eq hhead, number_eq_some hbase, or_iff_left]
    rintro ⟨ds, rfl, -⟩
    exact hsign ⟨ds, rfl⟩

end GoSource.Literal
