/-
Lines and columns of byte offsets.

The index of a source has a location for every byte offset, also for one
inside of a character or past the end. It is built from characters, while
offsets count bytes. But only a newline has the byte of a newline, so lines
start where the bytes say (`starts_ofText`), and what an index answers can be
told from the bytes before the offset (`location_eq`): the newlines among
them are counted for the line, and what follows the last newline for the
column.

A walk over a text is counted in the same way (`pastAll_first`). So where it
arrives is the location that the index has for the bytes walked over
(`location_pastAll`), as long as the fields of a location are wide enough.

The line start and the column give the offset back, and of two offsets the
smaller one has the smaller location. So locations can be compared in place
of offsets, and spans in place of ranges of bytes (`location_exact`).
-/
import GoSource.Proofs.Lexing.Slice
import Mathlib.Data.List.DropRight

namespace GoSource

/-- A location within a span. -/
def Span.Holds (s : Span) (l : Location) : Prop := s.start ≤ l ∧ l < s.stop

instance (s : Span) (l : Location) : Decidable (s.Holds l) := inferInstanceAs (Decidable (_ ∧ _))

namespace LineIndex

-- ================================================================ bytes

def newline : UInt8 := 0x0A

/-- The bytes of a source. -/
def bytesOf (source : String) : List UInt8 := source.toByteArray.data.toList

/-- Where the last line of some bytes starts: behind the last newline, if
there is one. -/
def lineStart (before : List UInt8) : Nat := (before.rdropWhile (· ≠ newline)).length

/-- The offsets just after each newline of some bytes. -/
def startsOf : Nat → List UInt8 → List Nat
  | _, [] => []
  | offset, b :: bs =>
    if b = newline then (offset + 1) :: startsOf (offset + 1) bs else startsOf (offset + 1) bs

variable {source : String} {as bs : List UInt8} {offset n : Nat}

theorem bytesOf_eq (source : String) :
    bytesOf source = source.toList.flatMap String.utf8EncodeChar := by
  rw [bytesOf, ← String.utf8Encode_toList, List.utf8Encode, List.data_toByteArray]

theorem startsOf_append :
    startsOf offset (as ++ bs) = startsOf offset as ++ startsOf (offset + as.length) bs := by
  induction as generalizing offset with
  | nil => rfl
  | cons a as ih =>
    rw [List.cons_append, startsOf, startsOf, ih, List.length_cons, Nat.add_right_comm,
      Nat.add_assoc]
    split
    · rfl
    · rfl

theorem length_startsOf : (startsOf offset bs).length = bs.count newline := by
  induction bs generalizing offset with
  | nil => rfl
  | cons b bs ih =>
    rw [startsOf, List.count_cons]
    by_cases hb : b = newline
    · rw [if_pos hb, if_pos (beq_iff_eq.mpr hb), List.length_cons, ih]
    · rw [if_neg hb, if_neg (by simpa using hb), ih, Nat.add_zero]

theorem startsOf_eq_nil (h : newline ∉ bs) : startsOf offset bs = [] := by
  rw [← List.length_eq_zero_iff, length_startsOf, List.count_eq_zero.mpr h]

theorem startsOf_bounds (h : n ∈ startsOf offset bs) : offset < n ∧ n ≤ offset + bs.length := by
  induction bs generalizing offset with
  | nil => exact nomatch h
  | cons b bs ih =>
    have hrest : n ∈ startsOf (offset + 1) bs → offset < n ∧ n ≤ offset + (b :: bs).length := by
      intro hn
      have hbounds := ih hn
      rw [List.length_cons]
      omega
    rw [startsOf] at h
    split at h
    · rcases List.mem_cons.mp h with rfl | hn
      · rw [List.length_cons]
        omega
      · exact hrest hn
    · exact hrest h

/-- Characters and their bytes start the same lines. -/
theorem startsAfter_eq (cs : List Char) :
    startsAfter offset cs = startsOf offset (cs.flatMap String.utf8EncodeChar) := by
  induction cs generalizing offset with
  | nil => rfl
  | cons c cs ih =>
    rw [List.flatMap_cons, startsOf_append, String.length_utf8EncodeChar, startsAfter]
    by_cases hc : c = '\n'
    · subst hc
      rw [if_pos rfl, ih]
      rfl
    · have hnone : newline ∉ String.utf8EncodeChar c := fun h => hc (eq_newline_of_byte h)
      rw [if_neg hc, ih, startsOf_eq_nil hnone, List.nil_append]

theorem starts_ofText (source : String) :
    (ofText source).starts = 0 :: startsOf 0 (bytesOf source) := by
  rw [ofText, startsAfter_eq, bytesOf_eq]

-- ============================================================ last lines

theorem lineStart_newline (bs : List UInt8) : lineStart (bs ++ [newline]) = bs.length + 1 := by
  rw [lineStart, List.rdropWhile_concat_neg _ _ _ (by simp), List.length_append]
  rfl

/-- The last line to start is the one behind the last newline. -/
theorem getLast?_startsOf (bs : List UInt8) :
    (0 :: startsOf 0 bs).getLast? = some (lineStart bs) := by
  induction bs using List.reverseRecOn with
  | nil => rfl
  | append_singleton bs b ih =>
    rw [startsOf_append]
    by_cases hb : b = newline
    · subst hb
      rw [lineStart_newline, startsOf, if_pos rfl, ← List.cons_append, startsOf,
        List.getLast?_concat, Nat.zero_add]
    · rw [lineStart, List.rdropWhile_concat_pos _ _ _ (by simpa using hb), startsOf, if_neg hb,
        startsOf, List.append_nil, ih, lineStart]

theorem lineStart_le (bs : List UInt8) : lineStart bs ≤ bs.length :=
  (List.rdropWhile_prefix _ _).length_le

/-- Bytes without a newline start no line. -/
theorem lineStart_append (h : newline ∉ bs) : lineStart (as ++ bs) = lineStart as := by
  have hlast := getLast?_startsOf (as ++ bs)
  rw [startsOf_append, startsOf_eq_nil h, List.append_nil, getLast?_startsOf] at hlast
  exact (Option.some_inj.mp hlast).symm

theorem startsOf_split (bs : List UInt8) (offset : Nat) :
    startsOf 0 bs = startsOf 0 (bs.take offset) ++
      startsOf (0 + (bs.take offset).length) (bs.drop offset) := by
  rw [← startsOf_append, List.take_append_drop]

/-- The lines that start up to an offset are those behind the newlines before
it. -/
theorem takeWhile_startsOf (bs : List UInt8) (offset : Nat) :
    (0 :: startsOf 0 bs).takeWhile (decide <| · ≤ offset) = 0 :: startsOf 0 (bs.take offset) := by
  have hbefore : ∀ n ∈ 0 :: startsOf 0 (bs.take offset), decide (n ≤ offset) = true := by
    intro n hn
    rw [decide_eq_true_eq]
    rcases List.mem_cons.mp hn with rfl | hn
    · exact Nat.zero_le _
    · have hle := (startsOf_bounds hn).2
      rw [List.length_take] at hle
      omega
  have hafter : (startsOf (0 + (bs.take offset).length) (bs.drop offset)).takeWhile
      (decide <| · ≤ offset) = [] := by
    cases hstarts : startsOf (0 + (bs.take offset).length) (bs.drop offset) with
    | nil => rfl
    | cons n ns =>
      have hbounds := startsOf_bounds (n := n) (hstarts ▸ List.mem_cons_self)
      rw [List.length_take, List.length_drop] at hbounds
      exact List.takeWhile_cons_of_neg (by rw [decide_eq_true_eq]; omega)
  rw [startsOf_split bs offset, ← List.cons_append, List.takeWhile_append_of_pos hbefore, hafter,
    List.append_nil]

-- ============================================================= locations

theorem location_eq (source : String) (offset : Nat) :
    (ofText source).location offset =
      ⟨(1 + ((bytesOf source).take offset).count newline) % fieldWidth,
        (offset - lineStart ((bytesOf source).take offset) + 1) % fieldWidth⟩ := by
  rw [location, starts_ofText, takeWhile_startsOf, getLast?_startsOf, List.length_cons,
    length_startsOf, Option.getD_some, Nat.add_comm 1]

/-- A walk over a text, by its bytes. -/
theorem pastAll_first (cs : List Char) : Location.first.pastAll cs =
    ⟨1 + (cs.flatMap String.utf8EncodeChar).count newline,
      byteSize cs - lineStart (cs.flatMap String.utf8EncodeChar) + 1⟩ := by
  induction cs using List.reverseRecOn with
  | nil => rfl
  | append_singleton cs c ih =>
    rw [Location.pastAll_append, ih, Location.pastAll_cons, Location.pastAll_nil, Location.past,
      List.flatMap_append, List.flatMap_singleton, List.count_append, byteSize_append]
    by_cases hc : c = '\n'
    · have hbytes : String.utf8EncodeChar c = [newline] := by
        rw [hc]
        rfl
      have hone : byteSize [c] = 1 := by
        rw [hc]
        rfl
      rw [if_pos hc, hbytes, lineStart_newline, length_encoded, hone, Nat.sub_self]
      rfl
    · have hnone : newline ∉ String.utf8EncodeChar c := fun h => hc (eq_newline_of_byte h)
      have hle : lineStart (cs.flatMap String.utf8EncodeChar) ≤ byteSize cs :=
        Nat.le_trans (lineStart_le _) length_encoded.le
      rw [if_neg hc, lineStart_append hnone, List.count_eq_zero.mpr hnone, byteSize_cons,
        byteSize_nil, Nat.sub_add_comm hle, Nat.add_right_comm]
      rfl

/-- The index has the location at which a walk arrives. -/
theorem location_pastAll {before after : List Char} (hsource : source.toList = before ++ after)
    (hsize : source.utf8ByteSize + 1 < fieldWidth) :
    (ofText source).location (byteSize before) = Location.first.pastAll before := by
  have hbefore : byteSize before ≤ source.utf8ByteSize := by
    rw [← byteSize_toList, hsource, byteSize_append]
    exact Nat.le_add_right _ _
  have htake : (bytesOf source).take (byteSize before) =
      before.flatMap String.utf8EncodeChar := by
    rw [bytesOf_eq, hsource, List.flatMap_append, List.take_left' length_encoded]
  have hlines : (before.flatMap String.utf8EncodeChar).count newline ≤ byteSize before :=
    Nat.le_trans List.count_le_length length_encoded.le
  rw [location_eq, htake, pastAll_first, Nat.mod_eq_of_lt (by omega), Nat.mod_eq_of_lt (by omega)]

/-- The location of an offset, as the bytes of the source have it: the line
counts the newlines before the offset, the column goes on from the last of
them. The start of the line is one that the index holds, and gives the offset
back together with the column. -/
structure Locates (source : String) (offset : Nat) (l : Location) : Prop where
  line : l.line = 1 + ((bytesOf source).take offset).count newline
  column : l.column = 1 + (offset - lineStart ((bytesOf source).take offset))
  start : (ofText source).starts[l.line - 1]? = some (lineStart ((bytesOf source).take offset))
  offset : lineStart ((bytesOf source).take offset) + l.column - 1 = offset

theorem locates_location (h : offset + 1 < fieldWidth) :
    Locates source offset ((ofText source).location offset) := by
  have hlength : ((bytesOf source).take offset).length ≤ offset := List.length_take_le _ _
  have hlines : ((bytesOf source).take offset).count newline ≤ offset :=
    Nat.le_trans List.count_le_length hlength
  have hstart : lineStart ((bytesOf source).take offset) ≤ offset :=
    Nat.le_trans (lineStart_le _) hlength
  rw [location_eq, Nat.mod_eq_of_lt (by omega), Nat.mod_eq_of_lt (by omega)]
  refine ⟨rfl, Nat.add_comm _ _, ?_, ?_⟩
  · have hlast := getLast?_startsOf ((bytesOf source).take offset)
    rw [List.getLast?_eq_getElem?, List.length_cons, length_startsOf, Nat.add_comm] at hlast
    rw [starts_ofText, startsOf_split _ offset, ← List.cons_append,
      List.getElem?_append_left (List.getElem?_eq_some_iff.mp hlast).1]
    exact hlast
  · dsimp only
    omega

-- ================================================================ order

/-- If there is a newline between two offsets, the lines are apart, and else
the columns are. -/
theorem location_lt {o₁ o₂ : Nat} (h : o₁ < o₂) (hwidth : o₂ + 1 < fieldWidth) :
    (ofText source).location o₁ < (ofText source).location o₂ := by
  have hfirst := @locates_location source o₁ (by omega)
  have hsecond := @locates_location source o₂ hwidth
  have hle : lineStart ((bytesOf source).take o₁) ≤ o₁ :=
    Nat.le_trans (lineStart_le _) (List.length_take_le _ _)
  obtain ⟨between, hbetween⟩ : (bytesOf source).take o₁ <+: (bytesOf source).take o₂ :=
    List.take_prefix_take_left (Nat.le_of_lt h)
  have hcount : ((bytesOf source).take o₂).count newline =
      ((bytesOf source).take o₁).count newline + between.count newline := by
    rw [← hbetween, List.count_append]
  rw [Location.lt_def, hfirst.line, hsecond.line, hcount]
  by_cases hnewline : newline ∈ between
  · have hpos := List.count_pos_iff.mpr hnewline
    exact .inl (by omega)
  · refine .inr ⟨by rw [List.count_eq_zero.mpr hnewline, Nat.add_zero], ?_⟩
    rw [hfirst.column, hsecond.column, ← hbetween, lineStart_append hnewline]
    omega

theorem location_lt_iff {o₁ o₂ : Nat} (h₁ : o₁ + 1 < fieldWidth) (h₂ : o₂ + 1 < fieldWidth) :
    (ofText source).location o₁ < (ofText source).location o₂ ↔ o₁ < o₂ := by
  refine ⟨fun hlt => ?_, fun h => location_lt h h₂⟩
  by_contra hnot
  rcases Nat.lt_or_eq_of_le (Nat.not_lt.mp hnot) with h | rfl
  · have hgt := @location_lt source _ _ h h₁
    rw [Location.lt_def] at hlt hgt
    omega
  · rw [Location.lt_def] at hlt
    omega

theorem location_le {o₁ o₂ : Nat} (h : o₁ ≤ o₂) (hwidth : o₂ + 1 < fieldWidth) :
    (ofText source).location o₁ ≤ (ofText source).location o₂ := by
  rcases Nat.lt_or_eq_of_le h with h | rfl
  · have hlt := @location_lt source _ _ h hwidth
    rw [Location.lt_def] at hlt
    rw [Location.le_def]
    omega
  · exact .inr ⟨rfl, Nat.le_refl _⟩

/-- Up to the width of the fields, the location of an offset is what the
bytes before it say, and gives the offset back. Locations are in the order of
their offsets. So the spans of two ranges of bytes, one behind the other, are
one behind the other, and no location is in both. -/
theorem location_exact (source : String) :
    (∀ offset, offset + 1 < fieldWidth →
        Locates source offset ((ofText source).location offset)) ∧
      (∀ o₁ o₂, o₁ + 1 < fieldWidth → o₂ + 1 < fieldWidth →
        ((ofText source).location o₁ < (ofText source).location o₂ ↔ o₁ < o₂)) ∧
      ∀ a b c d, a ≤ b → b ≤ c → c ≤ d → d + 1 < fieldWidth →
        ((ofText source).span a b).start ≤ ((ofText source).span a b).stop ∧
          ((ofText source).span a b).stop ≤ ((ofText source).span c d).start ∧
          ((ofText source).span c d).start ≤ ((ofText source).span c d).stop ∧
          ∀ l, ((ofText source).span a b).Holds l → ¬((ofText source).span c d).Holds l := by
  refine ⟨fun _ => locates_location, fun _ _ => location_lt_iff, fun a b c d hab hbc hcd hd => ?_⟩
  have hapart := @location_le source _ _ hbc (by omega)
  refine ⟨location_le hab (by omega), hapart, location_le hcd hd, ?_⟩
  rintro l ⟨-, hstop⟩ ⟨hstart, -⟩
  simp only [span, Location.lt_def, Location.le_def] at hapart hstop hstart
  omega

/-- A newline, an offset inside of a character, and one past the end. -/
theorem location_exact_umlaut :
    Locates "a\né" 1 ((ofText "a\né").location 1) ∧ Locates "a\né" 3 ((ofText "a\né").location 3) ∧
      (ofText "a\né").location 3 < (ofText "a\né").location 9 ∧
      ¬((ofText "a\né").span 2 9).Holds ⟨1, 2⟩ := by
  obtain ⟨hexact, horder, hspans⟩ := location_exact "a\né"
  refine ⟨hexact 1 (by decide), hexact 3 (by decide),
    (horder 3 9 (by decide) (by decide)).mpr (by decide), ?_⟩
  refine (hspans 0 2 2 9 (by decide) (by decide) (by decide) (by decide)).2.2.2 ⟨1, 2⟩ ?_
  decide +kernel

end LineIndex

end GoSource
