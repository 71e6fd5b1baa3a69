/-
Slices of a source, by bytes.

Between two places of a walk over a text, what was walked over is the slice
of the source between their offsets (`extract_ofPart`), and a byte of the
slice is a byte of one of its characters. Of these the ASCII characters are
told by a single byte (`eq_of_byte`).
-/
import GoSource.Location
import Mathlib.Data.List.Basic
import Mathlib.Data.String.Basic

namespace GoSource

-- ================================================================ bytes

/-- How many bytes characters take. -/
def byteSize : List Char → Nat
  | [] => 0
  | c :: cs => c.utf8Size + byteSize cs

section

variable {c : Char} {cs ds : List Char}

@[simp] theorem byteSize_nil : byteSize [] = 0 := rfl

@[simp] theorem byteSize_cons : byteSize (c :: cs) = c.utf8Size + byteSize cs := rfl

@[simp] theorem byteSize_append : byteSize (cs ++ ds) = byteSize cs + byteSize ds := by
  induction cs with
  | nil => exact (Nat.zero_add _).symm
  | cons c cs ih => rw [List.cons_append, byteSize_cons, byteSize_cons, ih, Nat.add_assoc]

theorem length_encoded : (cs.flatMap String.utf8EncodeChar).length = byteSize cs := by
  induction cs with
  | nil => rfl
  | cons c cs ih =>
    rw [List.flatMap_cons, List.length_append, String.length_utf8EncodeChar, ih, byteSize_cons]

theorem size_utf8Encode : cs.utf8Encode.size = byteSize cs := by
  rw [List.utf8Encode, List.size_toByteArray, length_encoded]

theorem byteSize_pos (hne : cs ≠ []) : 0 < byteSize cs := by
  cases cs with
  | nil => exact absurd rfl hne
  | cons c cs =>
    rw [byteSize_cons]
    exact Nat.lt_of_lt_of_le c.utf8Size_pos (Nat.le_add_right _ _)

theorem byteSize_toList (source : String) : byteSize source.toList = source.utf8ByteSize := by
  rw [← size_utf8Encode, String.utf8Encode_toList]
  rfl

theorem byteSize_le_of_prefix (h : cs <+: ds) : byteSize cs ≤ byteSize ds := by
  obtain ⟨es, rfl⟩ := h
  rw [byteSize_append]
  exact Nat.le_add_right _ _

/-- Only an ASCII character has its byte. -/
theorem eq_of_byte {d : Char} (hd : d.toNat < 128)
    (h : UInt8.ofNat d.toNat ∈ String.utf8EncodeChar c) : c = d := by
  unfold String.utf8EncodeChar at h
  dsimp only at h
  by_cases hascii : c.val.toNat ≤ 127
  · rw [if_pos hascii, List.mem_singleton] at h
    have hval := congrArg UInt8.toNat h
    rw [UInt8.toNat_ofNat', UInt8.toNat_ofNat', Nat.mod_eq_of_lt (by omega),
      Nat.mod_eq_of_lt (by omega)] at hval
    exact Char.ext (UInt32.toNat_inj.mp hval.symm)
  · -- The bytes of all other characters have their highest bit set.
    have hhigh {n : Nat} (hn : n < 256) (hle : 128 ≤ n) : UInt8.ofNat d.toNat ≠ UInt8.ofNat n := by
      intro heq
      have hval := congrArg UInt8.toNat heq
      rw [UInt8.toNat_ofNat', UInt8.toNat_ofNat', Nat.mod_eq_of_lt hn,
        Nat.mod_eq_of_lt (by omega)] at hval
      omega
    have hmore (n : Nat) : UInt8.ofNat d.toNat ≠ UInt8.ofNat (n % 64 + 128) :=
      hhigh (by omega) (by omega)
    exfalso
    rw [if_neg hascii] at h
    split at h
    · have hfirst := (List.mem_pair.mp h).resolve_right (hmore _)
      exact hhigh (by omega) (by omega) hfirst
    · split at h
      · simp only [List.mem_cons, List.not_mem_nil, hmore, or_false] at h
        exact hhigh (by omega) (by omega) h
      · simp only [List.mem_cons, List.not_mem_nil, hmore, or_false] at h
        exact hhigh (by omega) (by omega) h

/-- Only a newline has the byte of a newline. -/
theorem eq_newline_of_byte (h : 0x0A ∈ String.utf8EncodeChar c) : c = '\n' :=
  @eq_of_byte c '\n' (by decide) h

end

-- =============================================================== slices

/-- The bytes from an offset up to, not including, another. -/
structure ByteRange where
  start : Nat
  stop : Nat
deriving DecidableEq

namespace ByteRange

def Holds (r : ByteRange) (i : Nat) : Prop := r.start ≤ i ∧ i < r.stop

def Precedes (a b : ByteRange) : Prop := a.stop ≤ b.start

/-- The text of a range is not empty, and it is what the source holds
there. -/
structure Reads (source : String) (r : ByteRange) (text : String) : Prop where
  nonempty : r.start < r.stop
  inside : r.stop ≤ source.utf8ByteSize
  text : text.toByteArray = source.toByteArray.extract r.start r.stop

/-- Where a part of a text is. -/
def ofPart (before text : List Char) : ByteRange :=
  ⟨byteSize before, byteSize (before ++ text)⟩

variable {source : String} {before text after : List Char}

/-- The bytes of a part of a text, as a slice. -/
theorem extract_ofPart (hsource : source.toList = before ++ text ++ after) :
    source.toByteArray.extract (ofPart before text).start (ofPart before text).stop =
      text.utf8Encode := by
  have hbytes : source.toByteArray =
      before.utf8Encode ++ text.utf8Encode ++ after.utf8Encode := by
    rw [← String.utf8Encode_toList, hsource, List.utf8Encode_append, List.utf8Encode_append]
  have hstart : byteSize before = before.utf8Encode.size := size_utf8Encode.symm
  have hstop : byteSize (before ++ text) = (before.utf8Encode ++ text.utf8Encode).size := by
    rw [← size_utf8Encode, List.utf8Encode_append]
  have hafter : after.utf8Encode.extract
      (byteSize before - (before.utf8Encode ++ text.utf8Encode).size)
      (byteSize (before ++ text) - (before.utf8Encode ++ text.utf8Encode).size) = .empty := by
    rw [ByteArray.extract_eq_empty_iff, hstop, Nat.sub_self, Nat.zero_min]
    exact Nat.zero_le _
  rw [hbytes, ofPart, ByteArray.extract_append, hafter, ByteArray.append_empty,
    ByteArray.extract_append_eq_right hstart]
  rw [hstop, ByteArray.size_append]

theorem reads_ofPart (hsource : source.toList = before ++ text ++ after) (hne : text ≠ []) :
    (ofPart before text).Reads source (.ofList text) := by
  have hpos := byteSize_pos hne
  constructor
  · show byteSize before < byteSize (before ++ text)
    rw [byteSize_append]
    omega
  · rw [← byteSize_toList, hsource, byteSize_append]
    exact Nat.le_add_right _ _
  · rw [String.toByteArray_ofList, extract_ofPart hsource]

/-- A byte of a part is a byte of one of its characters. -/
theorem byte_mem_ofPart {i : Nat} (hsource : source.toList = before ++ text ++ after)
    (hi : (ofPart before text).Holds i) (h : i < source.toByteArray.size) :
    source.toByteArray[i] ∈ text.flatMap String.utf8EncodeChar := by
  obtain ⟨hstart, hstop⟩ := hi
  have hslice := extract_ofPart hsource
  have hinside : i - (ofPart before text).start < (source.toByteArray.extract
      (ofPart before text).start (ofPart before text).stop).size := by
    rw [ByteArray.size_extract]
    omega
  have hbyte := ByteArray.getElem_extract hinside
  have hindex : (ofPart before text).start + (i - (ofPart before text).start) = i := by omega
  simp only [hindex, hslice] at hbyte
  rw [← hbyte]
  simp only [List.utf8Encode, List.getElem_toByteArray, List.getElem_mem]

end ByteRange

end GoSource
