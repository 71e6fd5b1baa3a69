/-
Bytes that may or may not be UTF-8.

A string literal denotes bytes, and its escapes can build any sequence of
them. Where such bytes must be shown as text, `lossyText` decodes them
and puts U+FFFD for what is not UTF-8: one for each longest stretch that
begins a character and is then broken off, one for each byte that begins
none. Bytes that are UTF-8 come out as the text they encode.
-/

namespace GoSource.Text

/-- The UTF-8 encoding of a text. -/
def utf8Bytes (cs : List Char) : List UInt8 :=
  cs.flatMap String.utf8EncodeChar

/-- What follows the first byte of a character of more than one byte:
the number of continuation bytes, and the least and the greatest value
of the first of them. Overlong forms, surrogates and numbers past the
last code point are excluded by these two bounds alone. -/
def continuation (b : UInt8) : Option (Nat × UInt8 × UInt8) :=
  if 0xC2 ≤ b && b ≤ 0xDF then some (1, 0x80, 0xBF)
  else if b = 0xE0 then some (2, 0xA0, 0xBF)
  else if b = 0xED then some (2, 0x80, 0x9F)
  else if 0xE1 ≤ b && b ≤ 0xEF then some (2, 0x80, 0xBF)
  else if b = 0xF0 then some (3, 0x90, 0xBF)
  else if 0xF1 ≤ b && b ≤ 0xF3 then some (3, 0x80, 0xBF)
  else if b = 0xF4 then some (3, 0x80, 0x8F)
  else none

/-- The bytes that continue a character, at most `count` of them. The
bounds hold for the first; all later ones lie in `80` to `BF`. -/
def continuing : Nat → UInt8 → UInt8 → List UInt8 → List UInt8
  | count + 1, low, high, b :: rest =>
    if low ≤ b && b ≤ high then b :: continuing count 0x80 0xBF rest else []
  | _, _, _, _ => []

/-- The character that stands for what is not UTF-8. -/
def replacement : Char := '\ufffd'

/-- The code point of a first byte with `n` continuation bytes: their
payloads are six bits each, the first byte gives the bits above. -/
def assemble (first : UInt8) (rest : List UInt8) : Char :=
  .ofNat (rest.foldl (fun v b => v * 64 + b.toNat % 64) (first.toNat % Nat.pow 2 (6 - rest.length)))

/-- The character at the start of some bytes, and how many bytes after
the first belong to it. -/
def leadingChar (first : UInt8) (rest : List UInt8) : Char × Nat :=
  if first < 0x80 then (.ofNat first.toNat, 0)
  else match continuation first with
    | none => (replacement, 0)
    | some (count, low, high) =>
      let found := continuing count low high rest
      (if found.length = count then assemble first found else replacement, found.length)

/-- Decodes after passing over `skip` bytes. -/
def lossyChars : (skip : Nat) → List UInt8 → List Char
  | _, [] => []
  | skip + 1, _ :: rest => lossyChars skip rest
  | 0, b :: rest =>
    let (c, used) := leadingChar b rest
    c :: lossyChars used rest

/-- The text of some bytes, with U+FFFD for what is not UTF-8. -/
def lossyText (bytes : List UInt8) : String :=
  .ofList (lossyChars 0 bytes)

/-- The text of some bytes if they are UTF-8. -/
def exactText (bytes : List UInt8) : Option String :=
  let cs := lossyChars 0 bytes
  if utf8Bytes cs = bytes then some (.ofList cs) else none

end GoSource.Text
