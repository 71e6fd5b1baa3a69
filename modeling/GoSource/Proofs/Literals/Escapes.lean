/-
What the decoder takes for an escape.

A literal need not come from the lexer: a list of tokens may be handed over,
and nobody has measured the escapes in it. The decoder takes such a text
apart by itself (`Decoded`), and what it takes for an escape the lexer would
have taken for one of the same length, but for one thing. The decoder reads
the digits of an escape as a number, and a number may begin with a plus sign
(`IsSigned`).

Conversely the decoder refuses what the lexer accepts only for the sake of
the number: it is no byte, or that of no character (`Exceeds`).
-/
import GoSource.Proofs.Literals.Quoted

namespace GoSource.Literal

-- ================================================================= signs

/-- An escape with a sign where the first digit should be. In an octal
escape there is no room for one, since it is the digit that announces the
escape. -/
def IsSigned (e : List Char) : Prop :=
  ∃ (form : NumericEscape) (ds : List Char), form ≠ .octal ∧ ds.length + 1 = form.digitCount ∧
    InBase form.base ds ∧ e = (Item.numeric form ('+' :: ds)).text

/-- A number that the form has no room for. -/
def NumericEscape.Exceeds : NumericEscape → Nat → Prop
  | octal, n => 255 < n
  | byte, _ => False
  | short, n | long, n => ¬Item.IsScalar n

variable {quote c : Char} {cs ds e body more : List Char} {form : NumericEscape} {i : Item}
  {v : EscapeValue} {n : Nat} {parts : List (List Char × EscapeValue)}

/-- A sign announces nothing. -/
theorem NumericEscape.ne_octal (hleader : ofLeader c = some form)
    (hsign : form.body ('\\' :: c :: cs) = '+' :: ds) : form ≠ .octal := by
  rintro rfl
  have hc : c = '+' := (List.cons.inj hsign).1
  rw [hc] at hleader
  exact absurd hleader (by decide)

section

variable (hquote : quote = '\x22' ∨ quote = '\x27')

include hquote

/-- What has a meaning is a well-formed escape, or has a sign. -/
theorem exists_of_meaning (h : escapeMeaning quote ('\\' :: cs) = some (v, n)) :
    ∃ e more, cs = e ++ more ∧ n = ('\\' :: e).length ∧
      ((∃ i : Item, i.IsValid quote ∧ i.text = '\\' :: e) ∨ IsSigned ('\\' :: e)) := by
  cases cs with
  | nil => exact nomatch h
  | cons c cs =>
    by_cases hletter : c = quote ∨ c ∈ escapeLetters.map Prod.fst
    · have hmeaning : escapeMeaning quote ('\\' :: c :: cs) =
          (Item.lettered c).value.map (·, 2) :=
        Item.escapeMeaning_item hquote (i := .lettered c) hletter rfl cs
      rw [h] at hmeaning
      have hn : n = 2 := (Prod.mk.inj (Option.some.inj hmeaning)).2
      exact ⟨[c], cs, rfl, hn, .inl ⟨.lettered c, hletter, rfl⟩⟩
    · obtain ⟨hc, hsimple⟩ := not_or.mp hletter
      rw [← simpleEscape_isSome, Option.not_isSome_iff_eq_none] at hsimple
      cases hleader : NumericEscape.ofLeader c with
      | none => simp [escapeMeaning, hsimple, hc, hleader] at h
      | some form =>
        rw [escapeMeaning_numeric hleader hsimple hc] at h
        obtain ⟨more, htext⟩ := @NumericEscape.exists_text c cs form hleader
        split at h
        case isFalse => cases h
        case isTrue hlength =>
          obtain ⟨m, hm, hmeaning⟩ := Option.bind_eq_some_iff.mp h
          obtain ⟨w, -, hw⟩ := Option.map_eq_some_iff.mp hmeaning
          have hn : n = form.length := (Prod.mk.inj hw).2.symm
          rw [NumericEscape.length_eq hlength] at hn
          refine ⟨_, more, (List.cons.inj htext).2, hn, ?_⟩
          rcases (signedUp_eq_some form.base_le).mp hm with ⟨hds, -⟩ | ⟨ds, hsign, hds, -⟩
          · exact .inl ⟨.numeric form _, ⟨hlength, hds.2⟩, rfl⟩
          · have hform := NumericEscape.ne_octal hleader hsign
            rw [hsign] at hlength ⊢
            exact .inr ⟨form, ds, hform, hlength, hds.2, rfl⟩

end

/-- The lexer wants digits and nothing else. -/
theorem IsSigned.escapeLength_eq (h : IsSigned e) (hquote : quote = '\x22' ∨ quote = '\x27')
    (more : List Char) : escapeLength quote (e ++ more) = none := by
  obtain ⟨form, ds, hform, hlength, -, rfl⟩ := h
  obtain ⟨d, hletter, hleader, hsimple, hmem⟩ := NumericEscape.exists_letter hform
  have hd : d ≠ quote := by
    rintro rfl
    exact hmem (by rcases hquote with rfl | rfl <;> decide)
  have htext : (Item.numeric form ('+' :: ds)).text = '\\' :: d :: '+' :: ds := by
    rw [Item.text, hletter, List.singleton_append]
  have hbody := @NumericEscape.body_text ('+' :: ds) form hlength more
  have hsign : isDigit form.base '+' = false := by cases form <;> decide
  rw [htext, List.cons_append, List.cons_append] at hbody ⊢
  rw [escapeLength_numeric hleader hsimple hd, hbody, List.all_cons, hsign, Bool.false_and,
    Bool.and_false]
  rfl

-- =============================================================== refused

namespace Item

/-- Only a number may denote nothing, where the form has no room for it. -/
theorem exceeds_of_value (h : i.value = none) :
    ∃ form ds, i = numeric form ds ∧ form.Exceeds (spelled form.base ds) := by
  cases i with
  | plain | lettered => exact nomatch h
  | numeric form ds =>
    refine ⟨form, ds, rfl, ?_⟩
    cases form with
    | byte => exact nomatch h
    | octal | short | long => simpa [value, NumericEscape.Exceeds, NumericEscape.base] using h

theorem isEscape_of_text (h : '\\' :: cs = i.text ++ more) : i.IsEscape := by
  cases i with
  | plain c => exact congrArg some (List.cons.inj h).1.symm
  | lettered | numeric => rfl

end Item

/-- What the lexer accepts is the decoder's as far as it goes, and has a
meaning unless its number is too large. -/
theorem meaning_of_escapeLength (hquote : quote = '\x22' ∨ quote = '\x27')
    (h : escapeLength quote ('\\' :: cs) = some n) :
    (∃ v, escapeMeaning quote ('\\' :: cs) = some (v, n)) ∨
      escapeMeaning quote ('\\' :: cs) = none ∧ ∃ form ds more,
        (Item.numeric form ds).IsValid quote ∧
        '\\' :: cs = (Item.numeric form ds).text ++ more ∧
        form.Exceeds (spelled form.base ds) := by
  obtain ⟨i, more, hi, htext, hn⟩ := Item.exists_item h
  have hmeaning := Item.escapeMeaning_item hquote hi (Item.isEscape_of_text htext) more
  rw [← htext, ← hn] at hmeaning
  cases hvalue : i.value with
  | some v =>
    rw [hvalue] at hmeaning
    exact .inl ⟨v, hmeaning⟩
  | none =>
    rw [hvalue] at hmeaning
    obtain ⟨form, ds, rfl, hlarge⟩ := Item.exceeds_of_value hvalue
    exact .inr ⟨hmeaning, form, ds, more, hi, htext, hlarge⟩

-- =============================================================== decoded

/-- A text as the decoder takes it apart: what it takes for a character or
for an escape, each with what it denotes. -/
inductive Decoded (quote : Char) : List Char → List (List Char × EscapeValue) → Prop
  | nil : Decoded quote [] []
  | plain {c : Char} {cs : List Char} {parts : List (List Char × EscapeValue)} (hc : c ≠ '\\')
    (h : Decoded quote cs parts) : Decoded quote (c :: cs) (([c], .char c) :: parts)
  | escape {e cs : List Char} {parts : List (List Char × EscapeValue)} {v : EscapeValue}
    (hmeaning : escapeMeaning quote ('\\' :: (e ++ cs)) = some (v, ('\\' :: e).length))
    (h : Decoded quote cs parts) :
    Decoded quote ('\\' :: (e ++ cs)) (('\\' :: e, v) :: parts)

/-- A literal as the decoder takes it apart, its quotes aside. -/
def DecodedLiteral (quote : Char) (text : List Char) (parts : List (List Char × EscapeValue)) :
    Prop :=
  ∃ body, text = quote :: (body ++ [quote]) ∧ Decoded quote body parts

namespace Decoded

/-- A text of one part is a character or an escape. -/
theorem alone_iff : Decoded quote body [(body, v)] ↔
    (∃ c, c ≠ '\\' ∧ body = [c] ∧ v = .char c) ∨
      ∃ e, body = '\\' :: e ∧ escapeMeaning quote body = some (v, body.length) := by
  constructor
  · intro h
    generalize hparts : [(body, v)] = parts at h
    cases h with
    | nil => exact nomatch hparts
    | @plain c cs rest hc h =>
      obtain ⟨hpart, rfl⟩ := List.cons.inj hparts
      exact .inl ⟨c, hc, (Prod.mk.inj hpart).1, (Prod.mk.inj hpart).2⟩
    | @escape e cs rest w hmeaning h =>
      obtain ⟨hpart, rfl⟩ := List.cons.inj hparts
      obtain ⟨htext, rfl⟩ := Prod.mk.inj hpart
      rw [htext] at hmeaning ⊢
      exact .inr ⟨e, rfl, hmeaning⟩
  · rintro (⟨c, hc, rfl, rfl⟩ | ⟨e, rfl, hmeaning⟩)
    · exact plain hc nil
    · have h := @escape quote e [] [] v (by rwa [List.append_nil]) nil
      rwa [List.append_nil] at h

/-- The parts make up the text. -/
theorem text_eq (h : Decoded quote cs parts) : cs = parts.flatMap Prod.fst := by
  induction h with
  | nil => rfl
  | plain hc h ih => rw [List.flatMap_cons, ← ih, List.singleton_append]
  | escape hmeaning h ih => rw [List.flatMap_cons, ← ih, List.cons_append]

/-- What begins with a backslash is an escape for the lexer too, and as
long, unless it has a sign; then it is none. -/
theorem escapeLength_eq (hquote : quote = '\x22' ∨ quote = '\x27') (h : Decoded quote cs parts)
    {part : List Char × EscapeValue} (hpart : part ∈ parts) (hescape : part.1.head? = some '\\')
    (more : List Char) :
    (IsSigned part.1 → escapeLength quote (part.1 ++ more) = none) ∧
      (¬IsSigned part.1 → escapeLength quote (part.1 ++ more) = some part.1.length) := by
  induction h with
  | nil => exact nomatch hpart
  | plain hc h ih =>
    rcases List.mem_cons.mp hpart with rfl | hpart
    · exact absurd (Option.some.inj hescape) hc
    · exact ih hpart
  | @escape e cs parts v hmeaning h ih =>
    rcases List.mem_cons.mp hpart with rfl | hpart
    · refine ⟨fun hsigned => hsigned.escapeLength_eq hquote more, fun hunsigned => ?_⟩
      obtain ⟨e', rest, htext, hlength, hform⟩ := exists_of_meaning hquote hmeaning
      obtain ⟨rfl, rfl⟩ := List.append_inj htext (Nat.succ.inj hlength)
      rcases hform with ⟨i, hi, htext⟩ | hsigned
      · have hescape : i.IsEscape := congrArg List.head? htext
        rw [← htext]
        exact Item.escapeLength_item hquote hi hescape more
      · exact absurd hsigned hunsigned
    · exact ih hpart

end Decoded

/-- The text between quotes is told by the quotes. -/
theorem unquoted_eq_some {text : List Char} :
    unquoted quote text = some body ↔ text = quote :: (body ++ [quote]) := by
  constructor
  · intro h
    cases text with
    | nil => exact nomatch h
    | cons c rest =>
      by_cases hquotes : c = quote ∧ rest.getLast? = some quote
      · have hrest : rest.dropLast = body := by simpa [unquoted, hquotes] using h
        rw [hquotes.1, ← hrest, List.dropLast_append_getLast? quote hquotes.2]
      · simp [unquoted, hquotes] at h
  · rintro rfl
    exact unquoted_append

theorem stringBytes_escape
    (h : escapeMeaning '\x22' ('\\' :: (e ++ cs)) = some (v, ('\\' :: e).length)) :
    stringBytes 0 ('\\' :: (e ++ cs)) = (stringBytes 0 cs).map (v.toBytes ++ ·) := by
  have hrest : stringBytes (('\\' :: e).length - 1) (e ++ cs) = stringBytes 0 cs :=
    Item.stringBytes_skip e cs
  rw [stringBytes, if_pos rfl, h]
  simp only [bind, Option.bind_some, hrest, Option.map_eq_bind]
  rfl

/-- The bytes of a string are those of its parts. -/
theorem stringBytes_eq_some {bytes : List UInt8} : stringBytes 0 cs = some bytes ↔
    ∃ parts, Decoded '\x22' cs parts ∧ bytes = parts.flatMap fun part => part.2.toBytes := by
  constructor
  · intro h
    -- An escape takes several characters along, so the induction is on the length.
    induction hn : cs.length using Nat.strongRecOn generalizing cs bytes with
    | ind n ih =>
      cases cs with
      | nil => exact ⟨[], .nil, (Option.some.inj h).symm⟩
      | cons c cs =>
        by_cases hc : c = '\\'
        · subst hc
          have hescape := h
          rw [stringBytes, if_pos rfl] at hescape
          obtain ⟨⟨v, used⟩, hmeaning, -⟩ := Option.bind_eq_some_iff.mp hescape
          obtain ⟨e, rest, rfl, rfl, -⟩ := exists_of_meaning (.inl rfl) hmeaning
          rw [stringBytes_escape hmeaning] at h
          obtain ⟨tail, htail, rfl⟩ := Option.map_eq_some_iff.mp h
          have hlt : rest.length < n := by
            rw [← hn, List.length_cons, List.length_append]
            omega
          obtain ⟨parts, hparts, rfl⟩ := ih rest.length hlt htail rfl
          exact ⟨_, .escape hmeaning hparts, rfl⟩
        · rw [stringBytes, if_neg hc] at h
          obtain ⟨tail, htail, rfl⟩ := Option.map_eq_some_iff.mp h
          have hlt : cs.length < n := by
            rw [← hn]
            exact Nat.lt_succ_self _
          obtain ⟨parts, hparts, rfl⟩ := ih cs.length hlt htail rfl
          exact ⟨_, .plain hc hparts, rfl⟩
  · rintro ⟨parts, h, rfl⟩
    induction h with
    | nil => rfl
    | plain hc h ih =>
      rw [stringBytes, if_neg hc, ih]
      rfl
    | escape hmeaning h ih =>
      rw [stringBytes_escape hmeaning, ih]
      rfl

theorem stringValue_eq_some {text : List Char} {bytes : List UInt8}
    (htext : text.head? = some '\x22') : stringValue text = some bytes ↔
      ∃ parts, DecodedLiteral '\x22' text parts ∧
        bytes = parts.flatMap fun part => part.2.toBytes := by
  obtain ⟨cs, rfl⟩ := List.head?_eq_some_iff.mp htext
  have hvalue : stringValue ('\x22' :: cs) =
      (unquoted '\x22' ('\x22' :: cs)).bind (stringBytes 0) := rfl
  rw [hvalue, Option.bind_eq_some_iff]
  constructor
  · rintro ⟨body, hbody, hbytes⟩
    obtain ⟨parts, hparts, hbytes⟩ := stringBytes_eq_some.mp hbytes
    exact ⟨parts, ⟨body, unquoted_eq_some.mp hbody, hparts⟩, hbytes⟩
  · rintro ⟨parts, ⟨body, hbody, hparts⟩, hbytes⟩
    exact ⟨body, unquoted_eq_some.mpr hbody, stringBytes_eq_some.mpr ⟨parts, hparts, hbytes⟩⟩

/-- A rune is one part, and denotes what that denotes. -/
theorem runeValue_eq_some {text : List Char} {r : Char} : runeValue text = some r ↔
    ∃ part, DecodedLiteral '\x27' text [part] ∧ r = part.2.toChar := by
  constructor
  · intro h
    obtain ⟨body, hbody, h⟩ := Option.bind_eq_some_iff.mp h
    have htext := unquoted_eq_some.mp hbody
    split at h
    · next e =>
      obtain ⟨⟨v, used⟩, hmeaning, hused⟩ := Option.bind_eq_some_iff.mp h
      dsimp only at hused
      split at hused
      · next hlength =>
        rw [hlength] at hmeaning
        have hparts := Decoded.alone_iff.mpr (.inr ⟨e, rfl, hmeaning⟩)
        exact ⟨_, ⟨_, htext, hparts⟩, (Option.some.inj hused).symm⟩
      · exact nomatch hused
    · next c hc =>
      have hparts : Decoded '\x27' [c] [([c], .char c)] := .plain hc .nil
      exact ⟨_, ⟨_, htext, hparts⟩, (Option.some.inj h).symm⟩
    · exact nomatch h
  · rintro ⟨⟨e, v⟩, ⟨body, rfl, h⟩, rfl⟩
    obtain rfl : body = e := by rw [h.text_eq, List.flatMap_singleton]
    rw [runeValue, unquoted_append]
    rcases Decoded.alone_iff.mp h with ⟨c, hc, rfl, rfl⟩ | ⟨e, rfl, hmeaning⟩
    · simp [EscapeValue.toChar]
    · simp [hmeaning]

/-- The decoder takes a literal apart into characters and escapes. What it
takes for an escape the lexer accepts at the same length, unless it has a
sign; and what the lexer accepts has that length and a meaning for the
decoder, unless its number is too large. -/
theorem decoded_escapes (text : List Char) :
    (text.head? = some '\x22' → ∀ bytes, stringValue text = some bytes ↔
      ∃ parts, DecodedLiteral '\x22' text parts ∧
        bytes = parts.flatMap fun part => part.2.toBytes) ∧
    (∀ r, runeValue text = some r ↔
      ∃ part, DecodedLiteral '\x27' text [part] ∧ r = part.2.toChar) ∧
    ∀ quote ∈ ['\x22', '\x27'],
      (∀ parts, DecodedLiteral quote text parts →
        ∀ part ∈ parts, part.1.head? = some '\\' → ∀ more,
          (IsSigned part.1 → escapeLength quote (part.1 ++ more) = none) ∧
          (¬IsSigned part.1 → escapeLength quote (part.1 ++ more) = some part.1.length)) ∧
      ∀ cs n, escapeLength quote ('\\' :: cs) = some n →
        (∃ v, escapeMeaning quote ('\\' :: cs) = some (v, n)) ∨
          escapeMeaning quote ('\\' :: cs) = none ∧ ∃ form ds more,
            (Item.numeric form ds).IsValid quote ∧
            '\\' :: cs = (Item.numeric form ds).text ++ more ∧
            form.Exceeds (spelled form.base ds) := by
  refine ⟨fun htext bytes => stringValue_eq_some htext, fun r => runeValue_eq_some,
    fun quote hquote => ⟨?_, ?_⟩⟩
  · rintro parts ⟨body, -, h⟩ part hpart hescape more
    exact h.escapeLength_eq (List.mem_pair.mp hquote) hpart hescape more
  · intro cs n h
    exact meaning_of_escapeLength (List.mem_pair.mp hquote) h

/-- A sign in a rune, which has a value and would not be a token. -/
theorem decoded_escapes_sign :
    let e := ['\\', 'x', '+', '1']
    let text := '\x27' :: (e ++ ['\x27'])
    runeValue text = some '\x01' ∧ DecodedLiteral '\x27' text [(e, .byte 1)] ∧
      escapeLength '\x27' e = none := by
  intro e text
  have hmeaning : escapeMeaning '\x27' e = some (.byte 1, e.length) := by decide
  have hparts := Decoded.alone_iff.mpr (.inr ⟨_, rfl, hmeaning⟩)
  exact ⟨by decide, ⟨e, rfl, hparts⟩, by decide⟩

/-- A string of a character, an escape, and an escape with a sign; a rune;
and a number that is no byte. -/
theorem decoded_escapes_string :
    let e := ['\\', 'u', '0', '0', 'e', '9']
    let signed := ['\\', 'x', '+', 'F']
    let large := ['\\', '4', '0', '0']
    (stringValue ('\x22' :: ('é' :: (e ++ signed) ++ ['\x22'])) =
        some [0xC3, 0xA9, 0xC3, 0xA9, 0x0F] ∧
      (¬IsSigned e ∧ ∀ more, escapeLength '\x22' (e ++ more) = some e.length) ∧
      IsSigned signed ∧ ∀ more, escapeLength '\x22' (signed ++ more) = none) ∧
    runeValue ('\x27' :: (e ++ ['\x27'])) = some 'é' ∧
    escapeLength '\x27' large = some 4 ∧ escapeMeaning '\x27' large = none ∧
      ∃ form ds more, large = (Item.numeric form ds).text ++ more ∧
        form.Exceeds (spelled form.base ds) := by
  intro e signed large
  let body := 'é' :: (e ++ signed)
  have hbody : Decoded '\x22' body [(['é'], .char 'é'), (e, .char 'é'), (signed, .byte 15)] :=
    .plain (by decide) (@Decoded.escape _ e.tail signed _ _ (by decide)
      (@Decoded.escape _ signed.tail [] _ _ (by decide) .nil))
  have hrune : Decoded '\x27' e [(e, .char 'é')] :=
    Decoded.alone_iff.mpr (.inr ⟨_, rfl, by decide⟩)
  obtain ⟨hstring, -, hquotes⟩ := decoded_escapes ('\x22' :: (body ++ ['\x22']))
  obtain ⟨hescapes, -⟩ := hquotes '\x22' (by decide)
  have hplain := hescapes _ ⟨_, rfl, hbody⟩ (e, .char 'é') (by decide) rfl
  have hunsigned : ¬IsSigned e := fun h => absurd ((hplain []).1 h) (by decide)
  have hsigned : IsSigned signed := ⟨.byte, ['F'], by decide, rfl, by decide, rfl⟩
  have hsign := hescapes _ ⟨_, rfl, hbody⟩ (signed, .byte 15) (by decide) rfl
  obtain ⟨-, hrunes, hquotes⟩ := decoded_escapes ('\x27' :: (e ++ ['\x27']))
  obtain ⟨v, hv⟩ | ⟨hnone, form, ds, more, -, htext, hlarge⟩ :=
    (hquotes '\x27' (by decide)).2 large.tail 4 (by decide)
  · have hnone : escapeMeaning '\x27' large = none := by decide
    exact nomatch hnone.symm.trans hv
  · exact ⟨⟨(hstring rfl _).mpr ⟨_, ⟨_, rfl, hbody⟩, by decide⟩,
      ⟨hunsigned, fun more => (hplain more).2 hunsigned⟩,
      hsigned, fun more => (hsign more).1 hsigned⟩,
      (hrunes _).mpr ⟨_, ⟨_, rfl, hrune⟩, rfl⟩,
      by decide, hnone, form, ds, more, htext, hlarge⟩

end GoSource.Literal
