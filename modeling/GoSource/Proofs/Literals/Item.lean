/-
What stands between quotes.

An item is a character that stands for itself, or an escape. The lexer and
the decoder know nothing of items: one looks for the closing quote and then
measures the escapes, the other takes the text apart once more, each in its
own way. Both pass over an item at the beginning of a text as a whole,
whatever comes behind it (`closingQuote_item`, `escapesWellFormed_item`,
`stringBytes_item`), and where they find an escape there is an item
(`exists_item`).
-/
import GoSource.Literal.Quoted
import GoSource.Proofs.Lexing.Spelling
import GoSource.Proofs.Literals.Digits

namespace GoSource.Literal

open Piece (closingQuote escapesWellFormed)

-- ================================================================= items

/-- The letters that may stand behind a backslash, and what they denote. -/
def escapeLetters : List (Char × Char) :=
  [('a', '\x07'), ('b', '\x08'), ('f', '\x0c'), ('n', '\n'), ('r', '\r'), ('t', '\t'),
    ('v', '\x0b'), ('\\', '\\')]

/-- The letter between the backslash and the digits. -/
def NumericEscape.letter : NumericEscape → List Char
  | octal => []
  | byte => ['x']
  | short => ['u']
  | long => ['U']

/-- A character, or an escape. -/
inductive Item where
  | plain (c : Char)
  | lettered (c : Char)
  | numeric (form : NumericEscape) (ds : List Char)
deriving DecidableEq, Repr

namespace Item

def text : Item → List Char
  | plain c => [c]
  | lettered c => ['\\', c]
  | numeric form ds => '\\' :: (form.letter ++ ds)

/-- An item may stand between quotes of a kind. -/
def IsValid (quote : Char) : Item → Prop
  | plain c => c ≠ quote ∧ c ≠ '\\' ∧ c ≠ '\n'
  | lettered c => c = quote ∨ c ∈ escapeLetters.map Prod.fst
  | numeric form ds => ds.length = form.digitCount ∧ InBase form.base ds

/-- The numbers of characters: surrogates are none. -/
def IsScalar (n : Nat) : Prop := n < 0xD800 ∨ 0xDFFF < n ∧ n < 0x110000

instance {n : Nat} : Decidable (IsScalar n) := inferInstanceAs (Decidable (_ ∨ _))

/-- What an item denotes, unless its number is too large or that of no
character. -/
def value : Item → Option EscapeValue
  | plain c => some (.char c)
  | lettered c => some (.char ((escapeLetters.lookup c).getD c))
  | numeric .octal ds =>
    if spelled 8 ds ≤ 255 then some (.byte (.ofNat (spelled 8 ds))) else none
  | numeric .byte ds => some (.byte (.ofNat (spelled 16 ds)))
  | numeric _ ds =>
    if IsScalar (spelled 16 ds) then some (.char (.ofNat (spelled 16 ds))) else none

/-- An item that is no character. -/
def IsEscape (i : Item) : Prop := i.text.head? = some '\\'

instance {quote : Char} : (i : Item) → Decidable (i.IsValid quote)
  | plain c => inferInstanceAs (Decidable (c ≠ quote ∧ c ≠ '\\' ∧ c ≠ '\n'))
  | lettered c => inferInstanceAs (Decidable (c = quote ∨ c ∈ escapeLetters.map Prod.fst))
  | numeric form ds =>
    inferInstanceAs (Decidable (ds.length = form.digitCount ∧ InBase form.base ds))

end Item

variable {quote c : Char} {cs ds more : List Char} {form : NumericEscape} {i : Item} {n : Nat}

-- =============================================================== escapes

theorem simpleEscape_eq (c : Char) : simpleEscape c = escapeLetters.lookup c := by
  unfold simpleEscape
  split
  · rfl
  · rfl
  · rfl
  · rfl
  · rfl
  · rfl
  · rfl
  · rfl
  · rw [eq_comm, List.lookup_eq_none_iff]
    simp_all [escapeLetters]

theorem simpleEscape_isSome : (simpleEscape c).isSome = true ↔ c ∈ escapeLetters.map Prod.fst := by
  rw [simpleEscape_eq, ← not_iff_not, Option.not_isSome_iff_eq_none, List.lookup_eq_none_iff]
  simp only [bne_iff_ne, List.mem_map, not_exists, not_and]
  exact forall₂_congr fun entry _ => ne_comm

namespace NumericEscape

theorem base_le (form : NumericEscape) : form.base ≤ 16 := by
  cases form <;> decide

theorem length_eq (hlength : ds.length = form.digitCount) :
    form.length = (Item.numeric form ds).text.length := by
  rw [Item.text, List.length_cons, List.length_append, hlength]
  cases form <;> rfl

/-- The digits of an escape are found where they are written. -/
theorem body_text (hlength : ds.length = form.digitCount) (more : List Char) :
    form.body ((Item.numeric form ds).text ++ more) = ds := by
  have hdrop : ((Item.numeric form ds).text ++ more).drop form.lead = ds ++ more := by
    cases form <;> rfl
  rw [body, hdrop, ← hlength, List.take_left]

/-- The letter is in front of the digits. -/
theorem drop_lead (h : ofLeader c = some form) :
    form.letter ++ ('\\' :: c :: cs).drop form.lead = c :: cs := by
  unfold ofLeader at h
  split at h
  · obtain rfl := Option.some.inj h
    rfl
  split at h
  · next hc =>
    obtain rfl := Option.some.inj h
    rw [hc]
    rfl
  split at h
  · next hc =>
    obtain rfl := Option.some.inj h
    rw [hc]
    rfl
  split at h
  · next hc =>
    obtain rfl := Option.some.inj h
    rw [hc]
    rfl
  · exact nomatch h

/-- Where a number is announced, an escape is written, if not one of
digits. -/
theorem exists_text (h : ofLeader c = some form) :
    ∃ more, '\\' :: c :: cs = (Item.numeric form (form.body ('\\' :: c :: cs))).text ++ more := by
  refine ⟨(('\\' :: c :: cs).drop form.lead).drop form.digitCount, ?_⟩
  rw [Item.text, body, List.cons_append, List.append_assoc, List.take_append_drop, drop_lead h]

/-- A letter announces one form, and nothing else. -/
theorem exists_letter (h : form ≠ .octal) :
    ∃ d, form.letter = [d] ∧ ofLeader d = some form ∧ simpleEscape d = none ∧
      d ∉ ['\x22', '\x27', '\n'] := by
  cases form with
  | octal => exact absurd rfl h
  | byte => exact ⟨'x', rfl, rfl, rfl, by decide⟩
  | short => exact ⟨'u', rfl, rfl, rfl, by decide⟩
  | long => exact ⟨'U', rfl, rfl, rfl, by decide⟩

/-- The first digit of an octal escape announces it. -/
theorem ofLeader_digit (hc : rank c < 8) :
    ofLeader c = some octal ∧ simpleEscape c = none ∧ c ∉ ['\x22', '\x27', '\n'] := by
  have hne {cs : List Char} (hcs : cs.all (8 ≤ rank ·) = true) : c ∉ cs := fun hmem =>
    absurd (List.all_iff_forall_prop.mp hcs c hmem) (Nat.not_le_of_gt hc)
  refine ⟨if_pos ((isDigit_iff (by decide)).mpr hc), ?_, hne (by decide)⟩
  rw [← Option.not_isSome_iff_eq_none, simpleEscape_isSome]
  exact hne (by decide)

/-- An escape is announced by its letter, or by its first digit. -/
theorem exists_leader (hquote : quote = '\x22' ∨ quote = '\x27')
    (hi : (Item.numeric form ds).IsValid quote) :
    ∃ d tail, (Item.numeric form ds).text = '\\' :: d :: tail ∧ ofLeader d = some form ∧
      simpleEscape d = none ∧ d ≠ quote ∧ d ≠ '\n' ∧ InBase 16 tail := by
  obtain ⟨hlength, hds⟩ := hi
  have hapart {d : Char} (hd : d ∉ ['\x22', '\x27', '\n']) : d ≠ quote ∧ d ≠ '\n' := by
    simp only [List.mem_cons, List.not_mem_nil, or_false, not_or] at hd
    rcases hquote with rfl | rfl
    · exact ⟨hd.1, hd.2.2⟩
    · exact ⟨hd.2.1, hd.2.2⟩
  by_cases hform : form = .octal
  · subst hform
    obtain ⟨d, tail, rfl⟩ : ∃ d tail, ds = d :: tail :=
      List.exists_cons_of_length_pos (by rw [hlength]; decide)
    obtain ⟨hd, htail⟩ : rank d < 8 ∧ InBase 8 tail := inBase_cons.mp hds
    obtain ⟨hleader, hsimple, hmem⟩ := ofLeader_digit hd
    exact ⟨d, tail, rfl, hleader, hsimple, (hapart hmem).1, (hapart hmem).2,
      fun c hc => (htail c hc).trans (by decide)⟩
  · obtain ⟨d, hletter, hleader, hsimple, hmem⟩ := exists_letter hform
    have htext : (Item.numeric form ds).text = '\\' :: d :: ds := by
      rw [Item.text, hletter, List.singleton_append]
    exact ⟨d, ds, htext, hleader, hsimple, (hapart hmem).1, (hapart hmem).2,
      fun c hc => (hds c hc).trans_le form.base_le⟩

end NumericEscape

theorem scalar_eq (n : Nat) : (scalar n).map EscapeValue.char =
    if Item.IsScalar n then some (.char (.ofNat n)) else none := by
  by_cases h : n.isValidChar
  · have hscalar : Item.IsScalar n := h
    rw [scalar, dif_pos h, if_pos hscalar, Char.ofNat, dif_pos h]
    rfl
  · have hscalar : ¬Item.IsScalar n := h
    rw [scalar, dif_neg h, if_neg hscalar]
    rfl

/-- What a number denotes in its form. -/
theorem meaning_spelled (hlength : ds.length = form.digitCount) (hds : InBase form.base ds) :
    form.meaning (spelled form.base ds) = (Item.numeric form ds).value := by
  cases form with
  | octal => simp only [NumericEscape.meaning, NumericEscape.base, Item.value, Nat.lt_succ_iff]
  | byte =>
    have hlt : spelled 16 ds < 256 := by
      have hlt := spelled_lt (by decide) hds
      rwa [hlength] at hlt
    exact if_pos hlt
  | short => exact scalar_eq _
  | long => exact scalar_eq _

theorem escapeLength_cons : escapeLength quote ('\\' :: c :: more) =
    if (simpleEscape c).isSome || c = quote then some 2
    else (NumericEscape.ofLeader c).bind fun form =>
      let body := form.body ('\\' :: c :: more)
      if body.length = form.digitCount && body.all (isDigit form.base) then some form.length
      else none := by
  simp only [escapeLength, List.drop_one, List.tail_cons]
  cases NumericEscape.ofLeader c <;> rfl

theorem escapeLength_numeric (hleader : NumericEscape.ofLeader c = some form)
    (hsimple : simpleEscape c = none) (hc : c ≠ quote) :
    escapeLength quote ('\\' :: c :: more) =
      if (form.body ('\\' :: c :: more)).length = form.digitCount &&
          (form.body ('\\' :: c :: more)).all (isDigit form.base) then some form.length
      else none := by
  simp [escapeLength_cons, hleader, hsimple, hc]

theorem escapeMeaning_numeric (hleader : NumericEscape.ofLeader c = some form)
    (hsimple : simpleEscape c = none) (hc : c ≠ quote) :
    escapeMeaning quote ('\\' :: c :: more) =
      if (form.body ('\\' :: c :: more)).length = form.digitCount then
        (signedUp form.base (form.body ('\\' :: c :: more))).bind fun n =>
          (form.meaning n).map (·, form.length)
      else none := by
  simp [escapeMeaning, hleader, hsimple, hc, Option.map_eq_bind]

namespace Item

section

variable (hquote : quote = '\x22' ∨ quote = '\x27')

include hquote

/-- The length of an escape is that of its text. -/
theorem escapeLength_item (hi : i.IsValid quote) (hescape : i.IsEscape) (more : List Char) :
    escapeLength quote (i.text ++ more) = some i.text.length := by
  cases i with
  | plain c => exact absurd (Option.some.inj hescape) hi.2.1
  | lettered c =>
    have hc : ((simpleEscape c).isSome || decide (c = quote)) = true := by
      rw [Bool.or_eq_true, decide_eq_true_eq, simpleEscape_isSome]
      exact hi.symm
    exact escapeLength_cons.trans (if_pos hc)
  | numeric form ds =>
    obtain ⟨d, tail, htext, hleader, hsimple, hd, -, -⟩ := NumericEscape.exists_leader hquote hi
    obtain ⟨hlength, hds⟩ := hi
    have hbody := NumericEscape.body_text hlength more
    have hall : ds.all (isDigit form.base) = true := by
      rw [List.all_eq_true]
      exact fun c hc => (isDigit_iff form.base_le).mpr (hds c hc)
    rw [← NumericEscape.length_eq hlength]
    rw [htext] at hbody ⊢
    rw [List.cons_append, List.cons_append] at hbody ⊢
    rw [escapeLength_numeric hleader hsimple hd, hbody, hall, decide_eq_true hlength]
    rfl

/-- So is the length that the decoder takes, if the escape has a meaning. -/
theorem escapeMeaning_item (hi : i.IsValid quote) (hescape : i.IsEscape) (more : List Char) :
    escapeMeaning quote (i.text ++ more) = i.value.map (·, i.text.length) := by
  cases i with
  | plain c => exact absurd (Option.some.inj hescape) hi.2.1
  | lettered c =>
    cases hsimple : simpleEscape c with
    | some d =>
      have hvalue : (lettered c).value = some (.char d) := by
        rw [value, ← simpleEscape_eq, hsimple, Option.getD_some]
      rw [hvalue]
      simp [text, escapeMeaning, hsimple]
    | none =>
      have hvalue : (lettered c).value = some (.char c) := by
        rw [value, ← simpleEscape_eq, hsimple, Option.getD_none]
      have hc : c = quote := hi.resolve_right fun hc => by
        rw [← simpleEscape_isSome, hsimple] at hc
        exact nomatch hc
      subst hc
      rw [hvalue]
      simp [text, escapeMeaning, hsimple]
  | numeric form ds =>
    obtain ⟨d, tail, htext, hleader, hsimple, hd, -, -⟩ := NumericEscape.exists_leader hquote hi
    obtain ⟨hlength, hds⟩ := hi
    have hbody := NumericEscape.body_text hlength more
    have hne : ds ≠ [] := by
      rintro rfl
      cases form <;> exact nomatch hlength
    have hread : signedUp form.base ds = some (spelled form.base ds) := by
      rw [signedUp_eq (hds.head?_ne form.base_le (by decide)), number_eq_some form.base_le]
      exact ⟨⟨hne, hds⟩, rfl⟩
    rw [← NumericEscape.length_eq hlength, ← meaning_spelled hlength hds]
    rw [htext] at hbody ⊢
    rw [List.cons_append, List.cons_append] at hbody ⊢
    rw [escapeMeaning_numeric hleader hsimple hd, hbody, if_pos hlength, hread, Option.bind_some]

omit hquote in
/-- Where an escape is well formed there is an item. -/
theorem exists_item (h : escapeLength quote ('\\' :: cs) = some n) :
    ∃ (i : Item) (more : List Char), i.IsValid quote ∧ '\\' :: cs = i.text ++ more ∧
      n = i.text.length := by
  cases cs with
  | nil => exact nomatch h
  | cons c cs =>
    rw [escapeLength_cons] at h
    split at h
    · next hc =>
      rw [Bool.or_eq_true, decide_eq_true_eq, simpleEscape_isSome] at hc
      exact ⟨.lettered c, cs, hc.symm, rfl, (Option.some.inj h).symm⟩
    · obtain ⟨form, hleader, hform⟩ := Option.bind_eq_some_iff.mp h
      dsimp only at hform
      split at hform
      · next hbody =>
        rw [Bool.and_eq_true, decide_eq_true_eq, List.all_eq_true] at hbody
        obtain ⟨hlength, hdigits⟩ := hbody
        obtain rfl := Option.some.inj hform
        obtain ⟨more, htext⟩ := NumericEscape.exists_text hleader
        have hds : InBase form.base (form.body ('\\' :: c :: cs)) :=
          fun d hd => (isDigit_iff form.base_le).mp (hdigits d hd)
        exact ⟨.numeric form _, more, ⟨hlength, hds⟩, htext, NumericEscape.length_eq hlength⟩
      · exact nomatch hform

/-- An escape takes one character along, and what is behind that is
digits. -/
theorem exists_tail (hi : i.IsValid quote) (hescape : i.IsEscape) :
    ∃ d tail, i.text = '\\' :: d :: tail ∧ d ≠ '\n' ∧ InBase 16 tail := by
  cases i with
  | plain c => exact absurd (Option.some.inj hescape) hi.2.1
  | lettered c =>
    refine ⟨c, [], rfl, ?_, inBase_nil⟩
    rintro rfl
    rcases hi with rfl | hi
    · rcases hquote with hquote | hquote <;> exact absurd hquote (by decide)
    · exact absurd hi (by decide)
  | numeric form ds =>
    obtain ⟨d, tail, htext, -, -, -, hd, htail⟩ := NumericEscape.exists_leader hquote hi
    exact ⟨d, tail, htext, hd, htail⟩

/-- Digits close nothing. -/
theorem closingQuote_digits (h : InBase 16 ds) {passed : Nat} :
    closingQuote quote passed (ds ++ more) = closingQuote quote (passed + ds.length) more := by
  have hranks : rank quote = 16 := by rcases hquote with rfl | rfl <;> decide
  induction ds generalizing passed with
  | nil => rfl
  | cons d ds ih =>
    obtain ⟨hd, hds⟩ := inBase_cons.mp h
    have hne {x : Char} (hx : rank x = 16) : d ≠ x := by
      rintro rfl
      omega
    rw [List.cons_append, Piece.closingQuote_plain (hne hranks) (hne (by decide)) (hne (by decide)),
      ih hds, List.length_cons, Nat.add_assoc, Nat.add_comm 1]

/-- The quote that closes a literal is behind an item. -/
theorem closingQuote_item (hi : i.IsValid quote) {passed : Nat} :
    closingQuote quote passed (i.text ++ more) =
      closingQuote quote (passed + i.text.length) more := by
  by_cases hescape : i.IsEscape
  · obtain ⟨d, tail, htext, hd, htail⟩ := exists_tail hquote hi hescape
    have hbackslash : '\\' ≠ quote := by rcases hquote with rfl | rfl <;> decide
    rw [htext, List.cons_append, List.cons_append, Piece.closingQuote_escape hbackslash hd,
      closingQuote_digits hquote htail, List.length_cons, List.length_cons]
    congr 1
    omega
  · cases i with
    | plain c => exact Piece.closingQuote_plain hi.1 hi.2.2 hi.2.1
    | lettered | numeric => exact absurd rfl hescape

omit hquote in
theorem escapesWellFormed_skip (text more : List Char) :
    escapesWellFormed quote text.length (text ++ more) = escapesWellFormed quote 0 more := by
  induction text with
  | nil => rfl
  | cons c text ih => exact ih

theorem escapesWellFormed_item (hi : i.IsValid quote) :
    escapesWellFormed quote 0 (i.text ++ more) = escapesWellFormed quote 0 more := by
  by_cases hescape : i.IsEscape
  · obtain ⟨d, tail, htext, -, -⟩ := exists_tail hquote hi hescape
    have hlength := escapeLength_item hquote hi hescape more
    rw [htext] at hlength ⊢
    rw [List.cons_append] at hlength ⊢
    rw [escapesWellFormed, if_pos rfl, hlength]
    exact escapesWellFormed_skip (d :: tail) more
  · cases i with
    | plain c => exact if_neg hi.2.1
    | lettered | numeric => exact absurd rfl hescape

end

theorem stringBytes_skip (text more : List Char) :
    stringBytes text.length (text ++ more) = stringBytes 0 more := by
  induction text with
  | nil => rfl
  | cons c text ih => exact ih

/-- The bytes of an item come first. -/
theorem stringBytes_item (hi : i.IsValid '\x22') : stringBytes 0 (i.text ++ more) =
    i.value.bind fun v => (stringBytes 0 more).map (v.toBytes ++ ·) := by
  by_cases hescape : i.IsEscape
  · obtain ⟨d, tail, htext, -, -⟩ := exists_tail (.inl rfl) hi hescape
    have hmeaning := escapeMeaning_item (.inl rfl) hi hescape more
    rw [htext] at hmeaning ⊢
    rw [List.cons_append] at hmeaning ⊢
    rw [stringBytes, if_pos rfl, hmeaning]
    have hrest : stringBytes ((i.text.length) - 1) (d :: (tail ++ more)) = stringBytes 0 more := by
      rw [htext]
      exact stringBytes_skip (d :: tail) more
    cases i.value with
    | none => rfl
    | some v =>
      simp [← htext, hrest, Option.map_eq_bind]
  · cases i with
    | plain c => exact if_neg hi.2.1
    | lettered | numeric => exact absurd rfl hescape

end Item

end GoSource.Literal
