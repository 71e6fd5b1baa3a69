/-
Literals between quotes.

A string is items between its quotes, and a rune is one item between others;
the source in which a literal stands ends neither sooner nor later, whatever
follows. The value is made of the values of the items, and there is none if
one of them has none. And there are no other literals: what the lexer takes
for one is a text that closes (`exists_items`), with escapes that are items.

Nothing in a raw string is an item, and only carriage returns are no part of
its value.
-/
import GoSource.Proofs.Lexing.Blanks
import GoSource.Proofs.Lexing.Standing
import GoSource.Proofs.Literals.Item

namespace GoSource.Literal

open Piece (closingQuote escapesWellFormed inside isStringShape isRuneShape IsSpelling measure)
open Token.Stream (ofSource)

-- ================================================================= texts

/-- Items between quotes. -/
def quoted (quote : Char) (items : List Item) : List Char :=
  quote :: (items.flatMap Item.text ++ [quote])

variable {quote c : Char} {cs body more : List Char} {items : List Item} {i : Item} {passed : Nat}

theorem unquoted_append : unquoted quote (quote :: (body ++ [quote])) = some body := by
  simp [unquoted]

theorem inside_append : inside (quote :: (body ++ [quote])) = body := by
  simp [inside]

theorem Item.text_ne_nil (i : Item) : i.text ≠ [] := by
  cases i <;> exact List.cons_ne_nil _ _

section

variable (hquote : quote = '\x22' ∨ quote = '\x27')

include hquote

theorem closingQuote_items (h : ∀ i ∈ items, i.IsValid quote) :
    closingQuote quote passed (items.flatMap Item.text ++ [quote]) =
      some (passed + (items.flatMap Item.text ++ [quote]).length) := by
  induction items generalizing passed with
  | nil => exact Piece.closingQuote_quote
  | cons i items ih =>
    obtain ⟨hi, hitems⟩ := List.forall_mem_cons.mp h
    rw [List.flatMap_cons, List.append_assoc, Item.closingQuote_item hquote hi, ih hitems,
      Nat.add_assoc, ← List.length_append]

theorem escapesWellFormed_items (h : ∀ i ∈ items, i.IsValid quote) :
    escapesWellFormed quote 0 (items.flatMap Item.text) = true := by
  induction items with
  | nil => rfl
  | cons i items ih =>
    obtain ⟨hi, hitems⟩ := List.forall_mem_cons.mp h
    rw [List.flatMap_cons, Item.escapesWellFormed_item hquote hi, ih hitems]

omit hquote in
/-- What closes at its end, with well-formed escapes, is the closing quote,
or it begins with an item. -/
theorem exists_first (hend : closingQuote quote passed (c :: cs) = some (passed + (cs.length + 1)))
    (hshape : escapesWellFormed quote 0 (c :: cs).dropLast = true) :
    c :: cs = [quote] ∨ ∃ (i : Item) (rest : List Char) (last : Char), i.IsValid quote ∧
      c :: cs = i.text ++ (rest ++ [last]) := by
  by_cases hc : c = quote
  · rw [hc, Piece.closingQuote_quote] at hend
    have hlength := Option.some.inj hend
    obtain rfl : cs = [] := List.length_eq_zero_iff.mp (by omega)
    exact .inl (by rw [hc])
  have hnewline : c ≠ '\n' := by
    rintro rfl
    rw [Piece.closingQuote_newline hc] at hend
    cases hend
  right
  rcases List.eq_nil_or_concat cs with rfl | ⟨rest, last, rfl⟩
  · rw [Piece.closingQuote.eq_def] at hend
    simp [hc, hnewline, closingQuote] at hend
  · rw [List.concat_eq_append]
    by_cases hescape : c = '\\'
    · subst hescape
      rw [List.concat_eq_append, ← List.cons_append, List.dropLast_concat, escapesWellFormed,
        if_pos rfl] at hshape
      cases hlength : escapeLength quote ('\\' :: rest) with
      | none =>
        rw [hlength] at hshape
        exact absurd hshape Bool.false_ne_true
      | some n =>
        obtain ⟨i, more, hi, htext, -⟩ := Item.exists_item hlength
        exact ⟨i, more, last, hi, by rw [← List.cons_append, htext, List.append_assoc]⟩
    · exact ⟨.plain c, rest, last, ⟨hc, hescape, hnewline⟩, rfl⟩

/-- So it is items and a quote. -/
theorem exists_items (hend : closingQuote quote passed cs = some (passed + cs.length))
    (hshape : escapesWellFormed quote 0 cs.dropLast = true) :
    ∃ items : List Item, (∀ i ∈ items, i.IsValid quote) ∧
      cs = items.flatMap Item.text ++ [quote] := by
  induction hn : cs.length using Nat.strongRecOn generalizing cs passed with
  | ind n ih =>
    cases cs with
    | nil => exact nomatch hend
    | cons c cs =>
      rcases exists_first hend hshape with hlast | ⟨i, rest, last, hi, htext⟩
      · exact ⟨[], nofun, hlast⟩
      · rw [htext] at hend hshape hn ⊢
        rw [Item.closingQuote_item hquote hi, List.length_append, ← Nat.add_assoc] at hend
        rw [← List.append_assoc, List.dropLast_concat, Item.escapesWellFormed_item hquote hi]
          at hshape
        have hpos := List.length_pos_iff.mpr i.text_ne_nil
        rw [List.length_append] at hn
        obtain ⟨items, hitems, hrest⟩ := ih (rest ++ [last]).length (by omega) hend
          (by rwa [List.dropLast_concat]) rfl
        refine ⟨i :: items, List.forall_mem_cons.mpr ⟨hi, hitems⟩, ?_⟩
        rw [hrest, List.flatMap_cons, List.append_assoc]

end

-- ================================================================ values

theorem stringBytes_items (h : ∀ i ∈ items, i.IsValid '\x22') :
    stringBytes 0 (items.flatMap Item.text) =
      (items.mapM Item.value).map fun values => values.flatMap EscapeValue.toBytes := by
  induction items with
  | nil => rfl
  | cons i items ih =>
    obtain ⟨hi, hitems⟩ := List.forall_mem_cons.mp h
    rw [List.flatMap_cons, Item.stringBytes_item hi, ih hitems, List.mapM_cons]
    cases i.value with
    | none => rfl
    | some v => cases items.mapM Item.value <;> rfl

theorem stringValue_quoted (h : ∀ i ∈ items, i.IsValid '\x22') :
    stringValue (quoted '\x22' items) =
      (items.mapM Item.value).map fun values => values.flatMap EscapeValue.toBytes := by
  rw [← stringBytes_items h, stringValue, quoted, unquoted_append]
  · rfl
  · intro tail h
    exact absurd (List.cons.inj h).1 (by decide)

theorem runeValue_quoted (hi : i.IsValid '\x27') :
    runeValue (quoted '\x27' [i]) = i.value.map EscapeValue.toChar := by
  have hbody : quoted '\x27' [i] = '\x27' :: (i.text ++ ['\x27']) := by
    rw [quoted, List.flatMap_cons, List.flatMap_nil, List.append_nil]
  rw [hbody, runeValue, unquoted_append]
  by_cases hescape : i.IsEscape
  · obtain ⟨d, tail, htext, -, -⟩ := Item.exists_tail (.inr rfl) hi hescape
    have hmeaning := Item.escapeMeaning_item (.inr rfl) hi hescape []
    rw [List.append_nil] at hmeaning
    rw [htext] at hmeaning ⊢
    simp only [hmeaning, bind, Option.bind_some, Option.bind_map, Function.comp_def, if_pos]
    cases i.value <;> rfl
  · cases i with
    | plain c =>
      have hc : c ≠ '\\' := hi.2.1
      simp [Item.text, Item.value, EscapeValue.toChar]
    | lettered | numeric => exact absurd rfl hescape

/-- Only a carriage return has its byte. -/
theorem utf8Bytes_filter (cs : List Char) :
    Text.utf8Bytes (cs.filter (decide <| · ≠ '\r')) =
      (Text.utf8Bytes cs).filter (decide <| · ≠ 0x0D) := by
  unfold Text.utf8Bytes
  induction cs with
  | nil => rfl
  | cons c cs ih =>
    rw [List.flatMap_cons, List.filter_append, ← ih]
    by_cases hc : c = '\r'
    · rw [hc]
      rfl
    · have hbytes : ∀ b ∈ String.utf8EncodeChar c, decide (b ≠ 0x0D) = true := by
        intro b hb
        rw [decide_eq_true_eq]
        rintro rfl
        exact hc (@eq_of_byte c '\r' (by decide) hb)
      have hkept : (c :: cs).filter (decide <| · ≠ '\r') = c :: cs.filter (decide <| · ≠ '\r') :=
        List.filter_cons_of_pos (decide_eq_true hc)
      rw [hkept, List.flatMap_cons, List.filter_eq_self.mpr hbytes]

theorem stringValue_raw : stringValue ('\x60' :: (body ++ ['\x60'])) =
    some ((Text.utf8Bytes body).filter (decide <| · ≠ 0x0D)) := by
  rw [stringValue, unquoted_append, ← utf8Bytes_filter]
  rfl

-- =============================================================== sources

theorem measure_string (h : ∀ i ∈ items, i.IsValid '\x22') (more : List Char) :
    measure (quoted '\x22' items ++ more) = (.token .stringLit, (quoted '\x22' items).length) := by
  refine Piece.measure_string (closingQuote_items (.inl rfl) h) ?_ more
  rw [isStringShape, inside_append, escapesWellFormed_items (.inl rfl) h]

theorem isRuneShape_escape {text rest : List Char} (h : inside text = '\\' :: rest) :
    isRuneShape text = decide (escapeLength '\x27' ('\\' :: rest) = some (rest.length + 1)) := by
  rw [isRuneShape, h]
  rfl

theorem isRuneShape_plain {text rest : List Char} (h : inside text = c :: rest) (hc : c ≠ '\\') :
    isRuneShape text = decide (rest = []) := by
  rw [isRuneShape, h]
  split
  · next heq => exact absurd (List.cons.inj heq).1 hc
  · simp

theorem isRuneShape_quoted (hi : i.IsValid '\x27') : isRuneShape (quoted '\x27' [i]) = true := by
  have hinside : inside (quoted '\x27' [i]) = i.text := by
    rw [quoted, inside_append, List.flatMap_cons, List.flatMap_nil, List.append_nil]
  by_cases hescape : i.IsEscape
  · obtain ⟨d, tail, htext, -, -⟩ := Item.exists_tail (.inr rfl) hi hescape
    have hlength := Item.escapeLength_item (.inr rfl) hi hescape []
    rw [List.append_nil, htext] at hlength
    rw [isRuneShape_escape (hinside.trans htext), decide_eq_true_eq]
    exact hlength
  · cases i with
    | plain c => exact (isRuneShape_plain hinside hi.2.1).trans rfl
    | lettered | numeric => exact absurd rfl hescape

theorem measure_rune (hi : i.IsValid '\x27') (more : List Char) :
    measure (quoted '\x27' [i] ++ more) = (.token .runeLit, (quoted '\x27' [i]).length) := by
  have hvalid : ∀ j ∈ [i], j.IsValid '\x27' := List.forall_mem_singleton.mpr hi
  refine Piece.measure_rune (closingQuote_items (.inr rfl) hvalid) ?_ (isRuneShape_quoted hi) more
  have hpos := List.length_pos_iff.mpr i.text_ne_nil
  simp
  omega

theorem escapesWellFormed_of_isRuneShape {text : List Char} (h : isRuneShape text = true) :
    escapesWellFormed '\x27' 0 (inside text) = true := by
  cases hinside : inside text with
  | nil => rfl
  | cons c rest =>
    by_cases hc : c = '\\'
    · subst hc
      rw [isRuneShape_escape hinside, decide_eq_true_eq] at h
      have hskip := @Item.escapesWellFormed_skip '\x27' rest []
      rw [List.append_nil] at hskip
      rw [escapesWellFormed, if_pos rfl, h]
      exact hskip
    · rw [isRuneShape_plain hinside hc, decide_eq_true_eq] at h
      rw [h]
      exact if_neg hc

/-- What is well formed as a rune is one item. -/
theorem exists_rune (hend : closingQuote '\x27' 1 body = some (1 + body.length))
    (hshape : isRuneShape ('\x27' :: body) = true) :
    ∃ i : Item, i.IsValid '\x27' ∧ '\x27' :: body = quoted '\x27' [i] := by
  obtain ⟨items, hitems, rfl⟩ :=
    exists_items (.inr rfl) hend (escapesWellFormed_of_isRuneShape hshape)
  cases items with
  | nil => exact nomatch hshape
  | cons i items =>
    have hi := (List.forall_mem_cons.mp hitems).1
    have hinside : inside ('\x27' :: ((i :: items).flatMap Item.text ++ ['\x27'])) =
        i.text ++ items.flatMap Item.text := by
      rw [inside_append, List.flatMap_cons]
    have hlast : items.flatMap Item.text = [] := by
      by_cases hescape : i.IsEscape
      · obtain ⟨d, tail, htext, -, -⟩ := Item.exists_tail (.inr rfl) hi hescape
        have hlength := Item.escapeLength_item (.inr rfl) hi hescape (items.flatMap Item.text)
        rw [htext] at hinside hlength
        rw [isRuneShape_escape hinside, decide_eq_true_eq] at hshape
        have hsame : (d :: tail ++ items.flatMap Item.text).length + 1 = (d :: tail).length + 1 :=
          Option.some.inj (hshape.symm.trans hlength)
        rw [List.length_append] at hsame
        exact List.length_eq_zero_iff.mp (by omega)
      · cases i with
        | plain c =>
          rw [isRuneShape_plain hinside hi.2.1, decide_eq_true_eq] at hshape
          exact hshape
        | lettered | numeric => exact absurd rfl hescape
    refine ⟨i, hi, ?_⟩
    rw [quoted, List.flatMap_cons, hlast, List.flatMap_cons, List.flatMap_nil]

theorem exists_string (hend : closingQuote '\x22' 1 body = some (1 + body.length))
    (hshape : isStringShape ('\x22' :: body) = true) :
    ∃ items : List Item, (∀ i ∈ items, i.IsValid '\x22') ∧
      '\x22' :: body = quoted '\x22' items := by
  obtain ⟨items, hitems, hbody⟩ := exists_items (.inl rfl) hend hshape
  exact ⟨items, hitems, by rw [hbody, quoted]⟩

/-- The kinds of literals that stand between quotes. -/
def quotedKinds : List Token.Kind := [.stringLit, .runeLit, .rawStringLit]

/-- A token that is spelled like a literal between quotes is one. -/
theorem exists_of_isSpelling {kind : Token.Kind} {text : List Char} (h : IsSpelling kind text) :
    (kind = .stringLit → ∃ items : List Item, (∀ i ∈ items, i.IsValid '\x22') ∧
      text = quoted '\x22' items) ∧
    (kind = .runeLit → ∃ i : Item, i.IsValid '\x27' ∧ text = quoted '\x27' [i]) ∧
    (kind = .rawStringLit → ∃ body, '\x60' ∉ body ∧ text = '\x60' :: (body ++ ['\x60'])) := by
  have hother (hkind : kind ∉ quotedKinds) {p q r : Prop} :
      (kind = .stringLit → p) ∧ (kind = .runeLit → q) ∧ (kind = .rawStringLit → r) := by
    simp only [quotedKinds, List.mem_cons, List.not_mem_nil, or_false, not_or] at hkind
    exact ⟨fun h => absurd h hkind.1, fun h => absurd h hkind.2.1, fun h => absurd h hkind.2.2⟩
  cases h with
  | word =>
    have hwords : ∀ k ∈ .ident :: Token.Kind.keywords, k ∉ quotedKinds := by decide
    exact hother (hwords _ (Piece.wordKind_mem _))
  | number =>
    have hnumbers : ∀ k ∈ [.imagLit, .floatLit, .intLit], k ∉ quotedKinds := by decide
    exact hother (hnumbers _ (Piece.numberKind_mem _))
  | operator hentry =>
    have hoperators : ∀ entry ∈ Piece.operatorTable, entry.2 ∉ quotedKinds := by decide
    exact hother (hoperators _ hentry)
  | rawString hbody => exact ⟨nofun, nofun, fun _ => ⟨_, hbody, rfl⟩⟩
  | string hend hshape => exact ⟨fun _ => exists_string hend hshape, nofun, nofun⟩
  | rune hend _ hshape => exact ⟨nofun, fun _ => exists_rune hend hshape, nofun⟩

theorem isSpelling_of_mem {source : String} {t : Token} (ht : t ∈ (ofSource source).tokens)
    (hkind : t.kind ∈ quotedKinds) : IsSpelling t.kind t.text.toList := by
  have hne {kind : Token.Kind} (hnone : kind ∉ quotedKinds) : t.kind ≠ kind := fun h =>
    hnone (h ▸ hkind)
  have hwritten : t.isInserted = false := by
    rw [Token.isInserted, decide_eq_false (hne (by decide)), Bool.false_and]
  exact (Token.Stream.isSpelling_of_mem ht hwritten).resolve_right (hne (by decide))

/-- Items between quotes are a string or a rune, whatever follows, and have
the value of the items; and there are no other strings and runes. -/
theorem quoted_literals :
    (∀ (items : List Item) (more : List Char), (∀ i ∈ items, i.IsValid '\x22') →
      (ofSource (.ofList (quoted '\x22' items ++ more))).tokens.head? =
        some ⟨.stringLit, .ofList (quoted '\x22' items),
          ⟨.first, Location.first.pastAll (quoted '\x22' items)⟩⟩ ∧
      stringValue (quoted '\x22' items) =
        (items.mapM Item.value).map fun values => values.flatMap EscapeValue.toBytes) ∧
    (∀ (i : Item) (more : List Char), i.IsValid '\x27' →
      (ofSource (.ofList (quoted '\x27' [i] ++ more))).tokens.head? =
        some ⟨.runeLit, .ofList (quoted '\x27' [i]),
          ⟨.first, Location.first.pastAll (quoted '\x27' [i])⟩⟩ ∧
      runeValue (quoted '\x27' [i]) = i.value.map EscapeValue.toChar) ∧
    ∀ (source : String), ∀ t ∈ (ofSource source).tokens,
      (t.kind = .stringLit → ∃ items : List Item, (∀ i ∈ items, i.IsValid '\x22') ∧
        t.text.toList = quoted '\x22' items) ∧
      (t.kind = .runeLit → ∃ i : Item, i.IsValid '\x27' ∧ t.text.toList = quoted '\x27' [i]) ∧
      (t.kind = .rawStringLit → ∃ body, '\x60' ∉ body ∧
        t.text.toList = '\x60' :: (body ++ ['\x60']) ∧
        stringValue t.text.toList =
          some ((Text.utf8Bytes body).filter (decide <| · ≠ 0x0D))) := by
  refine ⟨fun items more hitems => ⟨?_, stringValue_quoted hitems⟩,
    fun i more hi => ⟨?_, runeValue_quoted hi⟩,
    fun source t ht => ⟨fun hkind => ?_, fun hkind => ?_, fun hkind => ?_⟩⟩
  · have hmark : (quoted '\x22' items).head? ≠ some Piece.byteOrderMark := by
      rw [quoted, List.head?_cons]
      decide
    exact Token.Stream.head?_of_measure String.toList_ofList (List.cons_ne_nil _ _) hmark
      (measure_string hitems more)
  · have hmark : (quoted '\x27' [i]).head? ≠ some Piece.byteOrderMark := by
      rw [quoted, List.head?_cons]
      decide
    exact Token.Stream.head?_of_measure String.toList_ofList (List.cons_ne_nil _ _) hmark
      (measure_rune hi more)
  · have hspelling := isSpelling_of_mem ht (by rw [hkind]; decide)
    exact (exists_of_isSpelling hspelling).1 hkind
  · have hspelling := isSpelling_of_mem ht (by rw [hkind]; decide)
    exact (exists_of_isSpelling hspelling).2.1 hkind
  · have hspelling := isSpelling_of_mem ht (by rw [hkind]; decide)
    obtain ⟨body, hbody, htext⟩ := (exists_of_isSpelling hspelling).2.2 hkind
    exact ⟨body, hbody, htext, by rw [htext, stringValue_raw]⟩

/-- A string with the other quote and escapes in it, and a rune that is a
surrogate. -/
theorem quoted_literals_mixed :
    let items : List Item := [.plain 'é', .plain '\x27', .lettered '\x22', .lettered 'n',
      .numeric .octal ['3', '7', '7'], .numeric .short ['0', '0', 'E', '9']]
    let surrogate : Item := .numeric .short ['d', '8', '0', '0']
    ((∀ i ∈ items, i.IsValid '\x22') ∧
      (ofSource (.ofList (quoted '\x22' items ++ ['\x22']))).tokens.head? =
        some ⟨.stringLit, .ofList (quoted '\x22' items),
          ⟨.first, Location.first.pastAll (quoted '\x22' items)⟩⟩ ∧
      stringValue (quoted '\x22' items) =
        some [0xC3, 0xA9, 0x27, 0x22, 0x0A, 0xFF, 0xC3, 0xA9]) ∧
    surrogate.IsValid '\x27' ∧ runeValue (quoted '\x27' [surrogate]) = none := by
  intro items surrogate
  have hitems : ∀ i ∈ items, i.IsValid '\x22' := by decide
  have hsurrogate : surrogate.IsValid '\x27' := by decide
  obtain ⟨htoken, hvalue⟩ := quoted_literals.1 items ['\x22'] hitems
  exact ⟨⟨hitems, htoken, hvalue.trans (by decide)⟩, hsurrogate,
    (quoted_literals.2.1 surrogate [] hsurrogate).2.trans (by decide)⟩

end GoSource.Literal
