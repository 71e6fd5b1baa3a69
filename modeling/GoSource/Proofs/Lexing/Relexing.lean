/-
Tokens that are written out are read back.

What sets tokens apart does not matter as long as it is white space and
there is some of it: such a text is cut into the words it was made of
(`ofSource_plain`). Where the lines end does matter, for the semicolons
that nobody wrote. So the tokens of a source, these semicolons included,
may be written behind one another with spaces between them, and the same
tokens come back (`ofSource_writtenOut`): a semicolon at the end of a line is
written as a newline, and there it is inserted again.
-/
import GoSource.Proofs.Lexing.Layout

namespace GoSource

open Piece (IsCut IsSpelling SetApart isBlank whites byteOrderMark)

-- ========================================================== plain layouts

/-- A word that may be written, with white space behind it. -/
structure Word.IsPlain (w : Word) : Prop where
  spelling : IsSpelling w.kind w.text
  meant : w.kind ≠ .error
  gap : ∀ c ∈ w.gap, c ∈ whites

namespace Layout

/-- Words as they are written. -/
def textFrom (ws : List Word) : List Char := ws.flatMap fun w => w.text ++ w.gap

/-- Words are plain, and there is some white space behind all but the
last. -/
def ArePlain : List Word → Prop
  | [] => True
  | w :: ws => w.IsPlain ∧ (w.gap = [] → ws = []) ∧ ArePlain ws

end Layout

namespace Piece

variable {kind : Token.Kind} {text gap rest : List Char} {ps : List Piece}

theorem IsSpelling.ne_nil (h : IsSpelling kind text) : text ≠ [] := by
  rintro rfl
  exact nomatch measure_spelling h setApart_nil

theorem measure_blanks {c : Char} {cs : List Char} (hc : isBlank c = true) :
    measure (c :: cs) = (.blank, ((c :: cs).takeWhile isBlank).length) := by
  rw [measure.eq_def]
  dsimp only
  rw [if_pos hc]

theorem measure_newline {cs : List Char} : measure ('\n' :: cs) = (.newline, 1) := rfl

/-- Nothing that may be written begins with white space. -/
theorem IsSpelling.head_not_blank (h : IsSpelling kind text) :
    ∀ c ∈ text.head?, isBlank c = false := by
  intro c hc
  obtain ⟨tail, rfl⟩ := List.head?_eq_some_iff.mp hc
  by_contra hblank
  have hmeasure := measure_spelling h setApart_nil
  rw [List.append_nil, measure_blanks (by simpa using hblank)] at hmeasure
  exact nomatch hmeasure

/-- Inside a source a mark is rubbish. -/
theorem measure_mark {cs : List Char} :
    measure (byteOrderMark :: cs) = (.token .error, 1) := by
  have hbegins : ∀ entry ∈ operatorTable,
      entry.1.head?.any (decide <| · ≠ byteOrderMark) = true := by
    decide
  have hnone : leadingOperator (byteOrderMark :: cs) = none := by
    rw [leadingOperator, List.find?_eq_none]
    intro entry hentry hprefix
    obtain ⟨after, hafter⟩ := List.isPrefixOf_iff_prefix.mp hprefix
    have hentry := hbegins entry hentry
    cases hspelling : entry.1 with
    | nil =>
      rw [hspelling] at hentry
      exact nomatch hentry
    | cons x spelling =>
      rw [hspelling, List.cons_append] at hafter
      obtain ⟨rfl, -⟩ := List.cons.inj hafter
      rw [hspelling] at hentry
      exact nomatch hentry
  rw [measure_token (.of_ne (by decide)), if_neg (by decide +kernel), startsNumber_cons,
    if_neg (by simp [byteOrderMark]), if_neg (by decide), if_neg (by decide), if_neg (by decide),
    hnone]

theorem IsSpelling.head_not_mark (h : IsSpelling kind text) (hkind : kind ≠ .error) :
    text.head? ≠ some byteOrderMark := by
  intro hhead
  obtain ⟨tail, rfl⟩ := List.head?_eq_some_iff.mp hhead
  have hmeasure := measure_spelling h setApart_nil
  rw [List.append_nil, measure_mark] at hmeasure
  exact hkind (PieceKind.token.inj (congrArg Prod.fst hmeasure)).symm

/-- A run of blanks, up to what begins otherwise, is one piece. -/
theorem measure_blank (hne : text ≠ []) (htext : ∀ c ∈ text, isBlank c = true)
    (hrest : ∀ c ∈ rest.head?, isBlank c = false) :
    measure (text ++ rest) = (.blank, text.length) := by
  have hrun := takeWhile_run htext hrest
  cases text with
  | nil => exact absurd rfl hne
  | cons c text => rw [List.cons_append, measure_blanks (htext c List.mem_cons_self),
      ← List.cons_append, hrun]

/-- Blanks are all the blanks there are. -/
theorem not_blank_after (hne : text ≠ []) (htext : ∀ c ∈ text, isBlank c = true)
    (h : measure (text ++ rest) = (.blank, text.length)) :
    ∀ c ∈ rest.head?, isBlank c = false := by
  intro c hc
  obtain ⟨rest, rfl⟩ := List.head?_eq_some_iff.mp hc
  by_contra hblank
  rw [Bool.not_eq_false] at hblank
  obtain ⟨d, text, rfl⟩ := List.exists_cons_of_ne_nil hne
  have hd : isBlank d = true := htext d List.mem_cons_self
  rw [List.cons_append, measure_blanks hd, ← List.cons_append, List.takeWhile_append_of_pos htext,
    List.takeWhile_cons_of_pos hblank] at h
  have hlength := congrArg Prod.snd h
  simp only [List.length_append, List.length_cons] at hlength
  omega

theorem IsCut.blanks (hne : text ≠ []) (htext : ∀ c ∈ text, isBlank c = true)
    (hrest : ∀ c ∈ rest.head?, isBlank c = false) (hcut : IsCut rest ps) :
    IsCut (text ++ rest) (⟨.blank, text⟩ :: ps) :=
  .piece hne (measure_blank hne htext hrest) hcut

theorem head?_dropWhile_append {p : Char → Bool} (hrest : ∀ c ∈ rest.head?, p c = false) :
    ∀ c ∈ (text.dropWhile p ++ rest).head?, p c = false := by
  intro c hc
  have hdropped := List.head?_dropWhile_not p text
  cases hlater : text.dropWhile p with
  | nil =>
    rw [hlater] at hc
    exact hrest c hc
  | cons x later =>
    rw [hlater] at hc hdropped
    obtain rfl := Option.some.inj hc
    exact hdropped

/-- White space is cut off from what begins otherwise, and into pieces of
white space. -/
theorem exists_isCut_whites (hgap : ∀ c ∈ gap, c ∈ whites)
    (hrest : ∀ c ∈ rest.head?, isBlank c = false) (hcut : IsCut rest ps) :
    ∃ qs, IsCut (gap ++ rest) qs ∧
      Layout.ofPieces qs = ⟨gap ++ (Layout.ofPieces ps).lead, (Layout.ofPieces ps).words⟩ ∧
      ∀ q ∈ qs, q ∈ ps ∨ q.kind = .blank ∨ q.kind = .newline := by
  induction hn : gap.length using Nat.strongRecOn generalizing gap with
  | ind n ih =>
    cases gap with
    | nil => exact ⟨ps, hcut, rfl, fun q hq => .inl hq⟩
    | cons c gap =>
      by_cases hc : isBlank c = true
      · have hsplit := List.takeWhile_append_dropWhile (p := isBlank) (l := c :: gap)
        have hne : (c :: gap).takeWhile isBlank ≠ [] := by
          rw [List.takeWhile_cons_of_pos hc]
          exact List.cons_ne_nil _ _
        have hlength := congrArg List.length hsplit
        have hpos := List.length_pos_iff.mpr hne
        rw [List.length_append] at hlength
        have hlater : ∀ x ∈ (c :: gap).dropWhile isBlank, x ∈ whites := fun x hx =>
          hgap x ((List.dropWhile_sublist _).subset hx)
        obtain ⟨qs, hqs, hlayout, hkinds⟩ := ih _ (by omega) hlater rfl
        have hcut := IsCut.blanks hne (fun x hx => List.mem_takeWhile_imp hx)
          (head?_dropWhile_append hrest) hqs
        rw [← List.append_assoc, hsplit] at hcut
        refine ⟨_, hcut, ?_, List.forall_mem_cons.mpr ⟨.inr (.inl rfl), hkinds⟩⟩
        have hkind : ∀ kind, PieceKind.blank ≠ .token kind := nofun
        rw [Layout.ofPieces_gap hkind, hlayout, ← List.append_assoc, hsplit]
      · have hwhite := Piece.mem_whites.mp (hgap c List.mem_cons_self)
        obtain rfl := hwhite.resolve_left hc
        rw [List.length_cons] at hn
        obtain ⟨qs, hqs, hlayout, hkinds⟩ := ih gap.length (by omega)
          (fun x hx => hgap x (List.mem_cons_of_mem _ hx)) rfl
        have hcut : IsCut (['\n'] ++ (gap ++ rest)) (⟨.newline, ['\n']⟩ :: qs) :=
          .piece (List.cons_ne_nil _ _) measure_newline hqs
        refine ⟨_, hcut, ?_, List.forall_mem_cons.mpr ⟨.inr (.inr rfl), hkinds⟩⟩
        have hkind : ∀ kind, PieceKind.newline ≠ .token kind := nofun
        rw [Layout.ofPieces_gap hkind, hlayout]
        rfl

/-- A text that begins without a mark is cut as it is. -/
theorem pieces_eq {cs : List Char} (h : IsCut cs ps) (hmark : cs.head? ≠ some byteOrderMark) :
    pieces cs = ps := by
  unfold pieces
  split
  · exact cut_eq h (Nat.le_refl 0) []
  · next c rest =>
    rw [if_neg fun hc => hmark (congrArg some hc)]
    exact cut_eq h (Nat.le_refl _) []

/-- A source begins with a mark, or has none. -/
theorem exists_mark (source : List Char) : ∃ mark rest, source = mark ++ rest ∧
    (mark = [byteOrderMark] ∨ mark = [] ∧ rest.head? ≠ some byteOrderMark) := by
  by_cases hhead : source.head? = some byteOrderMark
  · obtain ⟨rest, hrest⟩ := List.head?_eq_some_iff.mp hhead
    exact ⟨[byteOrderMark], rest, hrest, .inl rfl⟩
  · exact ⟨[], source, rfl, .inr ⟨rfl, hhead⟩⟩

/-- What is cut behind a mark, or without one. -/
theorem pieces_marked {mark cs : List Char} (h : IsCut cs ps)
    (hmark : mark = [byteOrderMark] ∨ mark = [] ∧ cs.head? ≠ some byteOrderMark) :
    pieces (mark ++ cs) = mark.map (fun c => ⟨.byteOrderMark, [c]⟩) ++ ps := by
  rcases hmark with rfl | ⟨rfl, hhead⟩
  · exact cut_eq h (Nat.le_refl _) [⟨.byteOrderMark, [byteOrderMark]⟩]
  · exact pieces_eq h hhead

/-- A mark only moves the lexer. -/
theorem run_marked {mark cs : List Char} (h : IsCut cs ps)
    (hmark : mark = [byteOrderMark] ∨ mark = [] ∧ cs.head? ≠ some byteOrderMark) :
    Lexer.run (pieces (mark ++ cs)) = (ps.foldl Lexer.step
      { Lexer.start with here := Location.first.pastAll mark }).finish := by
  rw [pieces_marked h hmark]
  rcases hmark with rfl | ⟨rfl, -⟩ <;> rfl

end Piece

namespace Layout

/-- Plain words are cut apart. -/
theorem exists_isCut_words {ws : List Word} (h : ArePlain ws) :
    ∃ ps, IsCut (textFrom ws) ps ∧ ofPieces ps = ⟨[], ws⟩ := by
  induction ws with
  | nil => exact ⟨[], .nil, rfl⟩
  | cons w ws ih =>
    obtain ⟨hw, hlast, hws⟩ := h
    obtain ⟨ps, hps, hlayout⟩ := ih hws
    have hnext : ∀ c ∈ (textFrom ws).head?, isBlank c = false := by
      cases ws with
      | nil => exact nofun
      | cons w ws =>
        obtain ⟨c, tail, htext⟩ := List.exists_cons_of_ne_nil hws.1.spelling.ne_nil
        have hblank := hws.1.spelling.head_not_blank
        rw [htext] at hblank
        rw [textFrom, List.flatMap_cons, htext]
        exact hblank
    have hapart : SetApart (w.gap ++ textFrom ws) := by
      cases hgap : w.gap with
      | nil =>
        rw [hlast hgap]
        exact Piece.setApart_nil
      | cons c gap =>
        exact Piece.setApart_cons.mpr (hw.gap c (hgap ▸ List.mem_cons_self))
    obtain ⟨qs, hqs, hgap, -⟩ := Piece.exists_isCut_whites hw.gap hnext hps
    refine ⟨⟨.token w.kind, w.text⟩ :: qs, ?_, ?_⟩
    · have hmeasure := Piece.measure_spelling hw.spelling hapart
      have htext : textFrom (w :: ws) = w.text ++ (w.gap ++ textFrom ws) := by
        rw [textFrom, List.flatMap_cons, List.append_assoc]
        rfl
      rw [htext]
      exact .piece hw.spelling.ne_nil hmeasure hqs
    · rw [ofPieces, hgap, hlayout]
      simp

/-- Plain words do not begin with a mark. -/
theorem head_textFrom {ws : List Word} (h : ArePlain ws) :
    (textFrom ws).head? ≠ some byteOrderMark := by
  cases ws with
  | nil => exact nofun
  | cons w ws =>
    obtain ⟨c, tail, htext⟩ := List.exists_cons_of_ne_nil h.1.spelling.ne_nil
    have hmark := h.1.spelling.head_not_mark h.1.meant
    rw [htext] at hmark
    rw [textFrom, List.flatMap_cons, htext]
    exact hmark

end Layout

namespace Token.Stream

/-- A text of plain words is read as it is laid out. -/
theorem ofSource_plain {ws : List Word} (h : Layout.ArePlain ws) :
    (ofSource (.ofList (Layout.textFrom ws))).tokens = (⟨[], ws⟩ : Layout).tokens := by
  obtain ⟨ps, hps, hlayout⟩ := Layout.exists_isCut_words h
  have hpieces : Piece.pieces (String.ofList (Layout.textFrom ws)).toList =
      [].map (fun c => ⟨.byteOrderMark, [c]⟩) ++ ps := by
    rw [String.toList_ofList, List.map_nil, List.nil_append]
    exact Piece.pieces_eq hps (Layout.head_textFrom h)
  rw [ofSource_tokens (.inl rfl) hps hpieces, hlayout]
  rfl

end Token.Stream

-- ============================================================ written out

namespace Layout

/-- The texts of the semicolons that a word causes. -/
def semicolonTexts (w : Word) (last : Bool) : List String :=
  if w.kind.endsStatement then
    if '\n' ∈ w.gap then ["\n"] else if last then [""] else []
  else []

/-- Kinds and texts of the tokens of words. -/
def spelled : List Word → List (Token.Kind × String)
  | [] => []
  | w :: ws => (w.kind, .ofList w.text) ::
      (semicolonTexts w ws.isEmpty).map (Token.Kind.semi, ·) ++ spelled ws

theorem spelled_semicolon {w : Word} {last : Bool} {l : Location} :
    (semicolon w.kind.endsStatement w.gap last l).map (fun t => (t.kind, t.text)) =
      (semicolonTexts w last).map (Token.Kind.semi, ·) := by
  unfold semicolon semicolonTexts
  split
  · split
    · rfl
    · split <;> rfl
  · rfl

theorem spelled_tokensFrom (ws : List Word) (l : Location) :
    (tokensFrom l ws).map (fun t => (t.kind, t.text)) = spelled ws := by
  induction ws generalizing l with
  | nil => rfl
  | cons w ws ih =>
    rw [tokensFrom, spelled, List.cons_append, List.map_cons, List.map_append, spelled_semicolon,
      ih]
    rfl

theorem mem_spelled {w : Word} {ws : List Word} (hw : w ∈ ws) :
    (w.kind, String.ofList w.text) ∈ spelled ws := by
  induction ws with
  | nil => exact nomatch hw
  | cons w' ws ih =>
    rcases List.mem_cons.mp hw with rfl | hw
    · exact List.mem_cons_self
    · exact List.mem_append_right (_ :: _) (ih hw)

/-- What is left of a gap: the semicolons, and spaces. -/
def respacedGap (w : Word) (last : Bool) : List Char :=
  ((semicolonTexts w last).flatMap fun text => ' ' :: text.toList) ++ if last then [] else [' ']

/-- Words, written out with their semicolons. -/
def respaced : List Word → List Word
  | [] => []
  | w :: ws => { w with gap := respacedGap w ws.isEmpty } :: respaced ws

variable {w : Word} {ws : List Word} {last : Bool}

theorem isEmpty_respaced : (respaced ws).isEmpty = ws.isEmpty := by
  cases ws <;> rfl

theorem respacedGap_whites : ∀ c ∈ respacedGap w last, c ∈ whites := by
  unfold respacedGap semicolonTexts
  split
  · split
    · cases last <;> simp [whites]
    · cases last <;> simp [whites]
  · cases last <;> simp [whites]

/-- A gap that has been written out adds what it added before. -/
theorem semicolonTexts_respaced :
    semicolonTexts { w with gap := respacedGap w last } last = semicolonTexts w last := by
  unfold respacedGap semicolonTexts
  dsimp only
  by_cases hends : w.kind.endsStatement = true
  · by_cases hgap : '\n' ∈ w.gap
    · cases last <;> simp [hends, hgap]
    · cases last <;> simp [hends, hgap]
  · simp [hends]

theorem spelled_respaced : spelled (respaced ws) = spelled ws := by
  induction ws with
  | nil => rfl
  | cons w ws ih =>
    rw [respaced, spelled, spelled, isEmpty_respaced, semicolonTexts_respaced, ih]

theorem arePlain_respaced (hspelling : ∀ w ∈ ws, IsSpelling w.kind w.text)
    (hmeant : ∀ w ∈ ws, w.kind ≠ .error) : ArePlain (respaced ws) := by
  induction ws with
  | nil => trivial
  | cons w ws ih =>
    rw [List.forall_mem_cons] at hspelling hmeant
    refine ⟨⟨hspelling.1, hmeant.1, respacedGap_whites⟩, ?_, ih hspelling.2 hmeant.2⟩
    intro hgap
    cases ws with
    | nil => rfl
    | cons w' ws =>
      have hspace := List.append_eq_nil_iff.mp hgap
      exact nomatch hspace.2

/-- A space before each token, the first included. -/
theorem text_respaced (hne : ws ≠ []) : ' ' :: textFrom (respaced ws) =
    (spelled ws).flatMap fun s => ' ' :: s.2.toList := by
  induction ws with
  | nil => exact absurd rfl hne
  | cons w ws ih =>
    have hlater : (if ws.isEmpty then [] else [' ']) ++ textFrom (respaced ws) =
        (spelled ws).flatMap fun s => ' ' :: s.2.toList := by
      cases ws with
      | nil => rfl
      | cons w' ws => exact ih (List.cons_ne_nil _ _)
    rw [respaced, textFrom, List.flatMap_cons, spelled, List.cons_append, List.flatMap_cons,
      List.flatMap_append, List.flatMap_map, ← hlater, String.toList_ofList, respacedGap]
    simp [textFrom]

theorem intercalate_space {texts : List (List Char)} (hne : texts ≠ []) :
    ' ' :: [' '].intercalate texts = texts.flatMap (' ' :: ·) := by
  induction texts with
  | nil => exact absurd rfl hne
  | cons text texts ih =>
    cases texts with
    | nil => simp
    | cons text' texts =>
      rw [List.intercalate_cons_cons, List.flatMap_cons, ← ih (List.cons_ne_nil _ _)]
      simp

theorem textFrom_respaced :
    textFrom (respaced ws) = [' '].intercalate ((spelled ws).map (·.2.toList)) := by
  cases ws with
  | nil => rfl
  | cons w ws =>
    have htext := text_respaced (List.cons_ne_nil w ws)
    have hne : (spelled (w :: ws)).map (·.2.toList) ≠ [] := List.cons_ne_nil _ _
    have hspaces := intercalate_space hne
    rw [List.flatMap_map, ← htext] at hspaces
    exact (List.cons.inj hspaces).2.symm

end Layout

namespace Token.Stream

/-- Kinds and texts of the tokens. -/
def spelled (s : Token.Stream) : List (Token.Kind × String) :=
  s.tokens.map fun t => (t.kind, t.text)

/-- The tokens, written behind one another with a space between each two. -/
def writtenOut (s : Token.Stream) : String := " ".intercalate (s.tokens.map (·.text))

/-- The tokens of a source without rubbish, written out, are read back. -/
theorem ofSource_writtenOut (source : String)
    (hmeant : ∀ t ∈ (ofSource source).tokens, t.kind ≠ .error) :
    (ofSource (ofSource source).writtenOut).spelled = (ofSource source).spelled := by
  obtain ⟨mark, rest, ps, -, hmark, hps, hpieces⟩ := Piece.exists_pieces source.toList
  have hspelled : (ofSource source).spelled = Layout.spelled (Layout.ofPieces ps).words := by
    rw [spelled, ofSource_tokens hmark hps hpieces]
    exact Layout.spelled_tokensFrom _ _
  have hkinds : ∀ w ∈ (Layout.ofPieces ps).words, w.kind ≠ .error := by
    intro w hw
    have hmem := Layout.mem_spelled hw
    rw [← hspelled] at hmem
    obtain ⟨t, ht, heq⟩ := List.mem_map.mp hmem
    have hkind : t.kind = w.kind := congrArg Prod.fst heq
    rw [← hkind]
    exact hmeant t ht
  have hspelling : ∀ w ∈ (Layout.ofPieces ps).words, IsSpelling w.kind w.text := fun w hw =>
    (Layout.isSpelling_ofPieces hps w hw).resolve_right (hkinds w hw)
  have hplain := Layout.arePlain_respaced hspelling hkinds
  have htext : (ofSource source).writtenOut =
      .ofList (Layout.textFrom (Layout.respaced (Layout.ofPieces ps).words)) := by
    have htexts : (ofSource source).tokens.map (·.text) =
        (Layout.spelled (Layout.ofPieces ps).words).map (·.2) := by
      rw [← hspelled, spelled, List.map_map]
      rfl
    rw [← String.toList_inj, String.toList_ofList, Layout.textFrom_respaced, writtenOut,
      String.toList_intercalate, htexts, List.map_map]
    rfl
  rw [htext, spelled, ofSource_plain hplain, Layout.tokens, Layout.spelled_tokensFrom,
    Layout.spelled_respaced, hspelled]

/-- Numbers that end in a point, a comment with a newline and the last
line, whose semicolon has no text. -/
theorem ofSource_writtenOut_lines :
    (∀ t ∈ (ofSource "f(1., 0xp) /*\n*/ x++").tokens, t.kind ≠ .error) ∧
    (ofSource (ofSource "f(1., 0xp) /*\n*/ x++").writtenOut).spelled =
      (ofSource "f(1., 0xp) /*\n*/ x++").spelled :=
  ⟨by decide +kernel, ofSource_writtenOut _ (by decide +kernel)⟩

end Token.Stream

end GoSource
