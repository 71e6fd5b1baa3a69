/-
A source is cut into pieces, and nothing is lost.

What is measured at a place is there (`measure_finds`): a beginning of the
text that has the shape of its kind. So the pieces of a source, put
together, are the source, and each of them is the longest at its place
(`IsCut`). A text can be cut in one way only (`cut_eq`), which is why one
may say what the pieces of a text are and need not count.

What separates tokens is white space and comments (`IsGap`).
-/
import GoSource.Proofs.Lexing.Spelling
import Mathlib.Data.List.TakeWhile

namespace GoSource.Piece

variable {c : Char} {cs text : List Char} {kind : Token.Kind}

-- ================================================================ found

/-- What a piece of a kind looks like, and what may follow it. -/
inductive Found : PieceKind → (text after : List Char) → Prop
  | blank {text after : List Char} (htext : ∀ c ∈ text, isBlank c = true) (hne : text ≠ []) :
      Found .blank text after
  | newline {after : List Char} : Found .newline ['\n'] after
  | lineComment {body after : List Char} (hbody : '\n' ∉ body)
      (hafter : ∀ c ∈ after.head?, c = '\n') : Found .lineComment ('/' :: '/' :: body) after
  | blockComment {body after : List Char} (hbody : ¬['*', '/'] <:+: body) :
      Found .blockComment ('/' :: '*' :: (body ++ ['*', '/'])) after
  | token {kind : Token.Kind} {text after : List Char} (h : IsSpelling kind text) :
      Found (.token kind) text after
  | rubbish {text after : List Char} (hne : text ≠ []) : Found (.token .error) text after

/-- A beginning of a text with its length is what is found there. -/
def Finds (cs : List Char) (found : PieceKind × Nat) : Prop :=
  ∃ text after, cs = text ++ after ∧ found.2 = text.length ∧ Found found.1 text after

theorem Finds.intro {found : PieceKind × Nat} {text after : List Char}
    (hlength : found.2 = text.length) (h : Found found.1 text after) :
    Finds (text ++ after) found :=
  ⟨text, after, rfl, hlength, h⟩

theorem finds_rubbish (hne : cs ≠ []) : Finds cs (.token .error, cs.length) := by
  rw [← List.append_nil cs]
  exact .intro (by simp) (.rubbish (by simpa using hne))

theorem finds_one : Finds (c :: cs) (.token .error, 1) :=
  ⟨[c], cs, rfl, rfl, .rubbish (List.cons_ne_nil _ _)⟩

/-- A run of characters of a class. -/
theorem finds_takeWhile {p : Char → Bool} {piece : PieceKind} (cs : List Char)
    (h : Found piece (cs.takeWhile p) (cs.dropWhile p)) :
    Finds cs (piece, (cs.takeWhile p).length) :=
  ⟨cs.takeWhile p, cs.dropWhile p, List.takeWhile_append_dropWhile.symm, rfl, h⟩

theorem finds_blank (hc : isBlank c = true) :
    Finds (c :: cs) (.blank, ((c :: cs).takeWhile isBlank).length) := by
  refine finds_takeWhile _ (.blank (fun x hx => List.mem_takeWhile_imp hx) ?_)
  rw [List.takeWhile_cons_of_pos hc]
  exact List.cons_ne_nil _ _

theorem finds_lineComment : Finds ('/' :: '/' :: cs)
    (.lineComment, (('/' :: '/' :: cs).takeWhile (decide <| · ≠ '\n')).length) := by
  have hbody : '\n' ∉ cs.takeWhile (decide <| · ≠ '\n') := by
    intro hmem
    have hne := List.mem_takeWhile_imp hmem
    exact Bool.false_ne_true hne
  have hafter : ∀ c ∈ (cs.dropWhile (decide <| · ≠ '\n')).head?, c = '\n' := by
    intro c hc
    rw [Option.mem_def, ← List.find?_not_eq_head?_dropWhile] at hc
    simpa using List.find?_some hc
  exact finds_takeWhile _ (.lineComment hbody hafter)

theorem finds_blockComment : Finds ('/' :: '*' :: cs)
    (match closingComment 2 cs with
      | some n => (.blockComment, n)
      | none => (.token .error, ('/' :: '*' :: cs).length)) := by
  split
  · next n hn =>
    obtain ⟨body, after, rfl, hbody, rfl⟩ := closingComment_split hn
    have htext : '/' :: '*' :: (body ++ '*' :: '/' :: after) =
        '/' :: '*' :: (body ++ ['*', '/']) ++ after := by
      simp
    rw [htext]
    refine .intro ?_ (.blockComment hbody)
    simp
    omega
  · exact finds_rubbish (List.cons_ne_nil _ _)

theorem finds_word (hc : startsWord c = true) : Finds (c :: cs)
    (.token (wordKind ((c :: cs).takeWhile continuesWord)),
      ((c :: cs).takeWhile continuesWord).length) := by
  refine finds_takeWhile _ (.token ?_)
  rw [List.takeWhile_cons_of_pos (continuesWord_of_startsWord hc)]
  exact .word hc fun x hx => List.mem_takeWhile_imp hx

theorem finds_number (hstart : startsNumber cs = true) : Finds cs
    (.token (numberKind (cs.take (numberLength cs))), numberLength cs) := by
  obtain ⟨text, after, rfl, hlength, htext, hself⟩ := number_split hstart
  rw [hlength, List.take_left]
  exact .intro rfl (.token (.number htext hself))

/-- A quoted literal, if it ends, is well formed or rubbish. -/
theorem finds_quoted {isShape : List Char → Bool} {text after : List Char} {n : Nat}
    (hn : n = text.length) (hne : text ≠ [])
    (h : isShape text = true → IsSpelling kind text) :
    Finds (text ++ after) (measureQuoted kind isShape (text ++ after) (some n)) := by
  rw [measureQuoted_some hn]
  refine .intro rfl ?_
  by_cases hshape : isShape text = true
  · rw [if_pos hshape]
    exact .token (h hshape)
  · rw [if_neg hshape]
    exact .rubbish hne

theorem finds_rawString : Finds ('\x60' :: cs)
    (measureQuoted .rawStringLit (fun _ => true) ('\x60' :: cs) (closingBackquote 1 cs)) := by
  cases hend : closingBackquote 1 cs with
  | none => exact finds_one
  | some n =>
    obtain ⟨body, after, rfl, hbody, rfl⟩ := closingBackquote_split hend
    have htext : '\x60' :: (body ++ '\x60' :: after) = '\x60' :: (body ++ ['\x60']) ++ after := by
      simp
    rw [htext]
    refine finds_quoted ?_ (List.cons_ne_nil _ _) fun _ => .rawString hbody
    simp
    omega

/-- Where a quote ends, and that it ends there by itself. -/
theorem closingQuote_inside {quote : Char} {n : Nat} (h : closingQuote quote 1 cs = some n) :
    ∃ body after, cs = body ++ after ∧ n = (quote :: body).length ∧
      closingQuote quote 1 body = some (1 + body.length) := by
  obtain ⟨body, after, hbody, hlength, hagain⟩ := closingQuote_split h
  have hself := hagain []
  rw [List.append_nil, hlength] at hself
  exact ⟨body, after, hbody, by rw [hlength, List.length_cons, Nat.add_comm], hself⟩

theorem finds_string : Finds ('\x22' :: cs)
    (measureQuoted .stringLit isStringShape ('\x22' :: cs) (closingQuote '\x22' 1 cs)) := by
  cases hend : closingQuote '\x22' 1 cs with
  | none => exact finds_one
  | some n =>
    obtain ⟨body, after, rfl, hlength, hself⟩ := closingQuote_inside hend
    exact finds_quoted hlength (List.cons_ne_nil _ _) fun hshape => .string hself hshape

theorem finds_rune : Finds ('\x27' :: cs) (measureQuoted .runeLit isRuneShape ('\x27' :: cs)
    ((closingQuote '\x27' 1 cs).filter (decide <| · > 2))) := by
  cases hend : (closingQuote '\x27' 1 cs).filter (decide <| · > 2) with
  | none => exact finds_one
  | some n =>
    obtain ⟨hclosed, hlong⟩ := Option.filter_eq_some_iff.mp hend
    obtain ⟨body, after, rfl, hlength, hself⟩ := closingQuote_inside hclosed
    have hlong : 1 < body.length := by
      rw [decide_eq_true_eq, hlength, List.length_cons] at hlong
      omega
    exact finds_quoted hlength (List.cons_ne_nil _ _) fun hshape => .rune hself hlong hshape

theorem finds_operator : Finds (c :: cs)
    (match leadingOperator (c :: cs) with
      | some (spelling, kind) => (.token kind, spelling.length)
      | none => (.token .error, 1)) := by
  split
  · next spelling kind h =>
    unfold leadingOperator at h
    have hprefix := List.find?_some h
    obtain ⟨after, hafter⟩ := List.isPrefixOf_iff_prefix.mp hprefix
    rw [← hafter]
    exact .intro rfl (.token (.operator (List.mem_of_find?_eq_some h)))
  · exact finds_one

/-- Whatever is measured is found. -/
theorem measure_finds (c : Char) (cs : List Char) : Finds (c :: cs) (measure (c :: cs)) := by
  rw [measure.eq_def]
  dsimp only
  split
  · next hc => exact finds_blank hc
  split
  · next hc =>
    rw [hc]
    exact ⟨['\n'], cs, rfl, rfl, .newline⟩
  split
  · next hline =>
    rw [Bool.and_eq_true, decide_eq_true_eq, decide_eq_true_eq] at hline
    obtain ⟨rfl, hnext⟩ := hline
    obtain ⟨cs, rfl⟩ := List.head?_eq_some_iff.mp hnext
    exact finds_lineComment
  split
  · next hblock =>
    rw [Bool.and_eq_true, decide_eq_true_eq, decide_eq_true_eq] at hblock
    obtain ⟨rfl, hnext⟩ := hblock
    obtain ⟨cs, rfl⟩ := List.head?_eq_some_iff.mp hnext
    exact finds_blockComment
  split
  · next hc => exact finds_word hc
  split
  · next hstart => exact finds_number hstart
  split
  · next hc =>
    rw [hc]
    exact finds_rawString
  split
  · next hc =>
    rw [hc]
    exact finds_string
  split
  · next hc =>
    rw [hc]
    exact finds_rune
  exact finds_operator

theorem found_of_measure {piece : PieceKind} {after : List Char} (hne : text ≠ [])
    (h : measure (text ++ after) = (piece, text.length)) : Found piece text after := by
  cases text with
  | nil => exact absurd rfl hne
  | cons c text =>
    obtain ⟨text', after', htext, hlength, hfound⟩ := measure_finds c (text ++ after)
    rw [← List.cons_append, h] at hlength hfound
    obtain ⟨rfl, rfl⟩ := List.append_inj htext hlength
    exact hfound

theorem Found.spelling {piece : PieceKind} {after : List Char} (h : Found piece text after)
    (hkind : piece = .token kind) : IsSpelling kind text ∨ kind = .error := by
  cases h with
  | token hspelling =>
    obtain rfl := PieceKind.token.inj hkind
    exact .inl hspelling
  | rubbish => exact .inr (PieceKind.token.inj hkind).symm
  | blank | newline | lineComment | blockComment => exact nomatch hkind

-- ================================================================= cuts

/-- Pieces that a text is cut into: each is measured where the one before
it ends. -/
inductive IsCut : List Char → List Piece → Prop
  | nil : IsCut [] []
  | piece {text after : List Char} {kind : PieceKind} {ps : List Piece} (hne : text ≠ [])
      (hmeasure : measure (text ++ after) = (kind, text.length)) (hrest : IsCut after ps) :
      IsCut (text ++ after) (⟨kind, text⟩ :: ps)

variable {ps : List Piece}

/-- Every text can be cut, since each piece takes some of it. -/
theorem exists_isCut (cs : List Char) : ∃ ps, IsCut cs ps := by
  induction hn : cs.length using Nat.strongRecOn generalizing cs with
  | ind n ih =>
    cases cs with
    | nil => exact ⟨[], .nil⟩
    | cons c cs =>
      obtain ⟨text, after, htext, hlength, -⟩ := measure_finds c cs
      have hpos := measure_pos c cs
      have hsum := congrArg List.length htext
      rw [List.length_append] at hsum
      obtain ⟨ps, hps⟩ := ih after.length (by omega) after rfl
      have hne : text ≠ [] := by
        rintro rfl
        exact Nat.ne_of_gt hpos hlength
      rw [htext] at hlength ⊢
      exact ⟨_, .piece hne (Prod.ext rfl hlength) hps⟩

/-- A text that can be cut into some pieces is cut into these. -/
theorem cut_eq (h : IsCut cs ps) {fuel : Nat} (hfuel : cs.length ≤ fuel) (done : List Piece) :
    cut fuel cs done = done.reverse ++ ps := by
  induction h generalizing fuel done with
  | nil =>
    rw [List.append_nil]
    cases fuel <;> rfl
  | @piece text after kind ps hne hmeasure hrest ih =>
    obtain ⟨c, text, rfl⟩ := List.exists_cons_of_ne_nil hne
    cases fuel with
    | zero => exact nomatch hfuel
    | succ fuel =>
      rw [List.length_append, List.length_cons] at hfuel
      rw [List.cons_append, cut, ← List.cons_append, hmeasure]
      dsimp only
      rw [List.drop_left, List.take_left, ih (by omega), List.reverse_cons, List.append_assoc,
        List.singleton_append]

/-- What is measured at the beginning is the first piece. -/
theorem IsCut.uncons {after : List Char} {piece : PieceKind} (h : IsCut (text ++ after) ps)
    (hne : text ≠ []) (hmeasure : measure (text ++ after) = (piece, text.length)) :
    ∃ qs, ps = ⟨piece, text⟩ :: qs ∧ IsCut after qs := by
  generalize hcs : text ++ after = cs at h
  cases h with
  | nil => exact absurd (List.append_eq_nil_iff.mp hcs).1 hne
  | @piece text' after' kind qs hne' hmeasure' hrest =>
    rw [hcs, hmeasure'] at hmeasure
    obtain ⟨rfl, hlength⟩ := Prod.mk.inj hmeasure
    obtain ⟨rfl, rfl⟩ := List.append_inj hcs hlength.symm
    exact ⟨qs, rfl, hrest⟩

theorem isCut_text (h : IsCut cs ps) : ps.flatMap (·.text) = cs := by
  induction h with
  | nil => rfl
  | piece hne hmeasure hrest ih => rw [List.flatMap_cons, ih]

/-- The pieces of a source: a mark at the beginning, if there is one, and
what the rest is cut into. -/
theorem exists_pieces (source : List Char) : ∃ mark rest ps, source = mark ++ rest ∧
    (mark = [] ∨ mark = [byteOrderMark]) ∧ IsCut rest ps ∧
    pieces source = mark.map (fun c => ⟨.byteOrderMark, [c]⟩) ++ ps := by
  unfold pieces
  split
  · exact ⟨[], [], [], rfl, .inl rfl, .nil, rfl⟩
  · next c rest =>
    split
    · next hc =>
      obtain ⟨ps, hps⟩ := exists_isCut rest
      refine ⟨[byteOrderMark], rest, ps, by rw [hc]; rfl, .inr rfl, hps, ?_⟩
      rw [cut_eq hps (Nat.le_refl _), hc]
      rfl
    · obtain ⟨ps, hps⟩ := exists_isCut (c :: rest)
      exact ⟨[], c :: rest, ps, rfl, .inl rfl, hps, cut_eq hps (Nat.le_refl _) []⟩

theorem IsCut.found (h : IsCut cs ps) : ∀ p ∈ ps, ∃ after, Found p.kind p.text after := by
  induction h with
  | nil => exact nofun
  | piece hne hmeasure hrest ih =>
    rw [List.forall_mem_cons]
    exact ⟨⟨_, found_of_measure hne hmeasure⟩, ih⟩

/-- The pieces, put together, are the source. -/
theorem pieces_text (source : List Char) : (pieces source).flatMap (·.text) = source := by
  obtain ⟨mark, rest, ps, rfl, hmark, hps, hpieces⟩ := exists_pieces source
  rw [hpieces, List.flatMap_append, isCut_text hps]
  rcases hmark with rfl | rfl
  · rfl
  · rfl

-- ================================================================= gaps

/-- White space and comments. -/
inductive IsGap : List Char → Prop
  | nil : IsGap []
  | white {c : Char} {gap : List Char} (hc : c ∈ whites) (h : IsGap gap) : IsGap (c :: gap)
  | line {body gap : List Char} (hbody : '\n' ∉ body) (hend : ∀ c ∈ gap.head?, c = '\n')
      (h : IsGap gap) : IsGap ('/' :: '/' :: (body ++ gap))
  | block {body gap : List Char} (hbody : ¬['*', '/'] <:+: body) (h : IsGap gap) :
      IsGap ('/' :: '*' :: (body ++ '*' :: '/' :: gap))

theorem mem_whites : c ∈ whites ↔ isBlank c = true ∨ c = '\n' := by
  simp [whites, isBlank, or_assoc]

theorem IsGap.blanks {gap : List Char} (htext : ∀ c ∈ text, isBlank c = true) (h : IsGap gap) :
    IsGap (text ++ gap) := by
  induction text with
  | nil => exact h
  | cons c text ih =>
    rw [List.forall_mem_cons] at htext
    exact .white (mem_whites.mpr (.inl htext.1)) (ih htext.2)

end GoSource.Piece
