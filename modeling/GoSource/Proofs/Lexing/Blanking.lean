/-
Comments are blank to the lexer.

`blankComments source` is a source with the comments that the lexer delivers
overwritten by spaces, newlines excepted. It has the same tokens in the same
places, the semicolons included that nobody wrote, and no comments
(`ofSource_blankComments`).

The comments of a source are its pieces of these two kinds, so blanking is
done piece by piece (`blankFrom_pieces`). In the text that results, each
token is measured as before, and the blanked comments flow together with the
white space around them into the gaps between the tokens (`exists_isCut_blanked`).
A gap has changed then, but not its lines, and nothing but these matters to
where semicolons are inserted (`tokensFrom_blanked`).
-/
import GoSource.Proofs.Lexing.Blanks
import GoSource.Proofs.Lexing.Partition

namespace GoSource

open Piece (IsCut Found Blanks isBlank whites byteOrderMark)

-- ================================================================ blanking

namespace Token.Stream

/-- All comments, in order. -/
def comments (s : Token.Stream) : List Comment := s.lexemes.flatMap (·.comments) ++ s.trailing

/-- The same tokens without the comments. -/
def withoutComments (s : Token.Stream) : Token.Stream :=
  { lexemes := s.lexemes.map fun l => ⟨[], l.token⟩
    trailing := []
    stop := s.stop }

end Token.Stream

namespace Comment

/-- The place is in the comment. -/
def Covers (k : Comment) (l : Location) : Prop := k.span.start ≤ l ∧ l < k.span.stop

instance (k : Comment) (l : Location) : Decidable (k.Covers l) :=
  inferInstanceAs (Decidable (_ ∧ _))

/-- A text that begins at a place, with all that is in the comments
blanked. -/
def blankFrom (comments : List Comment) : Location → List Char → List Char
  | _, [] => []
  | l, c :: cs =>
    (if ∃ k ∈ comments, k.Covers l then blankChar c else [c]) ++ blankFrom comments (l.past c) cs

end Comment

/-- A source with its comments blanked. -/
def blankComments (source : String) : String :=
  .ofList (Comment.blankFrom (Token.Stream.ofSource source).comments .first source.toList)

-- a quote in a comment, a comment in a string, and a comment that never ends
example : blankComments "a /* \x22\n */ \x22//\x22 // é\nb /* c" =
    "a     \n    \x22//\x22      \nb /* c" := by
  decide +kernel

/-- A piece with what is comment blanked. -/
def Piece.blanked (p : Piece) : List Char :=
  match p.kind with
  | .lineComment | .blockComment => Comment.blank p.text
  | _ => p.text

namespace Comment

variable {comments done : List Comment} {k : Comment} {l : Location} {text : List Char}

theorem blankFrom_append (xs ys : List Char) : blankFrom comments l (xs ++ ys) =
    blankFrom comments l xs ++ blankFrom comments (l.pastAll xs) ys := by
  induction xs generalizing l with
  | nil => rfl
  | cons c xs ih =>
    rw [List.cons_append, blankFrom, blankFrom, ih, List.append_assoc, Location.pastAll_cons]

/-- A text without a place in a comment. -/
theorem blankFrom_outside
    (h : ∀ k ∈ comments, ∀ l', l ≤ l' → l' < l.pastAll text → ¬k.Covers l') :
    blankFrom comments l text = text := by
  induction text generalizing l with
  | nil => rfl
  | cons c text ih =>
    have hhere : ¬∃ k ∈ comments, k.Covers l := by
      rintro ⟨k, hk, hcovers⟩
      exact h k hk l (Location.le_refl l) (Location.lt_pastAll l (List.cons_ne_nil c text)) hcovers
    have hlater : blankFrom comments (l.past c) text = text := by
      apply ih
      intro k hk l' hl' hstop
      exact h k hk l' (Location.le_trans (Location.le_past l c) hl') hstop
    rw [blankFrom, if_neg hhere, hlater, List.singleton_append]

/-- A text all places of which are in a comment. -/
theorem blankFrom_inside (hk : k ∈ comments)
    (h : ∀ l', l ≤ l' → l' < l.pastAll text → k.Covers l') :
    blankFrom comments l text = blank text := by
  induction text generalizing l with
  | nil => rfl
  | cons c text ih =>
    have hhere : ∃ k ∈ comments, k.Covers l :=
      ⟨k, hk, h l (Location.le_refl l) (Location.lt_pastAll l (List.cons_ne_nil c text))⟩
    have hlater : blankFrom comments (l.past c) text = blank text := by
      apply ih
      intro l' hl' hstop
      exact h l' (Location.le_trans (Location.le_past l c) hl') hstop
    rw [blankFrom, if_pos hhere, hlater, blank_cons]

variable {before : List Char} {ps : List Piece}

/-- Comments begin no earlier than the pieces. -/
theorem start_of_placed (hk : k ∈ (placed before ps).filterMap (·.comment?)) :
    Location.first.pastAll before ≤ k.span.start := by
  obtain ⟨q, hq, hk⟩ := List.mem_filterMap.mp hk
  obtain ⟨more, hmore⟩ := (text_of_placed hq).1
  have hstart : k.span.start = Location.first.pastAll q.before := by
    unfold PlacedPiece.comment? at hk
    split at hk
    · rw [← Option.some.inj hk]
      rfl
    · rw [← Option.some.inj hk]
      rfl
    · exact nomatch hk
  rw [hstart, ← hmore, Location.pastAll_append]
  exact Location.le_pastAll _ _

/-- What is a comment is blanked, and what is not is left as it is. -/
theorem comment_or_not (p : Piece) :
    (∀ before, PlacedPiece.comment? ⟨before, p⟩ = none) ∧ p.blanked = p.text ∨
    (∀ before, PlacedPiece.comment? ⟨before, p⟩ =
      some (.ofText (PlacedPiece.span ⟨before, p⟩) p.text)) ∧ p.blanked = blank p.text := by
  obtain ⟨kind, text⟩ := p
  cases kind with
  | lineComment | blockComment => exact .inr ⟨fun _ => rfl, rfl⟩
  | _ => exact .inl ⟨fun _ => rfl, rfl⟩

/-- Pieces with their comments blanked, behind comments that have ended. -/
theorem blankFrom_pieces (hdone : ∀ k ∈ done, k.span.stop ≤ Location.first.pastAll before) :
    blankFrom (done ++ (placed before ps).filterMap (·.comment?)) (Location.first.pastAll before)
      (ps.flatMap (·.text)) = ps.flatMap Piece.blanked := by
  induction ps generalizing before done with
  | nil => rfl
  | cons p ps ih =>
    have hstop : Location.first.pastAll (before ++ p.text) =
        (Location.first.pastAll before).pastAll p.text :=
      Location.pastAll_append _ _ _
    have hle := Location.le_pastAll (Location.first.pastAll before) p.text
    have hlater : ∀ k ∈ done, k.span.stop ≤ Location.first.pastAll (before ++ p.text) := by
      intro k hk
      rw [hstop]
      exact Location.le_trans (hdone k hk) hle
    rw [List.flatMap_cons, List.flatMap_cons, blankFrom_append, ← hstop, placed]
    rcases comment_or_not p with ⟨hcomment, hblanked⟩ | ⟨hcomment, hblanked⟩
    · rw [List.filterMap_cons_none (hcomment before), hblanked, ih hlater, blankFrom_outside]
      intro k hk l' hl' hbefore hcovers
      rcases List.mem_append.mp hk with hk | hk
      · have hpast := Location.le_trans (hdone k hk) hl'
        exact Location.not_lt_self l' (Location.lt_of_lt_of_le hcovers.2 hpast)
      · rw [← hstop] at hbefore
        have hstart := Location.le_trans (start_of_placed hk) hcovers.1
        exact Location.not_lt_self l' (Location.lt_of_lt_of_le hbefore hstart)
    · rw [List.filterMap_cons_some (hcomment before), List.append_cons, ih, hblanked,
        blankFrom_inside]
      · exact List.mem_append_left _ (List.mem_append_right _ (List.mem_singleton_self _))
      · exact fun l' hl' hbefore => ⟨hl', hbefore⟩
      · intro k hk
        rcases List.mem_append.mp hk with hk | hk
        · exact hlater k hk
        · obtain rfl := List.mem_singleton.mp hk
          rw [hstop]
          exact Location.le_refl _

end Comment

/-- The comments that are delivered are pieces. -/
theorem toList_blankComments (source : String) :
    (blankComments source).toList = (Piece.pieces source.toList).flatMap Piece.blanked := by
  have hcomments : (Token.Stream.ofSource source).comments =
      (piecesOf source).filterMap (·.comment?) :=
    (Token.Stream.ofSource_reads source).2.1
  have hpieces := @Comment.blankFrom_pieces [] [] (Piece.pieces source.toList) nofun
  rw [Piece.pieces_text] at hpieces
  rw [blankComments, String.toList_ofList, hcomments]
  exact hpieces

-- =================================================================== cuts

namespace Piece

variable {cs : List Char} {ps : List Piece}

variable {kind : PieceKind} {text after after' : List Char}

theorem Found.blanks (h : Found kind text after) (hafter : Blanks after after') :
    Blanks (text ++ after) (Piece.blanked ⟨kind, text⟩ ++ after') := by
  cases h with
  | lineComment hbody hend => exact .line hbody hend hafter
  | blockComment => exact .block hafter
  | blank | newline | token | rubbish => exact hafter.append _

/-- Blanked piece by piece, the comments of a text are blanked. -/
theorem blanks_of_isCut (h : IsCut cs ps) : Blanks cs (ps.flatMap Piece.blanked) := by
  induction h with
  | nil => exact .nil
  | piece hne hmeasure hrest ih =>
    rw [List.flatMap_cons]
    exact (found_of_measure hne hmeasure).blanks ih

/-- What is no token is white when it is blanked. -/
theorem Found.blanked_whites (h : Found kind text after) (hkind : ∀ k, kind ≠ .token k) :
    ∀ c ∈ Piece.blanked ⟨kind, text⟩, c ∈ whites := by
  intro c hc
  cases h with
  | blank htext => exact mem_whites.mpr (.inl (htext c hc))
  | newline =>
    obtain rfl := List.mem_singleton.mp hc
    exact mem_whites.mpr (.inr rfl)
  | lineComment | blockComment =>
    rcases Comment.mem_blank hc with rfl | ⟨rfl, -⟩
    · exact mem_whites.mpr (.inl rfl)
    · exact mem_whites.mpr (.inr rfl)
  | token | rubbish => exact absurd rfl (hkind _)

/-- Blanked once more, it is as it was blanked at first. -/
theorem blank_blanked (p : Piece) : Comment.blank p.blanked = Comment.blank p.text := by
  rcases Comment.comment_or_not p with ⟨-, hblanked⟩ | ⟨-, hblanked⟩
  · rw [hblanked]
  · rw [hblanked, Comment.blank_blank]

theorem pastAll_blanked (l : Location) (ps : List Piece) :
    l.pastAll (ps.flatMap Piece.blanked) = l.pastAll (ps.flatMap (·.text)) := by
  induction ps generalizing l with
  | nil => rfl
  | cons p ps ih =>
    rw [List.flatMap_cons, List.flatMap_cons, Location.pastAll_append, Location.pastAll_append, ih,
      ← @Comment.pastAll_blank p.blanked, blank_blanked, Comment.pastAll_blank]

end Piece

-- ================================================================= layouts

/-- A token with the gap behind it blanked. -/
def Word.blanked (w : Word) : Word := { w with gap := Comment.blank w.gap }

namespace Layout

/-- A layout with all gaps blanked. -/
def blanked (layout : Layout) : Layout :=
  ⟨Comment.blank layout.lead, layout.words.map Word.blanked⟩

variable {wanted last : Bool} {gap : List Char} {l : Location}

/-- A gap has the same lines when it is blanked. -/
theorem semicolon_blank :
    semicolon wanted (Comment.blank gap) last l = semicolon wanted gap last l := by
  unfold semicolon
  rw [Comment.takeWhile_blank, Comment.pastAll_blank, Comment.pastAll_blank]
  simp only [Comment.newline_mem_blank]

theorem tokensFrom_blanked (ws : List Word) (l : Location) :
    tokensFrom l (ws.map Word.blanked) = tokensFrom l ws := by
  induction ws generalizing l with
  | nil => rfl
  | cons w ws ih =>
    rw [List.map_cons, tokensFrom, tokensFrom, Word.blanked, List.isEmpty_map]
    dsimp only
    rw [semicolon_blank, Comment.pastAll_blank, ih]
    rfl

theorem tokens_blanked (layout : Layout) : layout.blanked.tokens = layout.tokens := by
  unfold tokens blanked
  rw [tokensFrom_blanked, Comment.pastAll_blank]

end Layout

namespace Piece

variable {cs : List Char} {ps : List Piece}

/-- No token begins with a blank. -/
theorem head_not_blank {kind : Token.Kind} {text after : List Char}
    (h : measure (text ++ after) = (.token kind, text.length)) :
    ∀ c ∈ (text ++ after).head?, isBlank c = false := by
  intro c hc
  by_contra hblank
  obtain ⟨rest, hrest⟩ := List.head?_eq_some_iff.mp hc
  rw [hrest, measure_blanks (by simpa using hblank)] at h
  exact nomatch h

/-- White space in front of pieces without comments, where these have none in
front of them already. -/
theorem exists_isCut_gap {gap rest : List Char} (hgap : ∀ c ∈ gap, c ∈ whites)
    (hrest : ∀ c ∈ rest.head?, isBlank c = false) (hcut : IsCut rest ps)
    (hlead : (Layout.ofPieces ps).lead = [])
    (hquiet : ∀ p ∈ ps, ∀ before, PlacedPiece.comment? ⟨before, p⟩ = none) :
    ∃ qs, IsCut (gap ++ rest) qs ∧ Layout.ofPieces qs = ⟨gap, (Layout.ofPieces ps).words⟩ ∧
      ∀ q ∈ qs, ∀ before, PlacedPiece.comment? ⟨before, q⟩ = none := by
  obtain ⟨qs, hqs, hspaced, hkinds⟩ := exists_isCut_whites hgap hrest hcut
  rw [hlead, List.append_nil] at hspaced
  refine ⟨qs, hqs, hspaced, fun q hq before => ?_⟩
  rcases hkinds q hq with hmem | hblank | hnewline
  · exact hquiet q hmem before
  · simp [PlacedPiece.comment?, hblank]
  · simp [PlacedPiece.comment?, hnewline]

/-- The comments of a text, blanked, are white space in front of the next
token and behind each. -/
theorem exists_isCut_blanked (h : IsCut cs ps) : ∃ gap rest qs,
    ps.flatMap Piece.blanked = gap ++ rest ∧ (∀ c ∈ gap, c ∈ whites) ∧
    (∀ c ∈ rest.head?, isBlank c = false) ∧ IsCut rest qs ∧
    (∀ q ∈ qs, ∀ before, PlacedPiece.comment? ⟨before, q⟩ = none) ∧
    (Layout.ofPieces qs).lead = [] ∧
    (⟨gap, (Layout.ofPieces qs).words⟩ : Layout).blanked = (Layout.ofPieces ps).blanked := by
  induction h with
  | nil => exact ⟨[], [], [], rfl, nofun, nofun, .nil, nofun, rfl, rfl⟩
  | @piece text after kind ps hne hmeasure hrest ih =>
    obtain ⟨gap, rest, qs, hblanked, hgap, hhead, hcut, hquiet, hlead, hlayout⟩ := ih
    rcases Layout.token_or_gap ⟨kind, text⟩ with ⟨k, _, hpiece⟩ | hkind
    · obtain ⟨rfl, rfl⟩ := Piece.mk.inj hpiece
      obtain ⟨ws, hws, hspaced, hsilent⟩ := exists_isCut_gap hgap hhead hcut hlead hquiet
      have hagain := measure_blanked (blanks_of_isCut hrest) hne hmeasure
      rw [hblanked] at hagain
      refine ⟨[], text ++ (gap ++ rest), ⟨.token k, text⟩ :: ws, ?_, nofun, ?_,
        .piece hne hagain hws, ?_, rfl, ?_⟩
      · rw [List.flatMap_cons, hblanked]
        rfl
      · exact head_not_blank hagain
      · exact List.forall_mem_cons.mpr ⟨fun _ => rfl, hsilent⟩
      · rw [Layout.ofPieces, Layout.ofPieces, hspaced]
        obtain ⟨hgaps, hwords⟩ := Layout.mk.inj hlayout
        simp only [Layout.blanked, Layout.mk.injEq, true_and, List.map_cons]
        dsimp only at hgaps hwords
        rw [Word.blanked, Word.blanked, hwords, hgaps]
    · refine ⟨Piece.blanked ⟨kind, text⟩ ++ gap, rest, qs, ?_, ?_, hhead, hcut, hquiet, hlead, ?_⟩
      · rw [List.flatMap_cons, hblanked, List.append_assoc]
      · intro c hc
        rcases List.mem_append.mp hc with hc | hc
        · exact (found_of_measure hne hmeasure).blanked_whites hkind c hc
        · exact hgap c hc
      · obtain ⟨hgaps, hwords⟩ := Layout.mk.inj hlayout
        rw [Layout.ofPieces_gap hkind, Layout.blanked, Layout.blanked]
        dsimp only
        rw [Comment.blank_append, Comment.blank_append, blank_blanked, hgaps, hwords]

/-- The same pieces without the comments, but for white space. -/
theorem exists_pieces_blankComments (source : String) : ∃ mark rest rest' ps qs,
    (mark = [] ∨ mark = [byteOrderMark]) ∧ IsCut rest ps ∧ IsCut rest' qs ∧
    pieces source.toList = mark.map (fun c => ⟨.byteOrderMark, [c]⟩) ++ ps ∧
    pieces (blankComments source).toList = mark.map (fun c => ⟨.byteOrderMark, [c]⟩) ++ qs ∧
    (∀ q ∈ qs, ∀ before, PlacedPiece.comment? ⟨before, q⟩ = none) ∧
    (Layout.ofPieces qs).blanked = (Layout.ofPieces ps).blanked := by
  obtain ⟨mark, rest, hsource, hmark⟩ := exists_mark source.toList
  obtain ⟨ps, hps⟩ := exists_isCut rest
  obtain ⟨gap, rest', qs, hblanked, hgap, hhead, hqs, hquiet, hlead, hlayout⟩ :=
    exists_isCut_blanked hps
  obtain ⟨ws, hws, hspaced, hsilent⟩ := exists_isCut_gap hgap hhead hqs hlead hquiet
  have hpieces := pieces_marked hps hmark
  have hmark' : mark = [byteOrderMark] ∨
      mark = [] ∧ (gap ++ rest').head? ≠ some byteOrderMark := by
    refine hmark.imp_right (And.imp_right fun hnone hmark => hnone ?_)
    rw [← hblanked] at hmark
    exact (blanks_of_isCut hps).head hmark (by decide)
  have htext : (blankComments source).toList = mark ++ (gap ++ rest') := by
    rw [toList_blankComments, hsource, hpieces, List.flatMap_append, hblanked]
    rcases hmark with rfl | ⟨rfl, -⟩ <;> rfl
  refine ⟨mark, rest, gap ++ rest', ps, ws, ?_, hps, hws, ?_, ?_, hsilent, ?_⟩
  · exact hmark.symm.imp And.left id
  · rw [hsource, hpieces]
  · rw [htext, pieces_marked hws hmark']
  · rw [hspaced, hlayout]

end Piece

-- ================================================================= streams

namespace Token.Stream

theorem tokens_blankComments (source : String) :
    (ofSource (blankComments source)).tokens = (ofSource source).tokens := by
  obtain ⟨mark, rest, rest', ps, qs, hmark, hps, hqs, hpieces, hpieces', -, hlayout⟩ :=
    Piece.exists_pieces_blankComments source
  obtain ⟨hgaps, hwords⟩ := Layout.mk.inj hlayout
  rw [ofSource_tokens hmark hps hpieces, ofSource_tokens hmark hqs hpieces',
    ← Layout.tokens_blanked, ← Layout.tokens_blanked ⟨mark ++ (Layout.ofPieces ps).lead, _⟩]
  unfold Layout.blanked
  dsimp only
  rw [Comment.blank_append, Comment.blank_append, hgaps, hwords]

theorem comments_blankComments (source : String) :
    (ofSource (blankComments source)).comments = [] := by
  obtain ⟨mark, rest, rest', ps, qs, hmark, hps, hqs, hpieces, hpieces', hquiet, -⟩ :=
    Piece.exists_pieces_blankComments source
  have hcomments : (ofSource (blankComments source)).comments =
      (piecesOf (blankComments source)).filterMap (·.comment?) :=
    (ofSource_reads (blankComments source)).2.1
  rw [hcomments, List.filterMap_eq_nil_iff]
  intro q hq
  have hmem := piece_mem_of_placed hq
  rw [hpieces', List.mem_append] at hmem
  obtain ⟨before, p⟩ := q
  rcases hmem with hmem | hmem
  · obtain ⟨c, -, rfl⟩ := List.mem_map.mp hmem
    rfl
  · exact hquiet p hmem before

/-- Blanked, the comments are gone, and nothing else has changed. -/
theorem ofSource_blankComments (source : String) :
    ofSource (blankComments source) = (ofSource source).withoutComments := by
  have htokens := tokens_blankComments source
  have hcomments := comments_blankComments source
  have hstop : (ofSource (blankComments source)).stop = (ofSource source).stop := by
    rw [(ofSource_reads source).2.2, (ofSource_reads (blankComments source)).2.2,
      toList_blankComments, Piece.pastAll_blanked, Piece.pieces_text]
  generalize ofSource (blankComments source) = s at htokens hcomments hstop
  obtain ⟨lexemes, trailing, stop⟩ := s
  obtain ⟨hlexemes, rfl⟩ := List.append_eq_nil_iff.mp hcomments
  subst hstop
  have hsilent : lexemes.map (fun l => (⟨[], l.token⟩ : Lexeme)) = lexemes := by
    rw [List.flatMap_eq_nil_iff] at hlexemes
    rw [List.map_congr_left (g := id), List.map_id]
    intro l hl
    rw [← hlexemes l hl]
    rfl
  have hlexemes : lexemes.map (fun l => (⟨[], l.token⟩ : Lexeme)) =
      (ofSource source).lexemes.map fun l => ⟨[], l.token⟩ := by
    have hmap := congrArg (List.map fun t => (⟨[], t⟩ : Lexeme)) htokens
    rw [tokens, tokens, List.map_map, List.map_map] at hmap
    exact hmap
  rw [withoutComments, ← hlexemes, hsilent]

end Token.Stream

end GoSource
