/-
Which token stands at a place.

What is measured at the beginning of a source is its first token
(`Token.Stream.head?_of_measure`). Further inside, a token begins where the
one before it and the gap behind that one end, and nowhere else. If one
begins at a place, it is the one that is measured there, and no other token
begins in front of its end (`Token.Stream.oneToken_of_measure`).
-/
import GoSource.Proofs.Lexing.Partition

namespace GoSource

open Piece (IsCut IsSpelling byteOrderMark measure)

-- =============================================================== places

namespace Location

variable {l : Location} {cs cs' : List Char}

theorem pastAll_le_of_prefix (h : cs <+: cs') : l.pastAll cs ≤ l.pastAll cs' := by
  obtain ⟨more, rfl⟩ := h
  rw [pastAll_append]
  exact le_pastAll _ _

/-- Different places of one text have different locations. -/
theorem eq_of_pastAll_eq {text after after' : List Char} (hcs : text = cs ++ after)
    (hcs' : text = cs' ++ after') (h : l.pastAll cs = l.pastAll cs') : cs = cs' := by
  have longer {cs cs' : List Char} (hinitial : cs <+: cs') (h : l.pastAll cs = l.pastAll cs') :
      cs = cs' := by
    obtain ⟨more, rfl⟩ := hinitial
    by_contra hne
    have hmore : more ≠ [] := by
      rintro rfl
      exact hne (List.append_nil _).symm
    have hlt := lt_pastAll (l.pastAll cs) hmore
    rw [← pastAll_append, ← h] at hlt
    exact not_lt_self _ hlt
  rcases List.prefix_or_prefix_of_prefix ⟨after, hcs.symm⟩ ⟨after', hcs'.symm⟩ with hle | hle
  · exact longer hle h
  · exact (longer hle h.symm).symm

end Location

-- =============================================================== pieces

section

variable {before cs : List Char} {ps : List Piece} {q : PlacedPiece}

/-- Pieces stand in front of a piece and behind it. -/
theorem exists_split_of_placed (hq : q ∈ placed before ps) : ∃ front back,
    ps = front ++ q.piece :: back ∧ q.before = before ++ front.flatMap (·.text) := by
  induction ps generalizing before with
  | nil => exact nomatch hq
  | cons p ps ih =>
    rcases List.mem_cons.mp hq with rfl | hq
    · exact ⟨[], ps, rfl, (List.append_nil _).symm⟩
    · obtain ⟨front, back, hps, hbefore⟩ := ih hq
      refine ⟨p :: front, back, by rw [hps]; rfl, ?_⟩
      rw [hbefore, List.flatMap_cons, List.append_assoc]

/-- A piece stands behind what is in front of all of them, and in front of
their end. -/
theorem start_of_placed (hq : q ∈ placed before ps) (hne : ∀ p ∈ ps, p.text ≠ []) :
    Location.first.pastAll before ≤ q.span.start ∧
      q.span.start < Location.first.pastAll (before ++ ps.flatMap (·.text)) := by
  obtain ⟨hbefore, after, htext⟩ := text_of_placed hq
  refine ⟨Location.pastAll_le_of_prefix hbefore, ?_⟩
  have hlt : q.span.start < Location.first.pastAll (q.before ++ q.piece.text) := by
    rw [Location.pastAll_append]
    exact Location.lt_pastAll _ (hne _ (piece_mem_of_placed hq))
  rw [htext]
  exact Location.lt_of_lt_of_le hlt (Location.pastAll_le_of_prefix (List.prefix_append _ _))

/-- A piece of a cut is what is measured where it stands. -/
theorem measure_of_placed (h : IsCut cs ps) (hq : q ∈ placed before ps) : ∃ after,
    before ++ cs = q.before ++ q.piece.text ++ after ∧
    measure (q.piece.text ++ after) = (q.piece.kind, q.piece.text.length) := by
  induction h generalizing before with
  | nil => exact nomatch hq
  | @piece text after kind ps hne hmeasure hrest ih =>
    rcases List.mem_cons.mp hq with rfl | hq
    · exact ⟨after, (List.append_assoc _ _ _).symm, hmeasure⟩
    · obtain ⟨after', htext, hmeasured⟩ := ih hq
      rw [← List.append_assoc]
      exact ⟨after', htext, hmeasured⟩

end

namespace PlacedPiece

variable {source : String} {q : PlacedPiece} {t : Token}

theorem token?_eq_some (h : q.token? = some t) :
    q.piece.kind = .token t.kind ∧ t = ⟨t.kind, .ofList q.piece.text, q.span⟩ := by
  unfold token? at h
  split at h
  · next kind hkind =>
    obtain rfl := Option.some.inj h
    exact ⟨hkind, rfl⟩
  · exact nomatch h

/-- A token is what is measured where it stands. -/
theorem measure_of_token (hq : q ∈ piecesOf source) (ht : q.token? = some t) : ∃ after,
    source.toList = q.before ++ q.piece.text ++ after ∧
    measure (q.piece.text ++ after) = (.token t.kind, q.piece.text.length) := by
  obtain ⟨hkind, -⟩ := token?_eq_some ht
  obtain ⟨mark, rest, ps, hsource, hmark, hps, hpieces⟩ := Piece.exists_pieces source.toList
  rw [piecesOf, hpieces, placed_append] at hq
  rcases List.mem_append.mp hq with hq | hq
  · rcases hmark with rfl | rfl
    · exact absurd hq List.not_mem_nil
    · obtain rfl := List.mem_singleton.mp hq
      cases hkind
  · have hbefore : [] ++ (mark.map fun c => (⟨.byteOrderMark, [c]⟩ : Piece)).flatMap (·.text) =
        mark := by
      rcases hmark with rfl | rfl <;> rfl
    rw [hbefore] at hq
    obtain ⟨after, htext, hmeasure⟩ := measure_of_placed hps hq
    exact ⟨after, hsource.trans htext, hmeasure.trans (by rw [hkind])⟩

end PlacedPiece

namespace Token.Stream

variable {source : String} {before text more : List Char} {kind : Token.Kind} {t : Token}

/-- The tokens that were written are tokens of pieces. -/
theorem exists_piece (ht : t ∈ (ofSource source).tokens) (hwritten : t.isInserted = false) :
    ∃ q ∈ piecesOf source, q.token? = some t := by
  have hmem : t ∈ (ofSource source).tokens.filter (!·.isInserted) := by
    rw [List.mem_filter, hwritten]
    exact ⟨ht, rfl⟩
  rw [(ofSource_reads source).1] at hmem
  exact List.mem_filterMap.mp hmem

/-- A token of a source is written as its kind may be, or it is an error. -/
theorem isSpelling_of_mem (ht : t ∈ (ofSource source).tokens) (hwritten : t.isInserted = false) :
    IsSpelling t.kind t.text.toList ∨ t.kind = .error := by
  obtain ⟨q, hq, hqt⟩ := exists_piece ht hwritten
  obtain ⟨after, -, hmeasure⟩ := PlacedPiece.measure_of_token hq hqt
  have hne : q.piece.text ≠ [] := Piece.pieces_ne_nil _ _ (piece_mem_of_placed hq)
  rw [(PlacedPiece.token?_eq_some hqt).2, String.toList_ofList]
  exact (Piece.found_of_measure hne hmeasure).spelling rfl

/-- A token stands at the beginning of a source if it is measured there. -/
theorem head?_of_measure (hsource : source.toList = text ++ more) (hne : text ≠ [])
    (hmark : text.head? ≠ some byteOrderMark)
    (hmeasure : measure (text ++ more) = (.token kind, text.length)) :
    (ofSource source).tokens.head? =
      some ⟨kind, .ofList text, ⟨.first, Location.first.pastAll text⟩⟩ := by
  obtain ⟨ps, hps⟩ := Piece.exists_isCut more
  have hcut : IsCut source.toList (⟨.token kind, text⟩ :: ps) := by
    rw [hsource]
    exact .piece hne hmeasure hps
  have hpieces : Piece.pieces source.toList = [] ++ ⟨.token kind, text⟩ :: ps := by
    obtain ⟨c, text, rfl⟩ := List.exists_cons_of_ne_nil hne
    have hc : c ≠ byteOrderMark := fun hc => hmark (congrArg some hc)
    have hfirst : source.toList = c :: (text ++ more) := hsource
    rw [hfirst] at hcut ⊢
    rw [List.nil_append, Piece.pieces, if_neg hc]
    exact Piece.cut_eq hcut (Nat.le_refl _) []
  rw [ofSource_tokens (.inl rfl) hcut hpieces]
  rfl

end Token.Stream

-- ============================================================ at a place

/-- Something begins from one place on, in front of another. -/
def Span.beginsIn (lo hi : Location) (s : Span) : Bool := lo ≤ s.start && s.start < hi

theorem Span.beginsIn_iff {lo hi : Location} {s : Span} :
    s.beginsIn lo hi = true ↔ lo ≤ s.start ∧ s.start < hi := by
  rw [beginsIn, Bool.and_eq_true, decide_eq_true_eq, decide_eq_true_eq]

namespace Token.Stream

variable {source : String} {before text more : List Char} {kind : Token.Kind}
  {front back : List Piece}

/-- A token that was written begins at a place. -/
def BeginsAt (s : Token.Stream) (l : Location) : Prop :=
  ∃ t ∈ s.tokens, t.isInserted = false ∧ t.span.start = l

instance {s : Token.Stream} {l : Location} : Decidable (s.BeginsAt l) :=
  inferInstanceAs (Decidable (∃ t ∈ s.tokens, t.isInserted = false ∧ t.span.start = l))

/-- A text behind another one is a token that was written, and no other one
begins in it. -/
def OneToken (s : Token.Stream) (before text : List Char) (kind : Token.Kind) : Prop :=
  (s.tokens.filter (!·.isInserted)).filter
      (·.span.beginsIn (Location.first.pastAll before) (Location.first.pastAll (before ++ text))) =
    [⟨kind, .ofList text, ⟨Location.first.pastAll before, Location.first.pastAll (before ++ text)⟩⟩]

/-- If a token begins at a place, the piece there is what is measured
there. -/
theorem exists_pieces_of_beginsAt (hsource : source.toList = before ++ text ++ more)
    (hmeasure : measure (text ++ more) = (.token kind, text.length))
    (hbegins : (ofSource source).BeginsAt (Location.first.pastAll before)) : ∃ front back,
    Piece.pieces source.toList = front ++ ⟨.token kind, text⟩ :: back ∧
      before = front.flatMap (·.text) := by
  obtain ⟨t, ht, hwritten, hstart⟩ := hbegins
  obtain ⟨⟨before', piece⟩, hq, hqt⟩ := exists_piece ht hwritten
  obtain ⟨hkind, hspan⟩ := PlacedPiece.token?_eq_some hqt
  obtain ⟨after, hsource', hmeasure'⟩ := PlacedPiece.measure_of_token hq hqt
  rw [List.append_assoc] at hsource hsource'
  rw [hspan] at hstart
  obtain rfl : before' = before := Location.eq_of_pastAll_eq hsource' hsource hstart
  have hrest : piece.text ++ after = text ++ more :=
    List.append_cancel_left (hsource'.symm.trans hsource)
  rw [hrest, hmeasure] at hmeasure'
  obtain ⟨hkind', hlength⟩ := Prod.mk.inj hmeasure'
  have htext : piece.text = text := (List.append_inj hrest hlength.symm).1
  obtain ⟨front, back, hpieces, hfront⟩ := exists_split_of_placed hq
  have hpiece : piece = ⟨.token kind, text⟩ := by
    rw [← htext, hkind', ← hkind]
  exact ⟨front, back, hpiece ▸ hpieces, hfront⟩

/-- In the text of a token no other one begins. -/
theorem oneToken_of_pieces
    (hpieces : Piece.pieces source.toList = front ++ ⟨.token kind, text⟩ :: back) :
    (ofSource source).OneToken (front.flatMap (·.text)) text kind := by
  have hne := Piece.pieces_ne_nil source.toList
  rw [hpieces, List.forall_mem_append, List.forall_mem_cons] at hne
  obtain ⟨hfront, htext, hback⟩ := hne
  have hnone {qs : List PlacedPiece} {lo hi : Location}
      (h : ∀ q ∈ qs, lo ≤ q.span.start → ¬q.span.start < hi) :
      (qs.filterMap (·.token?)).filter (·.span.beginsIn lo hi) = [] := by
    rw [List.filter_eq_nil_iff]
    intro t ht
    obtain ⟨q, hq, hqt⟩ := List.mem_filterMap.mp ht
    rw [(PlacedPiece.token?_eq_some hqt).2, Span.beginsIn_iff]
    exact fun hrange => h q hq hrange.1 hrange.2
  have hplaced : placed (front.flatMap (·.text)) (⟨.token kind, text⟩ :: back) =
      ⟨front.flatMap (·.text), ⟨.token kind, text⟩⟩ ::
        placed (front.flatMap (·.text) ++ text) back := rfl
  have htoken : (⟨front.flatMap (·.text), ⟨.token kind, text⟩⟩ : PlacedPiece).token? =
      some ⟨kind, .ofList text, ⟨Location.first.pastAll (front.flatMap (·.text)),
        Location.first.pastAll (front.flatMap (·.text) ++ text)⟩⟩ := by
    rw [Location.pastAll_append]
    rfl
  rw [OneToken, (ofSource_reads source).1, piecesOf, hpieces, placed_append, List.nil_append,
    hplaced, List.filterMap_append, List.filter_append, hnone, List.nil_append,
    List.filterMap_cons_some htoken, List.filter_cons_of_pos, hnone]
  · intro q hq _ hlt
    have hle := (start_of_placed hq hback).1
    exact Location.not_lt_self _ (Location.lt_of_lt_of_le hlt hle)
  · rw [Span.beginsIn_iff, Location.pastAll_append]
    exact ⟨Location.le_refl _, Location.lt_pastAll _ htext⟩
  · intro q hq hle
    have hlt := (start_of_placed hq hfront).2
    exact fun _ => Location.not_lt_self _ (Location.lt_of_lt_of_le hlt hle)

/-- If a token begins at a place, it is what is measured there, and up to
its end no other one begins. -/
theorem oneToken_of_measure (hsource : source.toList = before ++ text ++ more)
    (hmeasure : measure (text ++ more) = (.token kind, text.length))
    (hbegins : (ofSource source).BeginsAt (Location.first.pastAll before)) :
    (ofSource source).OneToken before text kind := by
  obtain ⟨front, back, hpieces, rfl⟩ := exists_pieces_of_beginsAt hsource hmeasure hbegins
  exact oneToken_of_pieces hpieces

end Token.Stream

end GoSource
