/-
The lexer partitions its input.

Every piece of a source has its place (`PlacedPiece`), and the places of all
pieces, one behind the other, make up the source. Some pieces become
tokens, some comments, and each of these once and in order, whatever the
lexer does about semicolons between them (`Lexer.reads_run`). What is left
is white space, and the mark at the beginning.

A stream is read call by call. The calls return the tokens of the source
and then its end, for ever, and hand out each comment with the first token
behind it (`Token.Stream.comments_calls`).
-/
import GoSource.Proofs.Lexing.Columns
import GoSource.Proofs.Lexing.Layout
import Mathlib.Data.List.Pairwise

namespace GoSource

open Piece (IsCut IsSpelling Found byteOrderMark whites)

-- ================================================================ calls

namespace Token.Stream

/-- What is returned by a call with some calls before it. -/
def call (s : Token.Stream) : Nat → Lexeme
  | 0 => s.next.1
  | k + 1 => s.next.2.call k

/-- What is returned by the first calls. -/
def calls (s : Token.Stream) (m : Nat) : List Lexeme := (List.range m).map s.call

variable {s : Token.Stream} {k m : Nat}

theorem next_lexemes : s.next.2.lexemes = s.lexemes.tail := by
  unfold next
  cases s.lexemes <;> rfl

theorem next_stop : s.next.2.stop = s.stop := by
  unfold next
  cases s.lexemes <;> rfl

theorem calls_succ : s.calls (m + 1) = s.next.1 :: s.next.2.calls m := by
  rw [calls, List.range_succ_eq_map, List.map_cons, List.map_map]
  rfl

/-- Behind the tokens there is the end. -/
theorem call_atEnd (h : s.lexemes.length ≤ k) : (s.call k).token = .atEnd s.stop := by
  induction k generalizing s with
  | zero =>
    have hnil : s.lexemes = [] := List.length_eq_zero_iff.mp (Nat.le_zero.mp h)
    rw [call, next, hnil]
  | succ k ih =>
    rw [call, ih, next_stop]
    rw [next_lexemes, List.length_tail]
    omega

theorem calls_lexemes : s.calls s.lexemes.length = s.lexemes := by
  induction hlexemes : s.lexemes generalizing s with
  | nil => rfl
  | cons l rest ih =>
    have hnext : s.next = (l, { s with lexemes := rest }) := by rw [next, hlexemes]
    rw [List.length_cons, calls_succ, hnext, ih rfl]

theorem call_mem (h : k < s.lexemes.length) : s.call k ∈ s.lexemes := by
  rw [← calls_lexemes, calls]
  exact List.mem_map_of_mem (List.mem_range.mpr h)

/-- All comments are handed out when the end is reached, and none again. -/
theorem comments_calls (h : s.lexemes.length < m) :
    (s.calls m).flatMap (·.comments) = s.lexemes.flatMap (·.comments) ++ s.trailing := by
  induction m generalizing s with
  | zero => exact nomatch h
  | succ m ih =>
    rw [calls_succ, List.flatMap_cons]
    cases hlexemes : s.lexemes with
    | nil =>
      have hnext : s.next = (⟨s.trailing, .atEnd s.stop⟩, { s with trailing := [] }) := by
        rw [next, hlexemes]
      rw [hnext]
      cases m with
      | zero => exact List.append_nil _
      | succ m =>
        rw [ih (by rw [hlexemes]; exact Nat.zero_lt_succ m)]
        dsimp only
        rw [hlexemes]
        simp
    | cons l rest =>
      have hnext : s.next = (l, { s with lexemes := rest }) := by rw [next, hlexemes]
      rw [hlexemes, List.length_cons] at h
      rw [hnext, ih (Nat.lt_of_succ_lt_succ h), List.flatMap_cons, List.append_assoc]

end Token.Stream

-- =============================================================== places

/-- A piece and what stands before it. -/
structure PlacedPiece where
  before : List Char
  piece : Piece

namespace PlacedPiece

variable (q : PlacedPiece)

def range : ByteRange := .ofPart q.before q.piece.text

def span : Span := ⟨Location.first.pastAll q.before,
  (Location.first.pastAll q.before).pastAll q.piece.text⟩

/-- The token that a piece becomes, if it becomes one. -/
def token? : Option Token :=
  match q.piece.kind with
  | .token kind => some ⟨kind, .ofList q.piece.text, q.span⟩
  | _ => none

def comment? : Option Comment :=
  match q.piece.kind with
  | .lineComment | .blockComment => some (.ofText q.span q.piece.text)
  | _ => none

end PlacedPiece

/-- Pieces in their places behind a text. -/
def placed : List Char → List Piece → List PlacedPiece
  | _, [] => []
  | before, p :: ps => ⟨before, p⟩ :: placed (before ++ p.text) ps

section

variable {before : List Char} {ps : List Piece} {q : PlacedPiece}

theorem placed_append {qs : List Piece} : placed before (ps ++ qs) =
    placed before ps ++ placed (before ++ ps.flatMap (·.text)) qs := by
  induction ps generalizing before with
  | nil => rw [List.flatMap_nil, List.append_nil]; rfl
  | cons p ps ih =>
    rw [List.cons_append, placed, ih, List.append_assoc, ← List.flatMap_cons]
    rfl

theorem piece_mem_of_placed (hq : q ∈ placed before ps) : q.piece ∈ ps := by
  induction ps generalizing before with
  | nil => exact nomatch hq
  | cons p ps ih =>
    rcases List.mem_cons.mp hq with rfl | hq
    · exact List.mem_cons_self
    · exact List.mem_cons_of_mem _ (ih hq)

/-- A placed piece is a part of the text. -/
theorem text_of_placed (hq : q ∈ placed before ps) : before <+: q.before ∧
    ∃ after, before ++ ps.flatMap (·.text) = q.before ++ q.piece.text ++ after := by
  induction ps generalizing before with
  | nil => exact nomatch hq
  | cons p ps ih =>
    rw [List.flatMap_cons, ← List.append_assoc]
    rcases List.mem_cons.mp hq with rfl | hq
    · exact ⟨List.prefix_refl _, _, rfl⟩
    · obtain ⟨hbefore, htext⟩ := ih hq
      exact ⟨(List.prefix_append before p.text).trans hbefore, htext⟩

/-- One piece stands behind the other. -/
theorem placed_pairwise :
    (placed before ps).Pairwise fun a b => a.range.Precedes b.range := by
  induction ps generalizing before with
  | nil => exact .nil
  | cons p ps ih =>
    rw [placed, List.pairwise_cons]
    refine ⟨fun b hb => ?_, ih⟩
    exact byteSize_le_of_prefix (text_of_placed hb).1

/-- Every byte of a text belongs to a piece. -/
theorem exists_placed {i : Nat} (hstart : byteSize before ≤ i)
    (hstop : i < byteSize (before ++ ps.flatMap (·.text))) :
    ∃ q ∈ placed before ps, q.range.Holds i := by
  induction ps generalizing before with
  | nil =>
    rw [List.flatMap_nil, List.append_nil] at hstop
    omega
  | cons p ps ih =>
    rw [placed]
    rw [List.flatMap_cons, ← List.append_assoc] at hstop
    by_cases hi : i < byteSize (before ++ p.text)
    · exact ⟨⟨before, p⟩, List.mem_cons_self, hstart, hi⟩
    · obtain ⟨q, hq, hholds⟩ := ih (Nat.le_of_not_lt hi) hstop
      exact ⟨q, List.mem_cons_of_mem _ hq, hholds⟩

end

-- ============================================================== reading

namespace Lexer

/-- The tokens so far without the semicolons that nobody wrote. -/
def written (s : Lexer) : List Token := s.tokens.filter (!·.isInserted)

/-- The comments so far, those included that wait for a token. -/
def delivered (s : Lexer) : List Comment :=
  s.lexemes.toList.flatMap (·.comments) ++ s.comments.reverse

/-- The written tokens and the comments that have come are those of
pieces. -/
structure Reads (s : Lexer) (qs : List PlacedPiece) (s' : Lexer) : Prop where
  written : s'.written = s.written ++ qs.filterMap (·.token?)
  delivered : s'.delivered = s.delivered ++ qs.filterMap (·.comment?)

variable {s s' s'' : Lexer} {qs rs : List PlacedPiece}

theorem Reads.refl : s.Reads [] s := ⟨(List.append_nil _).symm, (List.append_nil _).symm⟩

theorem Reads.trans (h : s.Reads qs s') (h' : s'.Reads rs s'') : s.Reads (qs ++ rs) s'' := by
  constructor
  · rw [h'.written, h.written, List.filterMap_append, List.append_assoc]
  · rw [h'.delivered, h.delivered, List.filterMap_append, List.append_assoc]

theorem Reads.moveTo (h : s.Reads qs s') (l : Location) : s.Reads qs { s' with here := l } :=
  ⟨h.written, h.delivered⟩

/-- A token takes the comments along that wait for it. -/
theorem delivered_emit {t : Token} {ends : Bool} : (s.emit t ends).delivered = s.delivered := by
  simp [delivered, Lexer.emit]

/-- A semicolon adds nothing that was written. -/
theorem Reads.lineEnd {l : Location} {text : String} (htext : text ≠ ";") :
    s.Reads [] (s.lineEnd l text) := by
  unfold Lexer.lineEnd
  split
  · have hinserted := isInserted_insertedSemi (l := l) htext
    constructor
    · rw [Lexer.written, tokens_emit, List.filter_append,
        List.filter_cons_of_neg (by rw [hinserted]; decide)]
      rfl
    · rw [delivered_emit]
      exact (List.append_nil _).symm
  · exact .refl

variable {q : PlacedPiece}

theorem Reads.blank (htoken : q.token? = none) (hcomment : q.comment? = none)
    (h : s.Reads [] s') : s.Reads [q] s' := by
  constructor
  · rw [h.written, List.filterMap_cons_none htoken]
  · rw [h.delivered, List.filterMap_cons_none hcomment]

theorem Reads.comment {c : Comment} (htoken : q.token? = none) (hcomment : q.comment? = some c) :
    s.Reads [q] { s with comments := c :: s.comments } := by
  constructor
  · rw [List.filterMap_cons_none htoken]
    exact (List.append_nil _).symm
  · rw [List.filterMap_cons_some hcomment]
    simp [Lexer.delivered]

theorem Reads.token {t : Token} {ends : Bool} (htoken : q.token? = some t)
    (hcomment : q.comment? = none) (ht : t.isInserted = false) :
    s.Reads [q] (s.emit t ends) := by
  constructor
  · rw [List.filterMap_cons_some htoken, Lexer.written, tokens_emit, List.filter_append,
      List.filter_cons_of_pos (by rw [ht]; rfl)]
    rfl
  · rw [delivered_emit, List.filterMap_cons_none hcomment]
    exact (List.append_nil _).symm

/-- One piece, where it stands. -/
theorem Reads.step {before : List Char} {p : Piece}
    (hhere : s.here = Location.first.pastAll before)
    (hmeant : ∀ kind, p.kind = .token kind → IsSpelling kind p.text ∨ kind = .error) :
    s.Reads [⟨before, p⟩] (s.step p) := by
  obtain ⟨kind, text⟩ := p
  have hspan : (⟨s.here, s.here.pastAll text⟩ : Span) = PlacedPiece.span ⟨before, kind, text⟩ := by
    rw [hhere]
    rfl
  unfold Lexer.step
  dsimp only
  rw [hspan]
  apply Reads.moveTo
  cases kind with
  | byteOrderMark | blank => exact .blank rfl rfl .refl
  | newline => exact .blank rfl rfl (.lineEnd (by decide))
  | lineComment => exact .comment rfl rfl
  | blockComment =>
    dsimp only
    split
    · exact Reads.trans (.comment rfl rfl) (.lineEnd (by decide))
    · exact .comment rfl rfl
  | token kind =>
    exact .token rfl rfl (Token.isInserted_of_spelling (hmeant kind rfl))

theorem here_foldl (ps : List Piece) :
    (ps.foldl step s).here = s.here.pastAll (ps.flatMap (·.text)) := by
  induction ps generalizing s with
  | nil => rfl
  | cons p ps ih =>
    rw [List.foldl_cons, ih, List.flatMap_cons, Location.pastAll_append]
    rfl

/-- What comes of pieces is in the order in which they stand. -/
theorem reads_run {before : List Char} {ps : List Piece}
    (hhere : s.here = Location.first.pastAll before)
    (hmeant : ∀ p ∈ ps, ∀ kind, p.kind = .token kind → IsSpelling kind p.text ∨ kind = .error) :
    s.Reads (placed before ps) (ps.foldl step s) := by
  induction ps generalizing s before with
  | nil => exact .refl
  | cons p ps ih =>
    rw [List.forall_mem_cons] at hmeant
    obtain ⟨hp, hps⟩ := hmeant
    have hnext : (s.step p).here = Location.first.pastAll (before ++ p.text) := by
      rw [Location.pastAll_append, ← hhere]
      rfl
    exact (Reads.step hhere hp).trans (ih hnext hps)

end Lexer

-- ============================================================ partitions

/-- A token is what the source holds in a range, and its span is the
range's. -/
def Token.StandsAt (source : String) (t : Token) (r : ByteRange) : Prop :=
  r.Reads source t.text ∧ t.span = (LineIndex.ofText source).span r.start r.stop

def Comment.StandsAt (source : String) (c : Comment) (r : ByteRange) : Prop :=
  ∃ text : String, r.Reads source text ∧
    c = .ofText ((LineIndex.ofText source).span r.start r.stop) text.toList

/-- Space, tab, carriage return and newline. -/
def whiteBytes : List UInt8 := [0x20, 0x09, 0x0D, 0x0A]

/-- So many calls on the stream of a source return tokens, and the source
is divided into ranges of tokens, ranges of comments and white space. -/
structure Partition (source : String) (count : Nat) (tokens comments : List ByteRange) : Prop where
  eof : ∀ k, ((Token.Stream.ofSource source).call k).token.kind = .eof ↔ count ≤ k
  atEnd : ∀ k, count ≤ k → ((Token.Stream.ofSource source).call k).token =
    .atEnd ((LineIndex.ofText source).location source.utf8ByteSize)
  written : List.Forall₂ (Token.StandsAt source)
    ((((Token.Stream.ofSource source).calls count).map (·.token)).filter (!·.isInserted)) tokens
  delivered : ∀ m, count < m → List.Forall₂ (Comment.StandsAt source)
    (((Token.Stream.ofSource source).calls m).flatMap (·.comments)) comments
  tokens_increase : tokens.Pairwise ByteRange.Precedes
  comments_increase : comments.Pairwise ByteRange.Precedes
  disjoint : ∀ a ∈ tokens, ∀ b ∈ comments, a.Precedes b ∨ b.Precedes a
  white : ∀ i (h : i < source.toByteArray.size), (∀ r ∈ tokens ++ comments, ¬r.Holds i) →
    source.toByteArray[i] ∈ whiteBytes ∨ source.toList.head? = some byteOrderMark ∧ i < 3

/-- The pieces of a source, in their places. -/
def piecesOf (source : String) : List PlacedPiece := placed [] (Piece.pieces source.toList)

namespace PlacedPiece

variable {source : String} {q : PlacedPiece}

theorem exists_source (hq : q ∈ piecesOf source) :
    ∃ after, source.toList = q.before ++ q.piece.text ++ after := by
  obtain ⟨-, after, hsource⟩ := text_of_placed hq
  rw [List.nil_append, Piece.pieces_text] at hsource
  exact ⟨after, hsource⟩

theorem reads (hq : q ∈ piecesOf source) : q.range.Reads source (.ofList q.piece.text) := by
  obtain ⟨after, hsource⟩ := exists_source hq
  exact ByteRange.reads_ofPart hsource (Piece.pieces_ne_nil _ _ (piece_mem_of_placed hq))

variable (hsize : source.utf8ByteSize + 1 < LineIndex.fieldWidth)

include hsize

theorem span_eq (hq : q ∈ piecesOf source) :
    q.span = (LineIndex.ofText source).span q.range.start q.range.stop := by
  obtain ⟨after, hsource⟩ := exists_source hq
  have hstop := LineIndex.location_pastAll hsource hsize
  rw [List.append_assoc] at hsource
  have hstart := LineIndex.location_pastAll hsource hsize
  rw [LineIndex.span, range, ByteRange.ofPart, hstart, hstop, Location.pastAll_append]
  rfl

theorem token_standsAt (hq : q ∈ piecesOf source) {t : Token} (ht : q.token? = some t) :
    t.StandsAt source q.range := by
  unfold token? at ht
  split at ht
  · obtain rfl := Option.some.inj ht
    exact ⟨reads hq, span_eq hsize hq⟩
  · exact nomatch ht

theorem comment_standsAt (hq : q ∈ piecesOf source) {c : Comment} (hc : q.comment? = some c) :
    c.StandsAt source q.range := by
  have hcomment : c = .ofText q.span q.piece.text := by
    unfold comment? at hc
    split at hc
    · exact (Option.some.inj hc).symm
    · exact (Option.some.inj hc).symm
    · exact nomatch hc
  refine ⟨_, reads hq, ?_⟩
  rw [hcomment, span_eq hsize hq, String.toList_ofList]

omit hsize

/-- No piece is both a token and a comment. -/
theorem comment?_eq_none {t : Token} (h : q.token? = some t) : q.comment? = none := by
  obtain ⟨before, kind, text⟩ := q
  cases kind with
  | token kind => rfl
  | _ => exact nomatch h

/-- A piece that is no token and no comment is white, or the mark. -/
theorem white (hq : q ∈ piecesOf source) (htoken : q.token? = none) (hcomment : q.comment? = none) :
    (∀ c ∈ q.piece.text, c ∈ whites) ∨
      source.toList.head? = some byteOrderMark ∧ q.range = ⟨0, 3⟩ := by
  obtain ⟨mark, rest, ps, hsource, hmark, hps, hpieces⟩ := Piece.exists_pieces source.toList
  rw [piecesOf, hpieces, placed_append] at hq
  rcases List.mem_append.mp hq with hq | hq
  · rcases hmark with rfl | rfl
    · exact nomatch hq
    · obtain rfl := List.mem_singleton.mp hq
      rw [hsource]
      exact .inr ⟨rfl, by decide⟩
  · left
    obtain ⟨after, hfound⟩ := hps.found _ (piece_mem_of_placed hq)
    obtain ⟨before, kind, text⟩ := q
    cases hfound with
    | blank htext =>
      intro c hc
      exact Piece.mem_whites.mpr (.inl (htext c hc))
    | newline =>
      intro c hc
      obtain rfl := List.mem_singleton.mp hc
      exact List.mem_of_getLast? rfl
    | lineComment | blockComment => exact nomatch hcomment
    | token | rubbish => exact nomatch htoken

theorem whiteBytes_eq : whites.flatMap String.utf8EncodeChar = whiteBytes := by decide

theorem byte_white {i : Nat} (hq : q ∈ piecesOf source) (htoken : q.token? = none)
    (hcomment : q.comment? = none) (hholds : q.range.Holds i) (hi : i < source.toByteArray.size) :
    source.toByteArray[i] ∈ whiteBytes ∨ source.toList.head? = some byteOrderMark ∧ i < 3 := by
  rcases white hq htoken hcomment with hwhite | ⟨hmark, hrange⟩
  · obtain ⟨after, hsource⟩ := exists_source hq
    have hbyte := ByteRange.byte_mem_ofPart hsource hholds hi
    obtain ⟨c, hc, hbyte⟩ := List.mem_flatMap.mp hbyte
    rw [← whiteBytes_eq]
    exact .inl (List.mem_flatMap.mpr ⟨c, hwhite c hc, hbyte⟩)
  · rw [hrange] at hholds
    exact .inr ⟨hmark, hholds.2⟩

end PlacedPiece

section

variable {α : Type} {f : PlacedPiece → Option α} {qs : List PlacedPiece}

/-- Where those pieces are of which a function makes something. -/
def ranges (f : PlacedPiece → Option α) (qs : List PlacedPiece) : List ByteRange :=
  qs.filterMap fun q => (f q).map fun _ => q.range

theorem mem_ranges {r : ByteRange} :
    r ∈ ranges f qs ↔ ∃ q ∈ qs, ∃ a, f q = some a ∧ q.range = r := by
  simp only [ranges, List.mem_filterMap, Option.map_eq_some_iff]

/-- What is made of pieces, and where they are. -/
theorem forall₂_ranges {R : α → ByteRange → Prop}
    (h : ∀ q ∈ qs, ∀ a, f q = some a → R a q.range) :
    List.Forall₂ R (qs.filterMap f) (ranges f qs) := by
  unfold ranges
  induction qs with
  | nil => exact .nil
  | cons q qs ih =>
    rw [List.forall_mem_cons] at h
    obtain ⟨hq, hqs⟩ := h
    rw [List.filterMap_cons, List.filterMap_cons]
    cases hf : f q with
    | none => exact ih hqs
    | some a => exact .cons (hq a hf) (ih hqs)

theorem ranges_increase (h : qs.Pairwise fun a b => a.range.Precedes b.range) :
    (ranges f qs).Pairwise ByteRange.Precedes := by
  unfold ranges
  apply h.filterMap
  intro q q' hprecedes r hr r' hr'
  obtain ⟨a, -, rfl⟩ := Option.map_eq_some_iff.mp hr
  obtain ⟨a', -, rfl⟩ := Option.map_eq_some_iff.mp hr'
  exact hprecedes

/-- Two pieces are apart. -/
theorem precedes_or_precedes {q q' : PlacedPiece}
    (h : qs.Pairwise fun a b => a.range.Precedes b.range) (hq : q ∈ qs) (hq' : q' ∈ qs)
    (hne : q ≠ q') : q.range.Precedes q'.range ∨ q'.range.Precedes q.range := by
  let Apart (a b : PlacedPiece) : Prop := a.range.Precedes b.range ∨ b.range.Precedes a.range
  have hsymm : Std.Symm Apart := ⟨fun _ _ => Or.symm⟩
  have happart : qs.Pairwise Apart := h.imp Or.inl
  exact happart.forall hq hq' hne

end

namespace Token.Stream

/-- The tokens and the comments of a source, its end and its pieces. -/
theorem ofSource_reads (source : String) :
    (ofSource source).tokens.filter (!·.isInserted) = (piecesOf source).filterMap (·.token?) ∧
    (ofSource source).lexemes.flatMap (·.comments) ++ (ofSource source).trailing =
      (piecesOf source).filterMap (·.comment?) ∧
    (ofSource source).stop = Location.first.pastAll source.toList := by
  obtain ⟨mark, rest, ps, hsource, hmark, hps, hpieces⟩ := Piece.exists_pieces source.toList
  have hmeant : ∀ p ∈ Piece.pieces source.toList, ∀ kind, p.kind = .token kind →
      IsSpelling kind p.text ∨ kind = .error := by
    intro p hp kind hkind
    rw [hpieces, List.mem_append] at hp
    rcases hp with hp | hp
    · obtain ⟨c, -, rfl⟩ := List.mem_map.mp hp
      exact nomatch hkind
    · obtain ⟨after, hfound⟩ := hps.found p hp
      exact hfound.spelling hkind
  let read := (Piece.pieces source.toList).foldl Lexer.step .start
  have hrun : Lexer.start.Reads (piecesOf source) read := Lexer.reads_run rfl hmeant
  have hall := hrun.trans (.lineEnd (by decide) : read.Reads [] read.finish)
  rw [List.append_nil] at hall
  refine ⟨hall.written, hall.delivered, ?_⟩
  have hstop : (ofSource source).stop = read.here := by
    show (read.lineEnd read.here "").here = read.here
    unfold Lexer.lineEnd
    split <;> rfl
  rw [hstop, Lexer.here_foldl, Piece.pieces_text]
  rfl

/-- A call returns the end behind the last token, and not before. -/
theorem call_eof {s : Token.Stream} (hs : s.Proper) (k : Nat) :
    (s.call k).token.kind = .eof ↔ s.lexemes.length ≤ k := by
  constructor
  · intro heof
    by_contra hk
    exact hs _ (List.mem_map_of_mem (call_mem (Nat.lt_of_not_le hk))) heof
  · intro hk
    rw [call_atEnd hk]
    rfl

/-- Calls return the tokens of a source and then its end. The tokens that
were written and the comments stand apart from each other in the source,
and around them there is nothing but white space. -/
theorem ofSource_partition (source : String)
    (hsize : source.utf8ByteSize < LineIndex.fieldWidth - 1) :
    ∃ count tokens comments, Partition source count tokens comments := by
  obtain ⟨hwritten, hdelivered, hstop⟩ := ofSource_reads source
  have hfits : source.utf8ByteSize + 1 < LineIndex.fieldWidth := by omega
  have hpairwise : (piecesOf source).Pairwise fun a b => a.range.Precedes b.range :=
    placed_pairwise
  refine ⟨(ofSource source).lexemes.length, ranges (·.token?) (piecesOf source),
    ranges (·.comment?) (piecesOf source), ?_⟩
  constructor
  case eof => exact call_eof (ofSource_proper source)
  case atEnd =>
    intro k hk
    rw [call_atEnd hk, hstop, ← LineIndex.location_pastAll (List.append_nil _).symm hfits,
      byteSize_toList]
  case written =>
    rw [calls_lexemes]
    show List.Forall₂ _ ((ofSource source).tokens.filter (!·.isInserted)) _
    rw [hwritten]
    exact forall₂_ranges fun q hq t ht => PlacedPiece.token_standsAt hfits hq ht
  case delivered =>
    intro m hm
    rw [comments_calls hm, hdelivered]
    exact forall₂_ranges fun q hq c hc => PlacedPiece.comment_standsAt hfits hq hc
  case tokens_increase => exact ranges_increase hpairwise
  case comments_increase => exact ranges_increase hpairwise
  case disjoint =>
    intro r hr r' hr'
    obtain ⟨q, hq, t, ht, rfl⟩ := mem_ranges.mp hr
    obtain ⟨q', hq', c, hc, rfl⟩ := mem_ranges.mp hr'
    apply precedes_or_precedes hpairwise hq hq'
    intro heq
    rw [← heq, PlacedPiece.comment?_eq_none ht] at hc
    exact nomatch hc
  case white =>
    intro i hi hnone
    have hlast : i < byteSize ([] ++ (Piece.pieces source.toList).flatMap (·.text)) := by
      rw [List.nil_append, Piece.pieces_text, byteSize_toList]
      exact hi
    obtain ⟨q, hq, hholds⟩ := exists_placed (Nat.zero_le i) hlast
    have htoken : q.token? = none := by
      by_contra hsome
      obtain ⟨t, ht⟩ := Option.ne_none_iff_exists'.mp hsome
      exact hnone _ (List.mem_append_left _ (mem_ranges.mpr ⟨q, hq, t, ht, rfl⟩)) hholds
    have hcomment : q.comment? = none := by
      by_contra hsome
      obtain ⟨c, hc⟩ := Option.ne_none_iff_exists'.mp hsome
      exact hnone _ (List.mem_append_right _ (mem_ranges.mpr ⟨q, hq, c, hc, rfl⟩)) hholds
    exact PlacedPiece.byte_white hq htoken hcomment hholds hi

/-- An unfinished literal behind a mark and a comment of two lines. -/
theorem ofSource_partition_unfinished :
    "\ufeffa /* b\n */ + \x22c".utf8ByteSize < LineIndex.fieldWidth - 1 ∧
    ∃ count tokens comments, Partition "\ufeffa /* b\n */ + \x22c" count tokens comments :=
  ⟨by decide, ofSource_partition _ (by decide)⟩

end Token.Stream

end GoSource
