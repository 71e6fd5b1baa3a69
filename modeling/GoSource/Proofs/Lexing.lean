/-
What the tokens of a source have in common.

The parser relies on the lexer in two respects only. No token says that it
is the end of the input (`ofSource_proper`), so the end that the parser
sees is the end. And the tokens stand one after the other
(`ofSource_inOrder`): each starts where the one before it has ended or
later, and an inserted semicolon, which is a point, is no exception.

# Order

`Span.InOrder lo spans hi` is a way to say that spans follow one another
between two places. The same will be said of the children of a node.
-/
import GoSource.Lexer
import Mathlib.Data.List.Basic

namespace GoSource

-- ================================================================ order

namespace Location

theorem le_refl (a : Location) : a ≤ a := .inr ⟨rfl, Nat.le_refl _⟩

theorem le_trans {a b c : Location} (hab : a ≤ b) (hbc : b ≤ c) : a ≤ c := by
  rw [le_def] at *
  omega

theorem le_past (l : Location) (c : Char) : l ≤ l.past c := by
  rw [le_def]
  unfold past
  split
  · exact .inl (Nat.lt_succ_self _)
  · exact .inr ⟨rfl, Nat.le_add_right _ _⟩

theorem le_pastAll (l : Location) (cs : List Char) : l ≤ l.pastAll cs := by
  induction cs generalizing l with
  | nil => exact le_refl l
  | cons c cs ih => exact le_trans (le_past l c) (ih (l.past c))

/-- A part of a text is passed before the whole. -/
theorem pastAll_takeWhile_le (l : Location) (p : Char → Bool) (cs : List Char) :
    l.pastAll (cs.takeWhile p) ≤ l.pastAll cs := by
  have h := pastAll_append l (cs.takeWhile p) (cs.dropWhile p)
  rw [List.takeWhile_append_dropWhile] at h
  rw [h]
  exact le_pastAll _ _

end Location

/-- Spans that follow one another, from one place to another. -/
def Span.InOrder (lo : Location) : List Span → Location → Prop
  | [], hi => lo ≤ hi
  | sp :: sps, hi => lo ≤ sp.start ∧ sp.start ≤ sp.stop ∧ InOrder sp.stop sps hi

namespace Span.InOrder

variable {lo mid hi : Location} {sp : Span} {xs ys : List Span}

theorem append (hx : InOrder lo xs mid) (hy : InOrder mid ys hi) : InOrder lo (xs ++ ys) hi := by
  induction xs generalizing lo with
  | nil =>
    cases ys with
    | nil => exact Location.le_trans hx hy
    | cons sp ys => exact ⟨Location.le_trans hx hy.1, hy.2⟩
  | cons sp xs ih => exact ⟨hx.1, hx.2.1, ih hx.2.2⟩

theorem singleton (hlo : lo ≤ sp.start) (hsp : sp.start ≤ sp.stop) (hhi : sp.stop ≤ hi) :
    InOrder lo [sp] hi :=
  ⟨hlo, hsp, hhi⟩

theorem nil (h : lo ≤ hi) : InOrder lo [] hi := h

theorem le (h : InOrder lo xs hi) : lo ≤ hi := by
  induction xs generalizing lo with
  | nil => exact h
  | cons sp xs ih => exact Location.le_trans h.1 (Location.le_trans h.2.1 (ih h.2.2))

theorem mono {lo' hi' : Location} (h : InOrder lo xs hi) (hlo : lo' ≤ lo) (hhi : hi ≤ hi') :
    InOrder lo' xs hi' := by
  have := append (nil hlo) (append h (nil hhi))
  rwa [List.nil_append, List.append_nil] at this

theorem split (h : InOrder lo (xs ++ ys) hi) : ∃ mid, InOrder lo xs mid ∧ InOrder mid ys hi := by
  induction xs generalizing lo with
  | nil => exact ⟨lo, nil (Location.le_refl lo), h⟩
  | cons sp xs ih =>
    obtain ⟨mid, hx, hy⟩ := ih h.2.2
    exact ⟨mid, ⟨h.1, h.2.1, hx⟩, hy⟩

/-- Spans that are left out leave the others in order. -/
theorem sublist (h : InOrder lo xs hi) (hs : ys.Sublist xs) : InOrder lo ys hi := by
  induction hs generalizing lo with
  | slnil => exact h
  | cons sp _ ih => exact ih (h.2.2.mono (Location.le_trans h.1 h.2.1) (Location.le_refl hi))
  | cons_cons sp _ ih => exact ⟨h.1, h.2.1, ih h.2.2⟩

theorem of_mem (h : InOrder lo xs hi) (hsp : sp ∈ xs) :
    lo ≤ sp.start ∧ sp.start ≤ sp.stop ∧ sp.stop ≤ hi :=
  h.sublist (List.singleton_sublist.mpr hsp)

theorem pairwise (h : InOrder lo xs hi) : xs.Pairwise fun a b => a.stop ≤ b.start := by
  induction xs generalizing lo with
  | nil => exact .nil
  | cons sp xs ih => exact .cons (fun b hb => (h.2.2.of_mem hb).1) (ih h.2.2)

end Span.InOrder

-- =============================================================== pieces

namespace Piece

theorem operators_ne_eof : ∀ k ∈ Token.Kind.operators, k ≠ .eof := by decide

theorem wordKind_mem (word : List Char) : wordKind word ∈ .ident :: Token.Kind.keywords := by
  unfold wordKind
  cases h : keywordTable.lookup word with
  | none => exact List.mem_cons_self
  | some k =>
    obtain ⟨before, after, htable, -⟩ := List.lookup_eq_some_iff.mp h
    have hmem : (word, k) ∈ keywordTable := by rw [htable]; simp
    obtain ⟨k', hk, heq⟩ := List.mem_map.mp hmem
    obtain rfl : k' = k := congrArg Prod.snd heq
    exact List.mem_cons_of_mem _ hk

theorem wordKind_ne_eof (word : List Char) : wordKind word ≠ .eof := by
  have hwords : ∀ k ∈ .ident :: Token.Kind.keywords, k ≠ .eof := by decide
  exact hwords _ (wordKind_mem word)

theorem leadingOperator_ne_eof {cs spelling : List Char} {k : Token.Kind}
    (h : leadingOperator cs = some (spelling, k)) : k ≠ .eof := by
  obtain ⟨k', hk, heq⟩ := List.mem_map.mp (List.mem_of_find?_eq_some h)
  obtain rfl : k' = k := congrArg Prod.snd heq
  exact operators_ne_eof k' hk

theorem numberKind_mem (text : List Char) :
    numberKind text ∈ [.imagLit, .floatLit, .intLit] := by
  unfold numberKind
  split
  · decide
  · split <;> decide

theorem numberKind_ne_eof (text : List Char) : numberKind text ≠ .eof := by
  have hnumbers : ∀ k ∈ [.imagLit, .floatLit, .intLit], k ≠ Token.Kind.eof := by decide
  exact hnumbers _ (numberKind_mem text)

theorem measureQuoted_ne_eof {k : Token.Kind} (hk : k ≠ .eof) (isShape : List Char → Bool)
    (cs : List Char) (n : Option Nat) : (measureQuoted k isShape cs n).1 ≠ .token .eof := by
  cases n with
  | none => exact nofun
  | some n =>
    simp only [measureQuoted]
    split
    · simpa using hk
    · exact nofun

theorem measure_ne_eof (cs : List Char) : (measure cs).1 ≠ .token .eof := by
  unfold measure
  split
  · exact nofun
  · split
    · exact nofun
    split
    · exact nofun
    split
    · exact nofun
    split
    · split <;> exact nofun
    split
    · simpa using wordKind_ne_eof _
    split
    · simpa using numberKind_ne_eof _
    split
    · exact measureQuoted_ne_eof (by decide) _ _ _
    split
    · exact measureQuoted_ne_eof (by decide) _ _ _
    split
    · exact measureQuoted_ne_eof (by decide) _ _ _
    split
    · next h => simpa using leadingOperator_ne_eof h
    · exact nofun

theorem cut_ne_eof {fuel : Nat} {cs : List Char} {done : List Piece}
    (hdone : ∀ p ∈ done, p.kind ≠ .token .eof) : ∀ p ∈ cut fuel cs done, p.kind ≠ .token .eof := by
  induction fuel generalizing cs done with
  | zero =>
    cases cs <;>
      · intro p hp
        exact hdone p (List.mem_reverse.mp hp)
  | succ fuel ih =>
    cases cs with
    | nil =>
      intro p hp
      exact hdone p (List.mem_reverse.mp hp)
    | cons c rest =>
      refine ih fun p hp => ?_
      obtain rfl | hp := List.mem_cons.mp hp
      · exact measure_ne_eof (c :: rest)
      · exact hdone p hp

theorem pieces_ne_eof (source : List Char) : ∀ p ∈ pieces source, p.kind ≠ .token .eof := by
  unfold pieces
  split
  · simp
  · split
    · exact cut_ne_eof (by simp)
    · exact cut_ne_eof (by simp)

end Piece

-- ============================================================== machine

namespace Lexer

/-- What holds of the lexemes and the place at every point of a run. -/
structure Orderly (s : Lexer) : Prop where
  ne_eof : ∀ l ∈ s.lexemes.toList, l.token.kind ≠ .eof
  inOrder : Span.InOrder .first (s.lexemes.toList.map (·.token.span)) s.here

theorem Orderly.emit {s : Lexer} (hs : s.Orderly) {t : Token} (ends : Bool) {l : Location}
    (hkind : t.kind ≠ .eof) (hstart : s.here ≤ t.span.start) (hspan : t.span.start ≤ t.span.stop)
    (hl : t.span.stop ≤ l) : Orderly { s.emit t ends with here := l } := by
  constructor
  · intro x hx
    rw [Lexer.emit, Array.toList_push, List.mem_append, List.mem_singleton] at hx
    obtain hx | rfl := hx
    · exact hs.ne_eof x hx
    · exact hkind
  · rw [Lexer.emit, Array.toList_push, List.map_append]
    exact hs.inOrder.append (.singleton hstart hspan hl)

theorem Orderly.moveTo {s : Lexer} (hs : s.Orderly) {l : Location} (hl : s.here ≤ l) :
    Orderly { s with here := l } :=
  ⟨hs.ne_eof, hs.inOrder.mono (Location.le_refl _) hl⟩

theorem Orderly.lineEnd {s : Lexer} (hs : s.Orderly) {at' stop : Location} (text : String)
    (hat : s.here ≤ at') (hstop : at' ≤ stop) :
    Orderly { s.lineEnd at' text with here := stop } := by
  unfold Lexer.lineEnd
  split
  · exact hs.emit false nofun hat (Location.le_refl _) hstop
  · exact hs.moveTo (Location.le_trans hat hstop)

theorem Orderly.step {s : Lexer} (hs : s.Orderly) {p : Piece} (hp : p.kind ≠ .token .eof) :
    (s.step p).Orderly := by
  have hstop := Location.le_pastAll s.here p.text
  have hcomments : ∀ comments, Orderly { s with comments } := fun _ => ⟨hs.ne_eof, hs.inOrder⟩
  unfold Lexer.step
  split
  · exact hs.moveTo hstop
  · exact hs.moveTo hstop
  · exact hs.lineEnd _ (Location.le_refl _) hstop
  · exact (hcomments _).moveTo hstop
  · dsimp only
    split
    · exact (hcomments _).lineEnd _ (Location.le_pastAll _ _) (Location.pastAll_takeWhile_le _ _ _)
    · exact (hcomments _).moveTo hstop
  · next k hk =>
    refine hs.emit _ (fun h => hp ?_) (Location.le_refl _) hstop (Location.le_refl _)
    exact hk.trans (congrArg _ h)

theorem Orderly.run (pieces : List Piece) (h : ∀ p ∈ pieces, p.kind ≠ .token .eof) :
    (Lexer.run pieces).Orderly := by
  have fold : ∀ s : Lexer, s.Orderly → (pieces.foldl Lexer.step s).Orderly := by
    induction pieces with
    | nil => exact fun s hs => hs
    | cons p pieces ih =>
      intro s hs
      exact ih (fun q hq => h q (List.mem_cons_of_mem _ hq)) _ (hs.step (h p (by simp)))
  have hs := fold start ⟨by simp [start], .nil (Location.le_refl _)⟩
  unfold Lexer.run Lexer.lineEnd
  dsimp only
  split
  · exact hs.emit false nofun (Location.le_refl _) (Location.le_refl _) (Location.le_refl _)
  · exact hs

end Lexer

-- =============================================================== source

namespace Token.Stream

/-- No token before the end of the stream says that it is the end. -/
def Proper (stream : Token.Stream) : Prop :=
  ∀ t ∈ stream.tokens, t.kind ≠ .eof

theorem ofSource_orderly (source : String) :
    (Lexer.run (Piece.pieces source.toList)).Orderly :=
  .run _ (Piece.pieces_ne_eof _)

theorem ofSource_proper (source : String) : (ofSource source).Proper := by
  intro t ht
  obtain ⟨l, hl, rfl⟩ := List.mem_map.mp ht
  exact (ofSource_orderly source).ne_eof l hl

/-- The tokens of a source stand in it one after the other. -/
theorem ofSource_inOrder (source : String) :
    Span.InOrder .first ((ofSource source).tokens.map (·.span)) (ofSource source).stop := by
  have h := (ofSource_orderly source).inOrder
  rwa [tokens, List.map_map]

end Token.Stream

end GoSource
