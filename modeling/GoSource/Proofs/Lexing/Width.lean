/-
What is written takes up room.

Every piece of a source holds at least one character (`measure_pos`), so a
token that was cut from the source stops behind the place where it starts.
Only an inserted semicolon is a point (`ofSource_wide`). That the tokens
stand in order says less: points may stand at one place, and tokens that
have a width may not.
-/
import GoSource.Proofs.Lexing

namespace GoSource

-- ================================================================ order

namespace Location

theorem not_lt_self (l : Location) : ¬ l < l := by
  rw [lt_def]
  omega

theorem le_of_lt {a b : Location} (h : a < b) : a ≤ b :=
  h.imp id fun h => ⟨h.1, Nat.le_of_lt h.2⟩

theorem lt_of_lt_of_le {a b c : Location} (hab : a < b) (hbc : b ≤ c) : a < c := by
  rw [lt_def] at *
  rw [le_def] at hbc
  omega

theorem lt_of_le_of_lt {a b c : Location} (hab : a ≤ b) (hbc : b < c) : a < c := by
  rw [le_def] at hab
  rw [lt_def] at *
  omega

theorem lt_past (l : Location) (c : Char) : l < l.past c := by
  rw [lt_def]
  unfold past
  split
  · exact .inl (Nat.lt_succ_self _)
  · exact .inr ⟨rfl, Nat.lt_add_of_pos_right c.utf8Size_pos⟩

theorem lt_pastAll (l : Location) {cs : List Char} (hcs : cs ≠ []) : l < l.pastAll cs := by
  cases cs with
  | nil => exact absurd rfl hcs
  | cons c cs => exact lt_of_lt_of_le (lt_past l c) (le_pastAll (l.past c) cs)

end Location

-- =============================================================== pieces

namespace Piece

variable {n k : Nat} {cs : List Char}

theorem closingQuote_lt {quote : Char} (h : closingQuote quote n cs = some k) : n < k := by
  fun_induction closingQuote quote n cs with
  | case1 => nomatch h
  | case2 n rest => exact Option.some.inj h ▸ Nat.lt_succ_self n
  | case3 => nomatch h
  | case4 => nomatch h
  | case5 n d rest' _ _ _ ih =>
    have := ih h
    omega
  | case6 => nomatch h
  | case7 n c rest _ _ _ ih =>
    have := ih h
    omega

theorem closingBackquote_lt (h : closingBackquote n cs = some k) : n < k := by
  fun_induction closingBackquote n cs with
  | case1 => nomatch h
  | case2 n rest => exact Option.some.inj h ▸ Nat.lt_succ_self n
  | case3 n c rest _ ih =>
    have := ih h
    omega

theorem closingComment_lt (h : closingComment n cs = some k) : n < k := by
  fun_induction closingComment n cs with
  | case1 => nomatch h
  | case2 n c rest => exact Option.some.inj h ▸ Nat.lt_add_of_pos_right Nat.zero_lt_two
  | case3 n c rest _ ih =>
    have := ih h
    omega

theorem le_numberTail {hexadecimal pointSeen : Bool} :
    n ≤ numberTail hexadecimal pointSeen n cs := by
  fun_induction numberTail hexadecimal pointSeen n cs <;> omega

theorem numberLength_pos : 0 < numberLength cs := by
  unfold numberLength
  split
  · exact Nat.lt_of_lt_of_le Nat.zero_lt_two le_numberTail
  · exact Nat.lt_of_lt_of_le Nat.zero_lt_one le_numberTail

theorem spelling_pos : ∀ entry ∈ operatorTable, 0 < entry.1.length := by decide

theorem measureQuoted_pos {kind : Token.Kind} {isShape : List Char → Bool} {o : Option Nat}
    (h : ∀ k, o = some k → 0 < k) : 0 < (measureQuoted kind isShape cs o).2 := by
  cases o with
  | none => exact Nat.zero_lt_one
  | some k => exact h k rfl

theorem takeWhile_pos {p : Char → Bool} {c : Char} {rest : List Char} (h : p c = true) :
    0 < ((c :: rest).takeWhile p).length := by
  rw [List.takeWhile_cons_of_pos h]
  exact Nat.zero_lt_succ _

theorem continuesWord_of_startsWord {c : Char} (h : startsWord c = true) :
    continuesWord c = true := by
  unfold continuesWord
  rw [show (decide (c = '_') || Text.isLetter c) = true from h, Bool.true_or]

/-- The piece at the start of a text is not empty unless the text is. -/
theorem measure_pos (c : Char) (rest : List Char) : 0 < (measure (c :: rest)).2 := by
  unfold measure
  dsimp only
  split
  · next h => exact takeWhile_pos h
  split
  · exact Nat.zero_lt_one
  split
  · next h =>
    have hc : c = '/' := by simp_all
    exact takeWhile_pos (by rw [hc]; decide)
  split
  · split
    · next h => exact Nat.zero_lt_of_lt (closingComment_lt h)
    · exact Nat.zero_lt_succ _
  split
  · next h => exact takeWhile_pos (continuesWord_of_startsWord h)
  split
  · exact numberLength_pos
  split
  · exact measureQuoted_pos fun k hk => Nat.zero_lt_of_lt (closingBackquote_lt hk)
  split
  · exact measureQuoted_pos fun k hk => Nat.zero_lt_of_lt (closingQuote_lt hk)
  split
  · refine measureQuoted_pos fun k hk => ?_
    exact Nat.zero_lt_of_lt (of_decide_eq_true (Option.filter_eq_some_iff.mp hk).2)
  split
  · next h => exact spelling_pos _ (List.mem_of_find?_eq_some h)
  · exact Nat.zero_lt_one

theorem cut_ne_nil {fuel : Nat} {done : List Piece} (hdone : ∀ p ∈ done, p.text ≠ []) :
    ∀ p ∈ cut fuel cs done, p.text ≠ [] := by
  induction fuel generalizing cs done with
  | zero =>
    cases cs <;>
      · intro p hp
        exact hdone p (List.mem_reverse.mp hp)
  | succ fuel ih =>
    cases cs with
    | nil =>
      intro p hp
      exact hdone p (List.mem_reverse.mp hp)
    | cons c rest =>
      refine ih fun p hp => ?_
      obtain rfl | hp := List.mem_cons.mp hp
      · have hpos := measure_pos c rest
        intro hnil
        rcases List.take_eq_nil_iff.mp hnil with hzero | hzero
        · exact Nat.ne_of_gt hpos hzero
        · exact nomatch hzero
      · exact hdone p hp

theorem pieces_ne_nil (source : List Char) : ∀ p ∈ pieces source, p.text ≠ [] := by
  unfold pieces
  split
  · simp
  · split
    · exact cut_ne_nil (by simp)
    · exact cut_ne_nil (by simp)

end Piece

-- =============================================================== tokens

/-- A token with a width, or a semicolon that nobody wrote. -/
def Token.IsWide (t : Token) : Prop :=
  t.span.start < t.span.stop ∨ t.kind = .semi

namespace Lexer

/-- All tokens so far have a width, if they were written. -/
def Wide (s : Lexer) : Prop := ∀ l ∈ s.lexemes.toList, l.token.IsWide

variable {s : Lexer}

theorem Wide.emit (hs : s.Wide) {t : Token} (ht : t.IsWide) (ends : Bool) :
    (s.emit t ends).Wide := by
  intro x hx
  rw [Lexer.emit, Array.toList_push, List.mem_append, List.mem_singleton] at hx
  obtain hx | rfl := hx
  · exact hs x hx
  · exact ht

theorem Wide.lineEnd (hs : s.Wide) (l : Location) (text : String) : (s.lineEnd l text).Wide := by
  unfold Lexer.lineEnd
  split
  · exact hs.emit (.inr rfl) false
  · exact hs

theorem Wide.step (hs : s.Wide) {p : Piece} (hp : p.text ≠ []) : (s.step p).Wide := by
  have hcomments : ∀ comments, Wide { s with comments } := fun _ => hs
  unfold Lexer.step
  split
  · exact hs
  · exact hs
  · exact hs.lineEnd _ _
  · exact hs
  · dsimp only
    split
    · exact (hcomments _).lineEnd _ _
    · exact hs
  · next k hk => exact hs.emit (.inl (Location.lt_pastAll _ hp)) k.endsStatement

theorem Wide.run (pieces : List Piece) (h : ∀ p ∈ pieces, p.text ≠ []) :
    (Lexer.run pieces).Wide := by
  have fold : ∀ s : Lexer, s.Wide → (pieces.foldl Lexer.step s).Wide := by
    induction pieces with
    | nil => exact fun s hs => hs
    | cons p pieces ih =>
      intro s hs
      exact ih (fun q hq => h q (List.mem_cons_of_mem _ hq)) _ (hs.step (h p (by simp)))
  exact (fold start (by simp [Wide, start])).lineEnd _ _

end Lexer

/-- Only a semicolon may be a point. -/
theorem Token.Stream.ofSource_wide (source : String) :
    ∀ t ∈ (ofSource source).tokens, t.IsWide := by
  intro t ht
  obtain ⟨l, hl, rfl⟩ := List.mem_map.mp ht
  exact Lexer.Wide.run _ (Piece.pieces_ne_nil _) l hl

end GoSource
