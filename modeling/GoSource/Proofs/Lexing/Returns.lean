/-
Carriage returns in a text.

`Piece.withReturns text` is a text with a carriage return before each newline.
No token is cut elsewhere in it: a carriage return is as good an end as the
newline behind it (`alike_withReturns`), and a quote that is not closed on its
line is not closed on the next (`closingQuote_withReturns`). A token that goes
on over lines is the same token, but longer (`measure_withReturns`). Without
the carriage returns that end them, the lines are the same
(`Comment.lines_withReturns`).
-/
import GoSource.Proofs.Lexing.Ahead

namespace GoSource

-- ==================================================================== text

namespace Piece

/-- A text with a carriage return before each newline. -/
def withReturns (text : List Char) : List Char :=
  text.flatMap fun c => if c = '\n' then ['\r', '\n'] else [c]

variable {c quote : Char} {cs text after : List Char}

@[simp] theorem withReturns_nil : withReturns [] = [] := rfl

@[simp] theorem withReturns_newline :
    withReturns ('\n' :: text) = '\r' :: '\n' :: withReturns text := rfl

theorem withReturns_cons (hc : c ≠ '\n') : withReturns (c :: text) = c :: withReturns text := by
  unfold withReturns
  rw [List.flatMap_cons, if_neg hc, List.singleton_append]

@[simp] theorem withReturns_append :
    withReturns (text ++ after) = withReturns text ++ withReturns after :=
  List.flatMap_append

theorem withReturns_ne_nil (h : text ≠ []) : withReturns text ≠ [] := by
  obtain ⟨c, text, rfl⟩ := List.exists_cons_of_ne_nil h
  by_cases hc : c = '\n'
  · rw [hc, withReturns_newline]
    exact List.cons_ne_nil _ _
  · rw [withReturns_cons hc]
    exact List.cons_ne_nil _ _

theorem withReturns_eq_self (h : '\n' ∉ text) : withReturns text = text := by
  induction text with
  | nil => rfl
  | cons c text ih =>
    rw [List.mem_cons, not_or] at h
    rw [withReturns_cons (Ne.symm h.1), ih h.2]

theorem mem_withReturns (h : c ∈ withReturns text) : c ∈ text ∨ c = '\r' := by
  obtain ⟨d, hd, hc⟩ := List.mem_flatMap.mp h
  by_cases hnewline : d = '\n'
  · rw [if_pos hnewline] at hc
    rcases List.mem_pair.mp hc with rfl | rfl
    · exact .inr rfl
    · exact .inl (hnewline ▸ hd)
  · rw [if_neg hnewline] at hc
    exact .inl (List.mem_singleton.mp hc ▸ hd)

theorem newline_mem_withReturns : '\n' ∈ withReturns text ↔ '\n' ∈ text := by
  constructor
  · intro h
    exact (mem_withReturns h).resolve_right (by decide)
  · intro h
    exact List.mem_flatMap.mpr ⟨'\n', h, by decide⟩

/-- A text begins as it did, but for a newline. -/
theorem head?_withReturns (h : text.head? ≠ some '\n') :
    (withReturns text).head? = text.head? := by
  cases text with
  | nil => rfl
  | cons c text => rw [withReturns_cons fun hc => h (congrArg some hc)]; rfl

/-- Behind the newline nothing is left of the carriage return. -/
theorem pastAll_withReturns (l : Location) (text : List Char) :
    l.pastAll (withReturns text) = l.pastAll text := by
  induction text generalizing l with
  | nil => rfl
  | cons c text ih =>
    by_cases hc : c = '\n'
    · rw [hc, withReturns_newline, Location.pastAll_cons, Location.pastAll_cons,
        Location.pastAll_cons, ih]
      rfl
    · rw [withReturns_cons hc, Location.pastAll_cons, Location.pastAll_cons, ih]

theorem filter_withReturns :
    (withReturns text).filter (decide <| · ≠ '\r') = text.filter (decide <| · ≠ '\r') := by
  induction text with
  | nil => rfl
  | cons c text ih =>
    by_cases hc : c = '\n'
    · rw [hc, withReturns_newline, List.filter_cons_of_neg (by decide),
        List.filter_cons_of_pos (by decide), List.filter_cons_of_pos (by decide), ih]
    · rw [withReturns_cons hc, List.filter_cons, List.filter_cons, ih]

/-- No comment ends earlier. -/
theorem infix_of_withReturns (h : ['*', '/'] <:+: withReturns text) : ['*', '/'] <:+: text := by
  induction text with
  | nil => exact h
  | cons c text ih =>
    by_cases hc : c = '\n'
    · rw [hc, withReturns_newline, List.infix_cons_iff, List.infix_cons_iff] at h
      rcases h with ⟨after, hafter⟩ | ⟨after, hafter⟩ | h
      · exact absurd (List.cons.inj hafter).1 (by decide)
      · exact absurd (List.cons.inj hafter).1 (by decide)
      · exact List.infix_cons (ih h)
    · rw [withReturns_cons hc, List.infix_cons_iff] at h
      rcases h with ⟨after, hafter⟩ | h
      · obtain ⟨rfl, hslash⟩ := List.cons.inj hafter
        have hhead : text.head? = some '/' := by
          rw [← head?_withReturns]
          · rw [← hslash]
            rfl
          · intro hnewline
            obtain ⟨rest, rfl⟩ := List.head?_eq_some_iff.mp hnewline
            exact absurd (List.cons.inj hslash).1 (by decide)
        obtain ⟨rest, rfl⟩ := List.head?_eq_some_iff.mp hhead
        exact ⟨[], rest, rfl⟩
      · exact List.infix_cons (ih h)

-- ================================================================ measured

/-- A quote that is open where the line ends is open before the carriage
return, which does not close it, and cannot take the newline along. -/
theorem closingQuote_withReturns {passed : Nat} (hquote : quote = '\x22' ∨ quote = '\x27')
    (h : closingQuote quote passed cs = none) (passed' : Nat) :
    closingQuote quote passed' (withReturns cs) = none := by
  have hnone : '\r' ≠ quote ∧ '\n' ≠ quote := by rcases hquote with rfl | rfl <;> decide
  fun_induction closingQuote quote passed cs generalizing passed' with
  | case1 => rfl
  | case2 => cases h
  | case3 passed rest hne =>
    rw [withReturns_newline, closingQuote_plain hnone.1 (by decide) (by decide),
      closingQuote_newline hne]
  | case4 passed rest hne =>
    rw [withReturns_cons (by decide), withReturns_newline, closingQuote_escape hne (by decide),
      closingQuote_newline hnone.2]
  | case5 passed d rest hd hne hnewline ih =>
    rw [withReturns_cons (by decide), withReturns_cons hd, closingQuote_escape hne hd]
    exact ih h _
  | case6 passed hne =>
    rw [withReturns_eq_self (by decide), closingQuote.eq_def]
    simp [hne]
  | case7 passed c rest hne hnewline hescape ih =>
    rw [withReturns_cons hnewline, closingQuote_plain hne hnewline hescape]
    exact ih h _

/-- A token does not see how the lines behind it end. -/
theorem alike_withReturns (after : List Char) : Alike after (withReturns after) := by
  refine ⟨?_, fun hafter hmem => ?_, fun quote hquote h => closingQuote_withReturns hquote h 1, ?_⟩
  · induction after with
    | nil => exact ⟨[], [], [], rfl, rfl, nofun, nofun⟩
    | cons c after ih =>
      by_cases hc : c = '\n'
      · rw [hc]
        exact ⟨[], _, _, rfl, rfl, by simp [Stops, whites], by simp [SetApart, whites]⟩
      · obtain ⟨common, more, more', hafter, hafter', hmore, hmore'⟩ := ih
        refine ⟨c :: common, more, more', ?_, ?_, hmore, hmore'⟩
        · rw [hafter, List.cons_append]
        · rw [withReturns_cons hc, hafter', List.cons_append]
  · exact (mem_withReturns hmem).elim hafter (by decide)
  · intro hhead
    rw [head?_withReturns (by rw [hhead]; decide), hhead]

/-- A token is the same token, with the carriage returns that it has got. -/
theorem measure_withReturns {kind : Token.Kind} (hne : text ≠ [])
    (h : measure (text ++ after) = (.token kind, text.length)) :
    measure (withReturns text ++ withReturns after) =
      (.token kind, (withReturns text).length) := by
  rcases measure_lines hne h with hline | ⟨body, rfl, rfl, hbody⟩ | ⟨body, rfl, rfl, rfl, hbody⟩
  · rw [withReturns_eq_self hline]
    by_cases hafter : after = []
    · rw [hafter] at h ⊢
      exact h
    · exact measure_alike (alike_withReturns after) hne h fun hnil => absurd hnil hafter
  · have htext : withReturns ('\x60' :: (body ++ ['\x60'])) =
        '\x60' :: (withReturns body ++ ['\x60']) := by
      rw [withReturns_cons (by decide), withReturns_append]
      rfl
    rw [htext]
    exact measure_rawString (fun hmem => (mem_withReturns hmem).elim hbody (by decide)) _
  · have htext : withReturns ('/' :: '*' :: body) = '/' :: '*' :: withReturns body := by
      rw [withReturns_cons (by decide), withReturns_cons (by decide)]
    rw [htext, withReturns_nil, List.append_nil]
    exact measure_unclosed fun hinfix => hbody (infix_of_withReturns hinfix)

end Piece

-- ================================================================== lines

namespace Comment

variable {c : Char} {text line : List Char}

theorem splitLines_cons {rest : List (List Char)} (h : splitLines text = line :: rest) :
    splitLines (c :: text) =
      if c = '\n' then [] :: line :: rest else (c :: line) :: rest := by
  unfold splitLines at h ⊢
  rw [List.foldr_cons, h]

/-- There is always a line, if an empty one. -/
theorem exists_splitLines (text : List Char) :
    ∃ line rest, splitLines text = line :: rest := by
  induction text with
  | nil => exact ⟨[], [], rfl⟩
  | cons c text ih =>
    obtain ⟨line, rest, hlines⟩ := ih
    rw [splitLines_cons hlines]
    split
    · exact ⟨_, _, rfl⟩
    · exact ⟨_, _, rfl⟩

theorem splitLines_line (h : '\n' ∉ text) : splitLines text = [text] := by
  induction text with
  | nil => rfl
  | cons c text ih =>
    rw [List.mem_cons, not_or] at h
    rw [splitLines_cons (ih h.2), if_neg (Ne.symm h.1)]

theorem withoutReturn_of_notMem (h : '\r' ∉ line) : withoutReturn line = line := by
  apply if_neg
  intro hlast
  exact h (List.mem_of_getLast? hlast)

theorem withoutReturn_append : withoutReturn (line ++ ['\r']) = line := by
  rw [withoutReturn, List.getLast?_concat, if_pos rfl, List.dropLast_concat]

/-- What stands in a line stands in the text. -/
theorem mem_of_splitLines (hline : line ∈ splitLines text) (hc : c ∈ line) : c ∈ text := by
  induction text generalizing line with
  | nil =>
    obtain rfl := List.mem_singleton.mp hline
    exact hc
  | cons d text ih =>
    obtain ⟨first, rest, hlines⟩ := exists_splitLines text
    rw [hlines] at ih
    rw [splitLines_cons hlines] at hline
    split at hline
    · rcases List.mem_cons.mp hline with rfl | hline
      · exact nomatch hc
      · exact List.mem_cons_of_mem _ (ih hline hc)
    · rcases List.mem_cons.mp hline with rfl | hline
      · rcases List.mem_cons.mp hc with rfl | hc
        · exact List.mem_cons_self
        · exact List.mem_cons_of_mem _ (ih List.mem_cons_self hc)
      · exact List.mem_cons_of_mem _ (ih (List.mem_cons_of_mem _ hline) hc)

/-- Each line but the last one gets a carriage return. -/
theorem splitLines_withReturns (text : List Char) :
    List.Forall₂ (fun line line' => line' = line ∨ line' = line ++ ['\r']) (splitLines text)
      (splitLines (Piece.withReturns text)) := by
  induction text with
  | nil => exact .cons (.inl rfl) .nil
  | cons c text ih =>
    obtain ⟨line, rest, hlines⟩ := exists_splitLines text
    obtain ⟨line', rest', hlines'⟩ := exists_splitLines (Piece.withReturns text)
    rw [hlines, hlines'] at ih
    by_cases hc : c = '\n'
    · rw [hc, Piece.withReturns_newline, splitLines_cons hlines,
        splitLines_cons (splitLines_cons hlines')]
      exact .cons (.inr rfl) ih
    · rw [Piece.withReturns_cons hc, splitLines_cons hlines, splitLines_cons hlines', if_neg hc,
        if_neg hc]
      cases ih with
      | cons hline hrest =>
        refine .cons ?_ hrest
        rcases hline with rfl | rfl
        · exact .inl rfl
        · exact .inr rfl

/-- Without the carriage returns the lines are the same. -/
theorem lines_withReturns (h : '\r' ∉ text) :
    (splitLines (Piece.withReturns text)).map withoutReturn =
      (splitLines text).map withoutReturn := by
  have hnone : ∀ line ∈ splitLines text, '\r' ∉ line :=
    fun line hline hc => h (mem_of_splitLines hline hc)
  have hlines := splitLines_withReturns text
  generalize splitLines text = lines, splitLines (Piece.withReturns text) = lines'
    at hnone hlines ⊢
  induction hlines with
  | nil => rfl
  | cons hline _ ih =>
    rw [List.forall_mem_cons] at hnone
    rw [List.map_cons, List.map_cons, ih hnone.2, withoutReturn_of_notMem hnone.1]
    rcases hline with rfl | rfl
    · rw [withoutReturn_of_notMem hnone.1]
    · rw [withoutReturn_append]

end Comment

end GoSource
