/-
A text with its comments blanked.

A comment is blanked by a space for each byte, newlines excepted
(`Comment.blank`). `Blanks cs cs'` says that `cs'` is `cs` with its comments
blanked. The two look the same from any place in front of the first comment
and end at the same place, line by line. To a token that stands before them
they look alike (`Blanks.alike`): a quote that is not closed on its line, with
a comment behind it, is not closed either when the comment is blanked
(`Blanks.closingQuote_none`). The latter is less obvious than it looks,
because a backslash in a comment would take a character along that might
have been a quote. It cannot take along the end of the comment.
-/
import GoSource.Proofs.Lexing.Ahead
import GoSource.Proofs.Lexing.Slice

namespace GoSource

-- ============================================================ one comment

namespace Comment

/-- As many spaces as the character has bytes, or the newline that it is. -/
def blankChar (c : Char) : List Char :=
  if c = '\n' then ['\n'] else List.replicate c.utf8Size ' '

/-- The text of a comment, blanked. -/
def blank (text : List Char) : List Char := text.flatMap blankChar

variable {c x : Char} {text text' : List Char}

@[simp] theorem blank_nil : blank [] = [] := rfl

theorem blank_cons : blank (c :: text) = blankChar c ++ blank text := rfl

@[simp] theorem blank_slash : blank ('/' :: text) = ' ' :: blank text := rfl

@[simp] theorem blank_star : blank ('*' :: text) = ' ' :: blank text := rfl

@[simp] theorem blank_append : blank (text ++ text') = blank text ++ blank text' :=
  List.flatMap_append

theorem mem_blankChar (h : x ∈ blankChar c) : x = ' ' ∧ c ≠ '\n' ∨ x = '\n' ∧ c = '\n' := by
  unfold blankChar at h
  by_cases hc : c = '\n'
  · rw [if_pos hc] at h
    exact .inr ⟨List.mem_singleton.mp h, hc⟩
  · rw [if_neg hc] at h
    exact .inl ⟨(List.mem_replicate.mp h).2, hc⟩

theorem mem_blank (h : x ∈ blank text) : x = ' ' ∨ x = '\n' ∧ '\n' ∈ text := by
  obtain ⟨c, hc, hx⟩ := List.mem_flatMap.mp h
  rcases mem_blankChar hx with ⟨rfl, -⟩ | ⟨rfl, rfl⟩
  · exact .inl rfl
  · exact .inr ⟨rfl, hc⟩

theorem newline_mem_blank : '\n' ∈ blank text ↔ '\n' ∈ text := by
  constructor
  · intro h
    rcases mem_blank h with hspace | ⟨-, hmem⟩
    · exact nomatch hspace
    · exact hmem
  · intro h
    exact List.mem_flatMap.mpr ⟨'\n', h, List.mem_singleton_self _⟩

/-- Spaces and newlines stay. -/
theorem blank_eq_self (h : ∀ c ∈ text, c = ' ' ∨ c = '\n') : blank text = text := by
  induction text with
  | nil => rfl
  | cons c text ih =>
    rw [List.forall_mem_cons] at h
    rw [blank_cons, ih h.2]
    rcases h.1 with rfl | rfl <;> rfl

theorem blank_blank : blank (blank text) = blank text :=
  blank_eq_self fun _ hc => (mem_blank hc).imp_right And.left

/-- Lines end where they ended. -/
theorem takeWhile_blank : (blank text).takeWhile (decide <| · ≠ '\n') =
    blank (text.takeWhile (decide <| · ≠ '\n')) := by
  induction text with
  | nil => rfl
  | cons c text ih =>
    by_cases hc : c = '\n'
    · rw [hc]
      rfl
    · have hkept : (c :: text).takeWhile (decide <| · ≠ '\n') =
          c :: text.takeWhile (decide <| · ≠ '\n') := List.takeWhile_cons_of_pos (decide_eq_true hc)
      have hspaces : ∀ x ∈ blankChar c, decide (x ≠ '\n') = true := by
        intro x hx
        rcases mem_blankChar hx with ⟨rfl, -⟩ | ⟨-, hnewline⟩
        · rfl
        · exact absurd hnewline hc
      rw [blank_cons, List.takeWhile_append_of_pos hspaces, ih, hkept, blank_cons]

/-- A space for each byte leads to the same place. -/
theorem pastAll_blankChar (l : Location) (c : Char) : l.pastAll (blankChar c) = l.past c := by
  have hspaces (n : Nat) : ∀ l : Location,
      l.pastAll (List.replicate n ' ') = ⟨l.line, l.column + n⟩ := by
    induction n with
    | zero => exact fun l => rfl
    | succ n ih =>
      intro l
      rw [List.replicate_succ, Location.pastAll_cons, ih]
      show (⟨l.line, l.column + 1 + n⟩ : Location) = ⟨l.line, l.column + (n + 1)⟩
      rw [Nat.add_assoc, Nat.add_comm 1 n]
  unfold blankChar Location.past
  by_cases hc : c = '\n'
  · rw [if_pos hc, if_pos hc]
    rfl
  · rw [if_neg hc, if_neg hc, hspaces]

theorem pastAll_blank (l : Location) : l.pastAll (blank text) = l.pastAll text := by
  induction text generalizing l with
  | nil => rfl
  | cons c text ih =>
    rw [blank_cons, Location.pastAll_append, pastAll_blankChar, ih, Location.pastAll_cons]

theorem utf8Encode_blankChar (c : Char) : (blankChar c).flatMap String.utf8EncodeChar =
    (String.utf8EncodeChar c).map fun b => if b = 0x0A then b else 0x20 := by
  unfold blankChar
  by_cases hc : c = '\n'
  · rw [if_pos hc, hc]
    decide
  · have hbytes : ∀ b ∈ String.utf8EncodeChar c,
        (if b = 0x0A then b else 0x20) = (0x20 : UInt8) := by
      intro b hb
      apply if_neg
      rintro rfl
      exact hc (eq_newline_of_byte hb)
    rw [if_neg hc, List.map_congr_left hbytes, List.map_const', String.length_utf8EncodeChar,
      List.flatMap_replicate]
    simp [String.utf8EncodeChar]

/-- Byte by byte: a newline stays, and any other byte becomes a space. -/
theorem utf8Encode_blank : (blank text).flatMap String.utf8EncodeChar =
    (text.flatMap String.utf8EncodeChar).map fun b => if b = 0x0A then b else 0x20 := by
  rw [blank, List.flatMap_assoc, List.map_flatMap]
  exact List.flatMap_congr fun c _ => utf8Encode_blankChar c

end Comment

namespace Piece

-- ============================================================== all of them

/-- The second text is the first with its comments blanked. -/
inductive Blanks : List Char → List Char → Prop
  | nil : Blanks [] []
  | char {c : Char} {cs cs' : List Char} (h : Blanks cs cs') : Blanks (c :: cs) (c :: cs')
  | line {body after after' : List Char} (hbody : '\n' ∉ body)
      (hafter : ∀ c ∈ after.head?, c = '\n') (h : Blanks after after') :
      Blanks ('/' :: '/' :: body ++ after) (Comment.blank ('/' :: '/' :: body) ++ after')
  | block {body after after' : List Char} (h : Blanks after after') :
      Blanks ('/' :: '*' :: (body ++ ['*', '/']) ++ after)
        (Comment.blank ('/' :: '*' :: (body ++ ['*', '/'])) ++ after')

variable {c quote : Char} {cs cs' text more more' after after' : List Char} {kind : Token.Kind}

namespace Blanks

theorem append (h : Blanks cs cs') (text : List Char) : Blanks (text ++ cs) (text ++ cs') := by
  induction text with
  | nil => exact h
  | cons c text ih => exact .char ih

/-- Nothing is there that was not, but spaces. -/
theorem mem (h : Blanks cs cs') (hc : c ∈ cs') : c ∈ cs ∨ c = ' ' := by
  have comment {text after after' : List Char} (hmem : c ∈ Comment.blank text ++ after')
      (ih : c ∈ after' → c ∈ after ∨ c = ' ') : c ∈ text ++ after ∨ c = ' ' := by
    rcases List.mem_append.mp hmem with hblank | hrest
    · rcases Comment.mem_blank hblank with hspace | ⟨rfl, hnewline⟩
      · exact .inr hspace
      · exact .inl (List.mem_append_left _ hnewline)
    · exact (ih hrest).imp_left (List.mem_append_right _)
  induction h with
  | nil => exact nomatch hc
  | char h ih =>
    rcases List.mem_cons.mp hc with rfl | hc
    · exact .inl List.mem_cons_self
    · exact (ih hc).imp_left (List.mem_cons_of_mem _)
  | line _ _ _ ih => exact comment hc ih
  | block _ ih => exact comment hc ih

theorem head (h : Blanks cs cs') (hc : cs'.head? = some c) (hspace : c ≠ ' ') :
    cs.head? = some c := by
  cases h with
  | nil | char => exact hc
  | line | block => exact absurd (Option.some.inj hc).symm hspace

theorem head_of (h : Blanks cs cs') (hc : cs.head? = some c) (hslash : c ≠ '/') :
    cs'.head? = some c := by
  cases h with
  | nil | char => exact hc
  | line | block => exact absurd (Option.some.inj hc).symm hslash

/-- Up to the first comment nothing is changed. -/
theorem split (h : Blanks cs cs') : ∃ common more more', cs = common ++ more ∧
    cs' = common ++ more' ∧ Stops more ∧ SetApart more' := by
  induction h with
  | nil => exact ⟨[], [], [], rfl, rfl, nofun, nofun⟩
  | @char c _ _ h ih =>
    obtain ⟨common, more, more', rfl, rfl, hmore, hmore'⟩ := ih
    exact ⟨c :: common, more, more', rfl, rfl, hmore, hmore'⟩
  | line => exact ⟨[], _, _, rfl, rfl, by simp [Stops], by simp [SetApart, whites]⟩
  | block => exact ⟨[], _, _, rfl, rfl, by simp [Stops], by simp [SetApart, whites]⟩

end Blanks

-- ======================================================= what is not closed

section

variable {passed passed' : Nat} (hquote : quote = '\x22' ∨ quote = '\x27')

include hquote

/-- Spaces close nothing, and a newline leaves what is open open. -/
theorem closingQuote_spaces (htext : ∀ c ∈ text, c = ' ' ∨ c = '\n')
    (h : '\n' ∈ text ∨ closingQuote quote 0 more = none) :
    closingQuote quote passed (text ++ more) = none := by
  induction text generalizing passed with
  | nil =>
    rcases h with hnewline | hmore
    · exact nomatch hnewline
    · exact closingQuote_none hmore passed
  | cons c text ih =>
    rw [List.forall_mem_cons] at htext
    obtain ⟨rfl | rfl, htext⟩ := htext
    · have hspace : ' ' ≠ quote := by rcases hquote with rfl | rfl <;> decide
      rw [List.cons_append, closingQuote_plain hspace (by decide) (by decide)]
      refine ih htext (h.imp_left fun hnewline => ?_)
      exact (List.mem_cons.mp hnewline).resolve_left (by decide)
    · exact closingQuote_newline (by rcases hquote with rfl | rfl <;> decide)

/-- The end of a comment on the same line is passed as it is: the star may
be taken along by a backslash, but the slash behind it is not. -/
theorem closingQuote_past (htext : '\n' ∉ text)
    (h : closingQuote quote passed (text ++ '*' :: '/' :: more) = none) :
    closingQuote quote passed' more = none := by
  have hstar : '*' ≠ quote := by rcases hquote with rfl | rfl <;> decide
  have hslash : '/' ≠ quote := by rcases hquote with rfl | rfl <;> decide
  fun_induction closingQuote quote passed text with
  | case1 passed =>
    rw [List.nil_append, closingQuote_plain hstar (by decide) (by decide),
      closingQuote_plain hslash (by decide) (by decide)] at h
    exact closingQuote_none h passed'
  | case2 passed rest =>
    rw [List.cons_append, closingQuote_quote] at h
    cases h
  | case3 => exact absurd List.mem_cons_self htext
  | case4 => exact absurd (List.mem_cons_of_mem _ List.mem_cons_self) htext
  | case5 passed d rest hd hne hnewline ih =>
    rw [List.cons_append, List.cons_append, closingQuote_escape hne hd] at h
    simp only [List.mem_cons, not_or] at htext
    exact ih htext.2.2 h
  | case6 passed hne =>
    rw [List.singleton_append, closingQuote_escape hne (by decide),
      closingQuote_plain hslash (by decide) (by decide)] at h
    exact closingQuote_none h passed'
  | case7 passed c rest hne hnewline hescape ih =>
    rw [List.cons_append, closingQuote_plain hne hnewline hescape] at h
    exact ih (fun hmem => htext (List.mem_cons_of_mem _ hmem)) h

/-- Behind a line comment the line ends. -/
theorem Blanks.closingQuote_line (h : Blanks after after') (hafter : ∀ c ∈ after.head?, c = '\n') :
    closingQuote quote passed (Comment.blank text ++ after') = none := by
  refine closingQuote_spaces hquote
    (fun c hc => (Comment.mem_blank hc).imp_right And.left) (.inr ?_)
  cases h with
  | nil => rfl
  | char =>
    obtain rfl := hafter _ rfl
    exact closingQuote_newline (by rcases hquote with rfl | rfl <;> decide)
  | line | block => exact absurd (hafter '/' rfl) (by decide)

/-- A block comment goes on with the line, or has a newline itself. -/
theorem closingQuote_block
    (h : closingQuote quote passed (text ++ '*' :: '/' :: after) = none)
    (hafter : closingQuote quote 0 after = none → closingQuote quote 0 after' = none) :
    closingQuote quote passed' (Comment.blank (text ++ ['*', '/']) ++ after') = none := by
  refine closingQuote_spaces hquote
    (fun c hc => (Comment.mem_blank hc).imp_right And.left) ?_
  rw [Comment.newline_mem_blank]
  by_cases htext : '\n' ∈ text
  · exact .inl (List.mem_append_left _ htext)
  · exact .inr (hafter (closingQuote_past hquote htext h))

/-- A quote that is not closed is not closed by blanking what is behind
it. -/
theorem Blanks.closingQuote_none (h : Blanks cs cs') (hcs : closingQuote quote passed cs = none) :
    closingQuote quote passed' cs' = none := by
  -- An escape takes two characters, so the induction is on the length.
  induction hn : cs.length using Nat.strongRecOn generalizing cs cs' passed passed' with
  | ind n ih =>
    have block (text : List Char) {after after' : List Char} {passed passed' : Nat}
        (h : Blanks after after') (hlength : after.length < n)
        (hopen : closingQuote quote passed (text ++ '*' :: '/' :: after) = none) :
        closingQuote quote passed' (Comment.blank (text ++ ['*', '/']) ++ after') = none :=
      closingQuote_block hquote hopen fun hafter => ih after.length hlength h hafter rfl
    cases h with
    | nil => rfl
    | line hbody hafter h => exact h.closingQuote_line hquote hafter
    | @block body after after' h =>
      refine block ('/' :: '*' :: body) h ?_ (by simpa using hcs)
      simp at hn
      omega
    | @char c cs cs' h =>
      rw [List.length_cons] at hn
      by_cases hc : c = quote
      · rw [hc, closingQuote_quote] at hcs
        exact nomatch hcs
      by_cases hnewline : c = '\n'
      · rw [hnewline]
        exact closingQuote_newline fun heq => hc (hnewline.trans heq)
      by_cases hescape : c = '\\'
      · subst hescape
        cases h with
        | nil => exact Piece.closingQuote_none hcs passed'
        | line hbody hafter h =>
          rw [Comment.blank_slash, List.cons_append, closingQuote_escape hc (by decide)]
          exact h.closingQuote_line hquote hafter
        | @block body after after' h =>
          -- The slash is taken along, but the comment ends as it did.
          rw [List.cons_append, closingQuote_escape hc (by decide)] at hcs
          rw [Comment.blank_slash, List.cons_append, closingQuote_escape hc (by decide)]
          refine block ('*' :: body) h ?_ (by simpa using hcs)
          simp at hn
          omega
        | @char d cs cs' h =>
          by_cases hd : d = '\n'
          · rw [hd]
            exact closingQuote_broken hc
          · rw [closingQuote_escape hc hd] at hcs ⊢
            rw [List.length_cons] at hn
            exact ih cs.length (by omega) h hcs rfl
      · rw [closingQuote_plain hc hnewline hescape] at hcs ⊢
        exact ih cs.length (by omega) h hcs rfl

end

-- ================================================================ measured

/-- A token does not see that comments are blanked. -/
theorem Blanks.alike (h : Blanks after after') : Alike after after' := by
  refine ⟨h.split, fun hafter hmem => ?_, fun quote hquote => h.closingQuote_none hquote, ?_⟩
  · exact (h.mem hmem).elim hafter (by decide)
  · exact fun hc => h.head_of hc (by decide)

/-- A token is the same token in front of blanked comments. -/
theorem measure_blanked (hblanks : Blanks after after') (hne : text ≠ [])
    (h : measure (text ++ after) = (.token kind, text.length)) :
    measure (text ++ after') = (.token kind, text.length) := by
  by_cases hafter : after = []
  · subst hafter
    cases hblanks
    exact h
  · exact measure_alike hblanks.alike hne h fun hnil => absurd hnil hafter

end Piece

end GoSource
