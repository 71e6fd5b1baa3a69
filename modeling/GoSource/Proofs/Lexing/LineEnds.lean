/-
Lines that end with a carriage return.

A source may end its lines with a carriage return before each newline
(`withReturns`). The lexer passes over these where they are blanks, keeps
them in comments and raw strings, and drops them from the lines of the one
and from the values of the other. So it delivers the same tokens and
comments (`ofSource_withReturns`), with two differences. A token that goes on
over several lines, a raw string or a comment that never ends, is written
with the carriage returns. And a semicolon that nobody wrote stands where
the newline stands, which is now one column to the right.

Two machines that agree read on side by side, one text with the carriage
returns and one without (`Returned`). A carriage return is a piece of its own
in front of a newline, or the last character of the blanks or of the line
comment that it follows (`IsCut.exists_return`).
-/
import GoSource.Literal
import GoSource.Proofs.Lexing.Returns
import GoSource.Proofs.Literals.Quoted

namespace GoSource

open Piece (IsCut byteOrderMark)

-- ================================================================ agreeing

/-- A source with a carriage return before each newline. -/
def withReturns (source : String) : String := .ofList (Piece.withReturns source.toList)

/-- Comments that begin at one place and say the same. -/
structure Comment.Agrees (c c' : Comment) : Prop where
  start : c'.span.start = c.span.start
  lines : c'.lines = c.lines

/-- Tokens that differ in nothing but the carriage returns in them, or as
semicolons that nobody wrote, in how far behind the line they stand. -/
structure Token.Agrees (t t' : Token) : Prop where
  kind : t'.kind = t.kind
  line : t'.span.start.line = t.span.start.line
  span : t.isInserted = false → t'.span = t.span
  text : t'.text =
    if t.kind = .rawStringLit ∨ t.IsUnclosedComment then withReturns t.text else t.text
  value : Literal.decode t'.kind t'.text = Literal.decode t.kind t.text

/-- Tokens that agree, with comments that do. -/
structure Lexeme.Agrees (x x' : Lexeme) : Prop where
  comments : List.Forall₂ Comment.Agrees x.comments x'.comments
  token : x.token.Agrees x'.token

/-- Streams that deliver what agrees, and end in one place. -/
structure Token.Stream.Agrees (s s' : Token.Stream) : Prop where
  lexemes : List.Forall₂ Lexeme.Agrees s.lexemes s'.lexemes
  trailing : List.Forall₂ Comment.Agrees s.trailing s'.trailing
  stop : s'.stop = s.stop

namespace Comment

variable {text extra : List Char} {span span' : Span}

theorem agrees_withReturns (htext : '\r' ∉ text) (hstart : span'.start = span.start) :
    Agrees (ofText span text) (ofText span' (Piece.withReturns text)) := by
  refine ⟨hstart, ?_⟩
  have hlines := congrArg (List.map String.ofList) (lines_withReturns htext)
  rwa [List.map_map, List.map_map] at hlines

/-- A comment of one line has no other with a carriage return at its end. -/
theorem agrees_line (hline : '\n' ∉ text) (htext : '\r' ∉ text)
    (hextra : extra = ['\r'] ∨ extra = []) (hstart : span'.start = span.start) :
    Agrees (ofText span text) (ofText span' (text ++ extra)) := by
  refine ⟨hstart, ?_⟩
  unfold ofText
  dsimp only
  rcases hextra with rfl | rfl
  · have hlonger : '\n' ∉ text ++ ['\r'] := by simp [hline]
    rw [splitLines_line hline, splitLines_line hlonger, List.map_singleton, List.map_singleton,
      withoutReturn_append, withoutReturn_of_notMem htext]
  · rw [List.append_nil]

end Comment

namespace Token

variable {text after : List Char} {kind : Token.Kind} {l l' : Location}

/-- What is written with the carriage returns it has got has its value, as
these are no part of it. -/
theorem agrees_written (hne : text ≠ [])
    (h : Piece.measure (text ++ after) = (.token kind, text.length)) :
    Agrees ⟨kind, .ofList text, ⟨l, l.pastAll text⟩⟩
      ⟨kind, .ofList (Piece.withReturns text), ⟨l, l.pastAll (Piece.withReturns text)⟩⟩ := by
  have hreturns : withReturns (.ofList text) = .ofList (Piece.withReturns text) := by
    rw [withReturns, String.toList_ofList]
  refine ⟨rfl, rfl, fun _ => ?_, ?_, ?_⟩
  · rw [Piece.pastAll_withReturns]
  · dsimp only
    rw [hreturns]
    rcases Piece.measure_lines hne h with hline | ⟨body, rfl, -, -⟩ | ⟨body, rfl, -, rfl, -⟩
    · rw [Piece.withReturns_eq_self hline, ite_self]
    · rw [if_pos (.inl rfl)]
    · have hopens : ['/', '*'] <+: (String.ofList ('/' :: '*' :: body)).toList := by
        rw [String.toList_ofList]
        exact ⟨body, rfl⟩
      rw [if_pos (.inr ⟨rfl, hopens⟩)]
  · dsimp only
    rcases Piece.measure_lines hne h with hline | ⟨body, rfl, rfl, -⟩ | ⟨body, rfl, -⟩
    · rw [Piece.withReturns_eq_self hline]
    · have hquote : '\n' ∉ ['\x60'] := by decide
      rw [Piece.withReturns_cons (by decide), Piece.withReturns_append,
        Piece.withReturns_eq_self hquote]
      unfold Literal.decode
      dsimp only
      rw [String.toList_ofList, String.toList_ofList, Literal.stringValue_raw,
        Literal.stringValue_raw, ← Literal.utf8Bytes_filter, ← Literal.utf8Bytes_filter,
        Piece.filter_withReturns]
    · rfl

/-- The end of a line may be farther to the right. -/
theorem agrees_inserted (hline : l'.line = l.line) {text : String} (htext : text ≠ ";") :
    Agrees (Lexer.insertedSemi l text) (Lexer.insertedSemi l' text) := by
  refine ⟨rfl, hline, fun hwritten => ?_, ?_, rfl⟩
  · rw [Lexer.isInserted_insertedSemi htext] at hwritten
    exact nomatch hwritten
  · rw [if_neg]
    · rfl
    · rintro (hraw | hunclosed)
      · exact nomatch hraw
      · exact nomatch hunclosed.1

end Token

-- ================================================================= machine

namespace Location

/-- On a line one stays on the line. -/
theorem line_pastAll_takeWhile (l : Location) (text : List Char) :
    (l.pastAll (text.takeWhile (decide <| · ≠ '\n'))).line = l.line := by
  induction text generalizing l with
  | nil => rfl
  | cons c text ih =>
    by_cases hc : c = '\n'
    · rw [hc]
      rfl
    · have hkept : (c :: text).takeWhile (decide <| · ≠ '\n') =
          c :: text.takeWhile (decide <| · ≠ '\n') := List.takeWhile_cons_of_pos (decide_eq_true hc)
      have hpast : (l.past c).line = l.line := by rw [Location.past, if_neg hc]
      rw [hkept, Location.pastAll_cons, ih, hpast]

end Location

namespace Lexer

/-- Two machines that have delivered what agrees. -/
structure Agrees (s s' : Lexer) : Prop where
  here : s'.here = s.here
  endsStatement : s'.endsStatement = s.endsStatement
  comments : List.Forall₂ Comment.Agrees s.comments s'.comments
  lexemes : List.Forall₂ Lexeme.Agrees s.lexemes.toList s'.lexemes.toList

namespace Agrees

variable {s s' : Lexer} {l l' : Location}

theorem moveTo (h : s.Agrees s') (l : Location) :
    Agrees { s with here := l } { s' with here := l } :=
  { h with here := rfl }

theorem comment (h : s.Agrees s') {c c' : Comment} (hc : c.Agrees c') :
    Agrees { s with comments := c :: s.comments } { s' with comments := c' :: s'.comments } :=
  { h with comments := .cons hc h.comments }

theorem emit (h : s.Agrees s') {t t' : Token} (ht : t.Agrees t') (ends : Bool) :
    (s.emit t ends).Agrees (s'.emit t' ends) := by
  refine ⟨h.here, rfl, .nil, ?_⟩
  unfold Lexer.emit
  rw [Array.toList_push, Array.toList_push]
  exact List.rel_append h.lexemes (.cons ⟨List.rel_reverse h.comments, ht⟩ .nil)

theorem lineEnd (h : s.Agrees s') (hline : l'.line = l.line) {text : String} (htext : text ≠ ";") :
    (s.lineEnd l text).Agrees (s'.lineEnd l' text) := by
  unfold Lexer.lineEnd
  rw [h.endsStatement]
  split
  · exact h.emit (Token.agrees_inserted hline htext) false
  · exact h

end Agrees

end Lexer

-- ================================================================== pieces

namespace Piece

variable {cs text after : List Char} {ps qs : List Piece}

/-- The carriage return in front of a newline is a blank, which the piece
before may take over. -/
theorem IsCut.exists_return (h : IsCut (withReturns after) qs) : ∃ extra rest qs',
    withReturns after = extra ++ rest ∧ IsCut rest qs' ∧
    (∀ s : Lexer, qs.foldl Lexer.step s =
      qs'.foldl Lexer.step { s with here := s.here.pastAll extra }) ∧
    (extra = ['\r'] ∧ after.head? = some '\n' ∧ rest.head? = some '\n' ∨
      extra = [] ∧ after.head? ≠ some '\n' ∧ rest.head? = after.head?) := by
  by_cases hhead : after.head? = some '\n'
  · obtain ⟨more, rfl⟩ := List.head?_eq_some_iff.mp hhead
    have hmeasure : measure (['\r'] ++ '\n' :: withReturns more) = (.blank, ['\r'].length) := rfl
    have hcut : IsCut (['\r'] ++ '\n' :: withReturns more) qs := h
    obtain ⟨qs', rfl, hrest⟩ := hcut.uncons (List.cons_ne_nil _ _) hmeasure
    exact ⟨['\r'], _, qs', rfl, hrest, fun s => rfl, .inl ⟨rfl, hhead, rfl⟩⟩
  · exact ⟨[], _, qs, rfl, h, fun s => rfl, .inr ⟨rfl, hhead, head?_withReturns hhead⟩⟩

/-- A text is cut into pieces that agree, once it has its carriage returns,
with those it is cut into without them. -/
def Returned (cs : List Char) (ps : List Piece) : Prop :=
  ∃ qs, IsCut (withReturns cs) qs ∧
    ∀ s s' : Lexer, s.Agrees s' → (ps.foldl Lexer.step s).Agrees (qs.foldl Lexer.step s')

namespace Returned

/-- Blanks end where no blank follows, and a carriage return is one. -/
theorem blank (h : Returned after ps) (hne : text ≠ []) (htext : ∀ c ∈ text, isBlank c = true)
    (hafter : ∀ c ∈ after.head?, isBlank c = false) :
    Returned (text ++ after) (⟨.blank, text⟩ :: ps) := by
  obtain ⟨qs, hqs, hagree⟩ := h
  obtain ⟨extra, rest, qs', hsplit, hrest, hfold, hends⟩ := hqs.exists_return
  have hline : '\n' ∉ text := fun hmem => nomatch htext _ hmem
  have hblanks : ∀ c ∈ text ++ extra, isBlank c = true := by
    rw [List.forall_mem_append]
    refine ⟨htext, ?_⟩
    rcases hends with ⟨rfl, -, -⟩ | ⟨rfl, -, -⟩
    · exact List.forall_mem_singleton.mpr rfl
    · exact nofun
  have hhead : ∀ c ∈ rest.head?, isBlank c = false := by
    rcases hends with ⟨-, -, hhead⟩ | ⟨-, -, hhead⟩
    · rw [hhead]
      rintro c ⟨⟩
      rfl
    · rwa [hhead]
  refine ⟨⟨.blank, text ++ extra⟩ :: qs', ?_, fun s s' hs => ?_⟩
  · rw [withReturns_append, withReturns_eq_self hline, hsplit, ← List.append_assoc]
    exact hrest.blanks (by simp [hne]) hblanks hhead
  · have hmoved := hagree _ _ (hs.moveTo (s.here.pastAll text))
    rw [hfold] at hmoved
    have hstop : s'.here.pastAll (text ++ extra) = (s.here.pastAll text).pastAll extra := by
      rw [Location.pastAll_append, hs.here]
    rw [List.foldl_cons, List.foldl_cons, Lexer.step_blank, Lexer.step_blank, hstop]
    exact hmoved

/-- The blank in front of a newline only moves it. -/
theorem newline (h : Returned after ps) :
    Returned (['\n'] ++ after) (⟨.newline, ['\n']⟩ :: ps) := by
  obtain ⟨qs, hqs, hagree⟩ := h
  have hcut : IsCut (['\n'] ++ withReturns after) (⟨.newline, ['\n']⟩ :: qs) :=
    .piece (List.cons_ne_nil _ _) measure_newline hqs
  have hblank : ∀ c ∈ (['\n'] ++ withReturns after).head?, isBlank c = false := by
    rintro c ⟨⟩
    rfl
  have hreturn : ∀ c ∈ ['\r'], isBlank c = true := List.forall_mem_singleton.mpr rfl
  refine ⟨⟨.blank, ['\r']⟩ :: ⟨.newline, ['\n']⟩ :: qs, ?_, fun s s' hs => hagree _ _ ?_⟩
  · exact hcut.blanks (List.cons_ne_nil _ _) hreturn hblank
  · have hline : (s'.here.pastAll ['\r']).line = s.here.line := by
      rw [hs.here]
      rfl
    have hstop : (s'.here.pastAll ['\r']).pastAll ['\n'] = s.here.pastAll ['\n'] := by
      rw [hs.here]
      rfl
    have hnewline : "\n" ≠ ";" := by decide
    rw [Lexer.step_newline, Lexer.step_blank, Lexer.step_newline, Lexer.lineEnd_moveTo (s := s'),
      hstop]
    exact (hs.lineEnd hline hnewline).moveTo _

/-- A line comment ends with the carriage return behind it, which is no part
of its line. -/
theorem lineComment {body : List Char} (h : Returned after ps)
    (htext : text = '/' :: '/' :: body) (hline : '\n' ∉ text) (hreturn : '\r' ∉ text)
    (hafter : ∀ c ∈ after.head?, c = '\n') :
    Returned (text ++ after) (⟨.lineComment, text⟩ :: ps) := by
  obtain ⟨qs, hqs, hagree⟩ := h
  obtain ⟨extra, rest, qs', hsplit, hrest, hfold, hends⟩ := hqs.exists_return
  have hextra : extra = ['\r'] ∨ extra = [] := hends.imp And.left And.left
  have hlonger : '\n' ∉ body ++ extra := by
    rw [List.mem_append, not_or]
    constructor
    · exact fun hmem => hline (by simp [htext, hmem])
    · rcases hextra with rfl | rfl <;> decide
  have hhead : ∀ c ∈ rest.head?, c = '\n' := by
    rcases hends with ⟨-, -, hhead⟩ | ⟨-, -, hhead⟩
    · rw [hhead]
      exact fun c hc => (Option.some.inj hc).symm
    · rwa [hhead]
  refine ⟨⟨.lineComment, text ++ extra⟩ :: qs', ?_, fun s s' hs => ?_⟩
  · rw [withReturns_append, withReturns_eq_self hline, hsplit, ← List.append_assoc, htext]
    exact .piece (List.cons_ne_nil _ _) (measure_lineComment hlonger hhead) hrest
  · have hcomment : Comment.Agrees (.ofText ⟨s.here, s.here.pastAll text⟩ text)
        (.ofText ⟨s'.here, s'.here.pastAll (text ++ extra)⟩ (text ++ extra)) :=
      Comment.agrees_line hline hreturn hextra hs.here
    have hmoved := hagree _ _ ((hs.comment hcomment).moveTo (s.here.pastAll text))
    have hstop : s'.here.pastAll (text ++ extra) = (s.here.pastAll text).pastAll extra := by
      rw [Location.pastAll_append, hs.here]
    rw [hfold, ← hstop] at hmoved
    rw [List.foldl_cons, List.foldl_cons, Lexer.step_lineComment, Lexer.step_lineComment]
    exact hmoved

/-- A block comment has the same lines but for the carriage returns. -/
theorem blockComment {body : List Char} (h : Returned after ps) (hbody : ¬['*', '/'] <:+: body)
    (htext : text = '/' :: '*' :: (body ++ ['*', '/'])) (hreturn : '\r' ∉ text) :
    Returned (text ++ after) (⟨.blockComment, text⟩ :: ps) := by
  obtain ⟨qs, hqs, hagree⟩ := h
  refine ⟨⟨.blockComment, withReturns text⟩ :: qs, ?_, fun s s' hs => hagree _ _ ?_⟩
  · have hopen : ¬['*', '/'] <:+: withReturns body := fun h => hbody (infix_of_withReturns h)
    have hend : '\n' ∉ ['*', '/'] := by decide
    rw [withReturns_append, htext, withReturns_cons (by decide), withReturns_cons (by decide),
      withReturns_append, withReturns_eq_self hend]
    exact .piece (List.cons_ne_nil _ _) (measure_blockComment hopen _) hqs
  · have hcomment : Comment.Agrees (.ofText ⟨s.here, s.here.pastAll text⟩ text)
        (.ofText ⟨s'.here, s.here.pastAll text⟩ (withReturns text)) :=
      Comment.agrees_withReturns hreturn hs.here
    have hs := hs.comment hcomment
    have hstop : s'.here.pastAll (withReturns text) = s.here.pastAll text := by
      rw [pastAll_withReturns, ← hs.here]
    have hline : (s'.here.pastAll ((withReturns text).takeWhile (decide <| · ≠ '\n'))).line =
        (s.here.pastAll (text.takeWhile (decide <| · ≠ '\n'))).line := by
      rw [Location.line_pastAll_takeWhile, Location.line_pastAll_takeWhile, ← hs.here]
    have hnewline : "\n" ≠ ";" := by decide
    rw [Lexer.step_blockComment, Lexer.step_blockComment]
    dsimp only
    rw [hstop]
    by_cases hmem : '\n' ∈ text
    · rw [if_pos hmem, if_pos (newline_mem_withReturns.mpr hmem)]
      exact (hs.lineEnd hline hnewline).moveTo _
    · rw [if_neg hmem, if_neg fun h => hmem (newline_mem_withReturns.mp h)]
      exact hs.moveTo _

theorem token {kind : Token.Kind} (h : Returned after ps) (hne : text ≠ [])
    (hmeasure : measure (text ++ after) = (.token kind, text.length)) :
    Returned (text ++ after) (⟨.token kind, text⟩ :: ps) := by
  obtain ⟨qs, hqs, hagree⟩ := h
  refine ⟨⟨.token kind, withReturns text⟩ :: qs, ?_, fun s s' hs => hagree _ _ ?_⟩
  · rw [withReturns_append]
    exact .piece (withReturns_ne_nil hne) (measure_withReturns hne hmeasure) hqs
  · rw [Lexer.step_token, Lexer.step_token, hs.here, pastAll_withReturns]
    have ht := Token.agrees_written (l := s.here) hne hmeasure
    rw [pastAll_withReturns] at ht
    exact (hs.emit ht _).moveTo _

end Returned

/-- Read piece by piece, a text agrees with that with its carriage
returns. -/
theorem returned_of_isCut (h : IsCut cs ps) (hcs : '\r' ∉ cs) : Returned cs ps := by
  induction h with
  | nil => exact ⟨[], .nil, fun s s' hs => hs⟩
  | @piece text after kind ps hne hmeasure hrest ih =>
    rw [List.mem_append, not_or] at hcs
    have hrest := ih hcs.2
    cases found_of_measure hne hmeasure with
    | blank htext => exact hrest.blank hne htext (not_blank_after hne htext hmeasure)
    | newline => exact hrest.newline
    | lineComment hbody hafter =>
      exact hrest.lineComment rfl (by simp [hbody]) hcs.1 hafter
    | blockComment hbody => exact hrest.blockComment hbody rfl hcs.1
    | token | rubbish => exact hrest.token hne hmeasure

end Piece

-- ================================================================= streams

namespace Token.Stream

/-- Carriage returns before the newlines of a source change nothing but what
tokens that go on over lines are written with, and where a semicolon that
nobody wrote stands on its line. The kinds of the tokens are the same, and
so are the places of those that were written, the values of the literals,
and the places and the lines of the comments. -/
theorem ofSource_withReturns {source : String} (h : '\r' ∉ source.toList) :
    (ofSource source).Agrees (ofSource (withReturns source)) := by
  obtain ⟨mark, rest, hsource, hmark⟩ := Piece.exists_mark source.toList
  obtain ⟨ps, hps⟩ := Piece.exists_isCut rest
  have hrest : '\r' ∉ rest := fun hmem => h (hsource ▸ List.mem_append_right _ hmem)
  obtain ⟨qs, hqs, hagree⟩ := Piece.returned_of_isCut hps hrest
  have hsource' : (withReturns source).toList = mark ++ Piece.withReturns rest := by
    have hline : '\n' ∉ mark := by rcases hmark with rfl | ⟨rfl, -⟩ <;> decide
    rw [withReturns, String.toList_ofList, hsource, Piece.withReturns_append,
      Piece.withReturns_eq_self hline]
  have hmark' : mark = [byteOrderMark] ∨
      mark = [] ∧ (Piece.withReturns rest).head? ≠ some byteOrderMark := by
    refine hmark.imp_right (And.imp_right fun hnone => ?_)
    by_cases hline : rest.head? = some '\n'
    · obtain ⟨more, rfl⟩ := List.head?_eq_some_iff.mp hline
      exact fun hhead => absurd (Option.some.inj hhead) (by decide)
    · rw [Piece.head?_withReturns hline]
      exact hnone
  let start : Lexer := { Lexer.start with here := Location.first.pastAll mark }
  have hstart : start.Agrees start := ⟨rfl, rfl, .nil, .nil⟩
  have hall := hagree _ _ hstart
  have hline := congrArg Location.line hall.here
  have hempty : "" ≠ ";" := by decide
  have hend := hall.lineEnd hline hempty
  unfold ofSource
  rw [hsource, hsource', Piece.run_marked hps hmark, Piece.run_marked hqs hmark']
  exact ⟨hend.lexemes, List.rel_reverse hend.comments, hend.here⟩

/-- A comment over lines that ends a statement, a raw string with a newline,
and a string that is not closed on its line. -/
theorem ofSource_withReturns_lines :
    let source := "x /*\n*/ := \x60a\nb\x60 // c\n\x22d\n"
    '\r' ∉ source.toList ∧ (ofSource source).Agrees (ofSource (withReturns source)) := by
  have h : '\r' ∉ "x /*\n*/ := \x60a\nb\x60 // c\n\x22d\n".toList := by decide
  exact ⟨h, ofSource_withReturns h⟩

end Token.Stream

end GoSource
