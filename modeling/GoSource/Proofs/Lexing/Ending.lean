/-
A newline at the end of a source.

The end of a source acts like a newline, so a newline more at the end adds
nothing (`ofSource_newline`). It is only seen by what reaches to the end: a
semicolon that nobody wrote is now written as the newline, and a comment
that never ends is longer by it (`Token.beforeNewline`). These are the last
token, if there are any.

All pieces but such a comment are cut off before the newline
(`measure_ending`), which is a piece of its own then (`Ended`).
-/
import GoSource.Proofs.Lexing.Ahead

namespace GoSource

open Piece (byteOrderMark)

-- ================================================================= pieces

namespace Piece

variable {quote : Char} {cs text after : List Char} {kind : PieceKind} {ps : List Piece}

/-- A quote that is open at the end is open at the newline. -/
theorem closingQuote_ending {passed : Nat} (hquote : quote = '\x22' ∨ quote = '\x27')
    (h : closingQuote quote passed cs = none) :
    closingQuote quote passed (cs ++ ['\n']) = none := by
  have hnewline : '\n' ≠ quote := by rcases hquote with rfl | rfl <;> decide
  fun_induction closingQuote quote passed cs with
  | case1 => exact closingQuote_newline hnewline
  | case2 => cases h
  | case3 passed rest hne => exact closingQuote_newline hne
  | case4 passed rest hne => exact closingQuote_broken hne
  | case5 passed d rest hd hne hline ih =>
    rw [List.cons_append, List.cons_append, closingQuote_escape hne hd]
    exact ih h
  | case6 passed hne => exact closingQuote_broken hne
  | case7 passed c rest hne hline hescape ih =>
    rw [List.cons_append, closingQuote_plain hne hline hescape]
    exact ih h

/-- A token does not see the newline at the end. -/
theorem alike_ending (after : List Char) : Alike after (after ++ ['\n']) := by
  refine ⟨⟨after, [], ['\n'], ?_, rfl, nofun, ?_⟩, ?_, ?_, ?_⟩
  · rw [List.append_nil]
  · exact setApart_cons.mpr (by decide)
  · intro hafter hmem
    rcases List.mem_append.mp hmem with hmem | hmem
    · exact hafter hmem
    · exact absurd (List.mem_singleton.mp hmem) (by decide)
  · exact fun quote hquote h => closingQuote_ending hquote h
  · intro hhead
    rw [List.head?_append, hhead]
    rfl

/-- A piece that ends before the source does, or where it does, whatever is
behind it. -/
structure IsWhole (p : Piece) : Prop where
  ne_nil : p.text ≠ []
  closed : ¬(p.kind = .token .error ∧ ['/', '*'] <+: p.text)

theorem measure_ending (h : measure (text ++ after) = (kind, text.length))
    (hwhole : IsWhole ⟨kind, text⟩) :
    measure (text ++ (after ++ ['\n'])) = (kind, text.length) := by
  obtain ⟨hne, hclosed⟩ := hwhole
  have token {kind : Token.Kind} (h : measure (text ++ after) = (.token kind, text.length))
      (hclosed : ¬(kind = .error ∧ ['/', '*'] <+: text)) :
      measure (text ++ (after ++ ['\n'])) = (.token kind, text.length) := by
    refine measure_alike (alike_ending after) hne h fun _ hopens => ?_
    obtain ⟨body, rfl⟩ := hopens
    exact hclosed ⟨(unclosed_of_measure h).1, ⟨body, rfl⟩⟩
  cases found_of_measure hne h with
  | blank htext =>
    have hafter := not_blank_after hne htext h
    refine measure_blank hne htext fun c hc => ?_
    cases after with
    | nil =>
      obtain rfl := Option.some.inj hc
      rfl
    | cons d after => exact hafter c hc
  | newline => rfl
  | lineComment hbody hafter =>
    refine measure_lineComment hbody fun c hc => ?_
    cases after with
    | nil => exact (Option.some.inj hc).symm
    | cons d after => exact hafter c hc
  | blockComment hbody => exact measure_blockComment hbody _
  | token => exact token h (by simpa using hclosed)
  | rubbish => exact token h (by simpa using hclosed)

/-- How the pieces of a text end when it gets a newline more. -/
inductive Ended : List Piece → List Piece → Prop
  | newline : Ended [] [⟨.newline, ['\n']⟩]
  | unclosed {text : List Char} (hopens : ['/', '*'] <+: text) :
      Ended [⟨.token .error, text⟩] [⟨.token .error, text ++ ['\n']⟩]
  | piece {p : Piece} {ps qs : List Piece} (hp : p.IsWhole) (h : Ended ps qs) :
      Ended (p :: ps) (p :: qs)

/-- A newline ends no comment. -/
theorem infix_of_ending (h : ['*', '/'] <:+: cs ++ ['\n']) : ['*', '/'] <:+: cs := by
  rcases List.infix_concat_iff.mp h with ⟨before, hends⟩ | h
  · have hlast := congrArg List.getLast? hends
    simp at hlast
  · exact h

theorem IsCut.alone (hne : text ≠ []) (h : measure text = (kind, text.length)) :
    IsCut text [⟨kind, text⟩] := by
  have hcut := @IsCut.piece text [] kind [] hne (by rwa [List.append_nil]) .nil
  rwa [List.append_nil] at hcut

/-- A comment that never ends goes on to the end, and so it does with the
newline. -/
theorem exists_ended (h : IsCut cs ps) : ∃ qs, IsCut (cs ++ ['\n']) qs ∧ Ended ps qs := by
  induction h with
  | nil => exact ⟨_, .alone (List.cons_ne_nil _ _) measure_newline, .newline⟩
  | @piece text after kind ps hne hmeasure hrest ih =>
    by_cases hunclosed : kind = .token .error ∧ ['/', '*'] <+: text
    · obtain ⟨rfl, body, rfl⟩ := hunclosed
      have hcs : ['/', '*'] ++ body ++ after = '/' :: '*' :: (body ++ after) := rfl
      rw [hcs] at hmeasure
      obtain ⟨-, hopen, hlength⟩ := unclosed_of_measure hmeasure
      simp only [List.length_append, List.length_cons, List.length_nil] at hlength
      obtain rfl : after = [] := List.length_eq_zero_iff.mp (by omega)
      obtain rfl : ps = [] := (cut_eq hrest (Nat.le_refl 0) []).symm
      rw [List.append_nil] at hopen ⊢
      have hlonger := measure_unclosed fun hinfix => hopen (infix_of_ending hinfix)
      exact ⟨_, .alone (List.cons_ne_nil _ _) hlonger, .unclosed ⟨body, rfl⟩⟩
    · obtain ⟨qs, hqs, hended⟩ := ih
      have hwhole : IsWhole ⟨kind, text⟩ := ⟨hne, hunclosed⟩
      refine ⟨⟨kind, text⟩ :: qs, ?_, .piece hwhole hended⟩
      rw [List.append_assoc]
      exact .piece hne (measure_ending hmeasure hwhole) hqs

end Piece

-- ================================================================== tokens

/-- A token in front of a newline at the end of the source. -/
def Token.beforeNewline (t : Token) : Token :=
  if t.kind = .semi ∧ t.text = "" then { t with text := "\n" }
  else if t.IsUnclosedComment then
    { t with text := t.text ++ "\n", span := ⟨t.span.start, t.span.stop.past '\n'⟩ }
  else t

/-- A lexeme with the same comments. -/
def Lexeme.beforeNewline (l : Lexeme) : Lexeme := ⟨l.comments, l.token.beforeNewline⟩

namespace Lexer

variable {s : Lexer} {p : Piece} {t : Token}

/-- What has been delivered does not reach to the end. -/
def Settled (s : Lexer) : Prop := ∀ l ∈ s.lexemes.toList, l.token.beforeNewline = l.token

theorem Settled.emit (hs : s.Settled) (ht : t.beforeNewline = t) (ends : Bool) :
    (s.emit t ends).Settled := by
  intro l hl
  rw [Lexer.emit, Array.toList_push, List.mem_append, List.mem_singleton] at hl
  rcases hl with hl | rfl
  · exact hs l hl
  · exact ht

theorem beforeNewline_newline : (insertedSemi l "\n").beforeNewline = insertedSemi l "\n" := by
  have hne : "\n" ≠ "" := by decide
  unfold Token.beforeNewline
  rw [if_neg fun h => hne h.2, if_neg fun h => nomatch h.1]

theorem Settled.lineEnd (hs : s.Settled) (l : Location) : (s.lineEnd l "\n").Settled := by
  unfold Lexer.lineEnd
  split
  · exact hs.emit beforeNewline_newline false
  · exact hs

theorem Settled.step (hs : s.Settled) (hp : p.IsWhole) : (s.step p).Settled := by
  obtain ⟨kind, text⟩ := p
  cases kind with
  | byteOrderMark | blank | lineComment => exact hs
  | newline => exact hs.lineEnd s.here
  | blockComment =>
    rw [step_blockComment]
    dsimp only
    split
    · have hcommented : Settled { s with
          comments := .ofText ⟨s.here, s.here.pastAll text⟩ text :: s.comments } := hs
      exact hcommented.lineEnd _
    · exact hs
  | token kind =>
    rw [step_token]
    have hopen : ¬Token.IsUnclosedComment ⟨kind, .ofList text, ⟨s.here, s.here.pastAll text⟩⟩ := by
      rintro ⟨rfl, hopens⟩
      rw [String.toList_ofList] at hopens
      exact hp.closed ⟨rfl, hopens⟩
    have hempty : String.ofList text ≠ "" := by
      intro h
      have := congrArg String.toList h
      rw [String.toList_ofList] at this
      exact hp.ne_nil this
    have hwhole : Token.beforeNewline ⟨kind, .ofList text, ⟨s.here, s.here.pastAll text⟩⟩ =
        ⟨kind, .ofList text, ⟨s.here, s.here.pastAll text⟩⟩ := by
      unfold Token.beforeNewline
      rw [if_neg fun h => hempty h.2, if_neg hopen]
    exact hs.emit hwhole kind.endsStatement

/-- How two machines end, of which the second has read a newline more. -/
structure Outlasts (s s' : Lexer) : Prop where
  lexemes : s'.lexemes.toList = s.lexemes.toList.map Lexeme.beforeNewline
  comments : s'.comments = s.comments
  here : s'.here = s.here.past '\n'
  settled : ∀ l ∈ s.lexemes.toList.dropLast, l.token.beforeNewline = l.token
  last : ∀ l ∈ s.lexemes.toList.getLast?, l.token.beforeNewline ≠ l.token →
    l.token.span.stop = s.here

theorem Settled.map (hs : s.Settled) :
    s.lexemes.toList.map Lexeme.beforeNewline = s.lexemes.toList := by
  have hself : ∀ l ∈ s.lexemes.toList, l.beforeNewline = id l := by
    intro l hl
    rw [Lexeme.beforeNewline, hs l hl]
    rfl
  rw [List.map_congr_left hself, List.map_id]

/-- Only the last lexeme reaches to the end. -/
theorem Settled.concat {s₁ s₂ : Lexer} {x : Lexeme} (hs : s.Settled)
    (h₁ : s₁.lexemes.toList = s.lexemes.toList ++ [x])
    (h₂ : s₂.lexemes.toList = s.lexemes.toList ++ [x.beforeNewline])
    (hstop : x.token.span.stop = s₁.here) (hcomments : s₂.comments = s₁.comments)
    (hhere : s₂.here = s₁.here.past '\n') : s₁.Outlasts s₂ := by
  refine ⟨?_, hcomments, hhere, ?_, ?_⟩
  · rw [h₁, h₂, List.map_append, hs.map, List.map_singleton]
  · rw [h₁, List.dropLast_concat]
    exact hs
  · rw [h₁, List.getLast?_concat]
    rintro l ⟨⟩ -
    exact hstop

/-- The end of a source and a newline cause the same semicolon, but for its
text. -/
theorem Settled.newline (hs : s.Settled) :
    s.finish.Outlasts (s.step ⟨.newline, ['\n']⟩).finish := by
  have hfinish : (s.step ⟨.newline, ['\n']⟩).finish = s.step ⟨.newline, ['\n']⟩ :=
    lineEnd_of_not (s := s.step ⟨.newline, ['\n']⟩) endsStatement_lineEnd
  rw [hfinish, step_newline]
  by_cases hends : s.endsStatement = true
  · have hfirst : s.finish = s.emit (insertedSemi s.here "") false := if_pos hends
    have hline : s.lineEnd s.here "\n" = s.emit (insertedSemi s.here "\n") false := if_pos hends
    rw [hfirst, hline]
    exact hs.concat Array.toList_push Array.toList_push rfl rfl rfl
  · have hfirst : s.finish = s := if_neg hends
    have hline : s.lineEnd s.here "\n" = s := if_neg hends
    rw [hfirst, hline]
    refine ⟨hs.map.symm, rfl, rfl, ?_, ?_⟩
    · exact fun l hl => hs l (List.dropLast_subset _ hl)
    · exact fun l hl hne => absurd (hs l (List.mem_of_getLast? hl)) hne

/-- An error ends no statement. -/
theorem finish_error {text : List Char} :
    (s.step ⟨.token .error, text⟩).finish = s.step ⟨.token .error, text⟩ :=
  lineEnd_of_not (s := s.step ⟨.token .error, text⟩) rfl

theorem Settled.unclosed {text : List Char} (hs : s.Settled) (hopens : ['/', '*'] <+: text) :
    (s.step ⟨.token .error, text⟩).finish.Outlasts
      (s.step ⟨.token .error, text ++ ['\n']⟩).finish := by
  have hbefore : Token.beforeNewline ⟨.error, .ofList text, ⟨s.here, s.here.pastAll text⟩⟩ =
      ⟨.error, .ofList (text ++ ['\n']), ⟨s.here, s.here.pastAll (text ++ ['\n'])⟩⟩ := by
    have hunclosed : Token.IsUnclosedComment
        ⟨.error, .ofList text, ⟨s.here, s.here.pastAll text⟩⟩ := by
      refine ⟨rfl, ?_⟩
      rwa [String.toList_ofList]
    have hwritten : ¬(Token.Kind.error = .semi ∧ String.ofList text = "") := fun h => nomatch h.1
    unfold Token.beforeNewline
    rw [if_neg hwritten, if_pos hunclosed, String.ofList_append, Location.pastAll_append]
    rfl
  rw [finish_error, finish_error, step_token, step_token]
  refine hs.concat Array.toList_push ?_ rfl rfl ?_
  · rw [Lexeme.beforeNewline, hbefore]
    exact Array.toList_push
  · exact Location.pastAll_append _ _ _

theorem Settled.ended (hs : s.Settled) {ps qs : List Piece} (h : Piece.Ended ps qs) :
    (ps.foldl Lexer.step s).finish.Outlasts (qs.foldl Lexer.step s).finish := by
  induction h generalizing s with
  | newline => exact hs.newline
  | unclosed hopens => exact hs.unclosed hopens
  | piece hp _ ih => exact ih (hs.step hp)

end Lexer

namespace Token.Stream

/-- A stream in front of a newline at the end of the source. -/
def beforeNewline (s : Token.Stream) : Token.Stream :=
  { lexemes := s.lexemes.map Lexeme.beforeNewline
    trailing := s.trailing
    stop := s.stop.past '\n' }

/-- With a newline at its end, a source has the same tokens and comments in
the same places. Only what is last may be told apart: a semicolon at the
end that nobody wrote has become the newline, and a comment that never ends
has got it as well. -/
theorem ofSource_newline (source : String) :
    ofSource (source ++ "\n") = (ofSource source).beforeNewline ∧
      (∀ l ∈ (ofSource source).lexemes.dropLast, l.token.beforeNewline = l.token) ∧
      ∀ l ∈ (ofSource source).lexemes.getLast?, l.token.beforeNewline ≠ l.token →
        l.token.span.stop = (ofSource source).stop := by
  obtain ⟨mark, rest, hsource, hmark⟩ := Piece.exists_mark source.toList
  obtain ⟨ps, hps⟩ := Piece.exists_isCut rest
  obtain ⟨qs, hqs, hended⟩ := Piece.exists_ended hps
  have hsource' : (source ++ "\n").toList = mark ++ (rest ++ ['\n']) := by
    rw [String.toList_append, hsource, List.append_assoc]
    rfl
  have hmark' : mark = [byteOrderMark] ∨
      mark = [] ∧ (rest ++ ['\n']).head? ≠ some byteOrderMark := by
    refine hmark.imp_right (And.imp_right fun hnone => ?_)
    cases rest with
    | nil => exact fun hhead => absurd (Option.some.inj hhead) (by decide)
    | cons c rest => exact hnone
  let start : Lexer := { Lexer.start with here := Location.first.pastAll mark }
  have hstart : start.Settled := nofun
  have hlast := hstart.ended hended
  unfold ofSource beforeNewline
  rw [hsource, hsource', Piece.run_marked hps hmark, Piece.run_marked hqs hmark']
  refine ⟨?_, hlast.settled, hlast.last⟩
  dsimp only
  rw [hlast.lexemes, hlast.comments, hlast.here]

end Token.Stream

end GoSource
