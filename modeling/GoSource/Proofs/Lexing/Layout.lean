/-
Tokens, and the gaps between them.

A source is a gap, and then tokens with a gap behind each: a `Layout`. The
tokens of the source are those of its layout, where a gap adds a semicolon
if the token before it asks for one: at the first newline of the gap or,
if there is none and the source ends, at its end (`ofSource_semicolons`).

The lexer does not see gaps. It goes from piece to piece and remembers
whether a semicolon is wanted, and forgets it when there is one
(`Lexer.Crosses`). What pieces add to a gap therefore adds up
(`semicolon_append`), and what the lexer does with the rest of a source is
a matter of how the rest is laid out (`tokens_run`).
-/
import GoSource.Proofs.Lexing.Cut

namespace GoSource

open Piece (IsGap IsCut IsSpelling Found byteOrderMark wordKind_mem numberKind_mem)

-- ============================================================== layouts

/-- A token as it is written, and the gap behind it. -/
structure Word where
  kind : Token.Kind
  text : List Char
  gap : List Char

/-- A source as the gap before the first token and the tokens with the gaps
behind them. -/
structure Layout where
  lead : List Char
  words : List Word

/-- A semicolon that nobody wrote. -/
def Token.isInserted (t : Token) : Bool := t.kind = .semi && t.text ≠ ";"

namespace Layout

/-- What a gap behind a token adds to the tokens: nothing, or a semicolon
at its first newline or, in the last gap, at its end. -/
def semicolon (wanted : Bool) (gap : List Char) (last : Bool) (l : Location) : List Token :=
  if wanted then
    if '\n' ∈ gap then
      [⟨.semi, "\n", .point (l.pastAll (gap.takeWhile (decide <| · ≠ '\n')))⟩]
    else if last then [⟨.semi, "", .point (l.pastAll gap)⟩]
    else []
  else []

/-- A word as a token that stands at a place. -/
def token (w : Word) (l : Location) : Token :=
  ⟨w.kind, .ofList w.text, ⟨l, l.pastAll w.text⟩⟩

/-- The tokens of words that begin at a place, with the semicolons. -/
def tokensFrom : Location → List Word → List Token
  | _, [] => []
  | l, w :: ws =>
    let stop := l.pastAll w.text
    token w l :: semicolon w.kind.endsStatement w.gap ws.isEmpty stop ++
      tokensFrom (stop.pastAll w.gap) ws

/-- The tokens of words without the semicolons. -/
def writtenFrom : Location → List Word → List Token
  | _, [] => []
  | l, w :: ws => token w l :: writtenFrom (l.pastAll (w.text ++ w.gap)) ws

variable (layout : Layout)

def text : List Char := layout.lead ++ layout.words.flatMap fun w => w.text ++ w.gap

def tokens : List Token := tokensFrom (Location.first.pastAll layout.lead) layout.words

def written : List Token := writtenFrom (Location.first.pastAll layout.lead) layout.words

/-- The gaps are white space and comments, but for a mark at the very
beginning. -/
def IsSpaced : Prop :=
  (IsGap layout.lead ∨ ∃ gap, layout.lead = byteOrderMark :: gap ∧ IsGap gap) ∧
    ∀ w ∈ layout.words, IsGap w.gap

/-- Pieces, laid out. -/
def ofPieces : List Piece → Layout
  | [] => ⟨[], []⟩
  | ⟨.token kind, text⟩ :: ps => ⟨[], ⟨kind, text, (ofPieces ps).lead⟩ :: (ofPieces ps).words⟩
  | ⟨_, text⟩ :: ps => ⟨text ++ (ofPieces ps).lead, (ofPieces ps).words⟩

end Layout

-- ============================================================ semicolons

namespace Layout

variable {wanted last : Bool} {gap more : List Char} {l : Location}

@[simp] theorem semicolon_false : semicolon false gap last l = [] := rfl

theorem semicolon_of_notMem (hgap : '\n' ∉ gap) : semicolon wanted gap false l = [] := by
  cases wanted <;> simp [semicolon, hgap]

/-- The first newline of a text is that of its first part, if it has one. -/
theorem takeWhile_append_of_mem (hgap : '\n' ∈ gap) :
    (gap ++ more).takeWhile (decide <| · ≠ '\n') = gap.takeWhile (decide <| · ≠ '\n') := by
  obtain ⟨before, after, rfl, hbefore⟩ := List.eq_append_cons_of_mem hgap
  have hline : ∀ c ∈ before, decide (c ≠ '\n') = true := fun c hc =>
    decide_eq_true fun h => hbefore (h ▸ hc)
  rw [List.append_assoc, List.takeWhile_append_of_pos hline, List.takeWhile_append_of_pos hline]
  rfl

theorem takeWhile_append_of_notMem (hgap : '\n' ∉ gap) :
    (gap ++ more).takeWhile (decide <| · ≠ '\n') =
      gap ++ more.takeWhile (decide <| · ≠ '\n') :=
  List.takeWhile_append_of_pos fun _ hc => decide_eq_true fun h => hgap (h ▸ hc)

/-- A gap in two parts: the second adds a semicolon if the first has not
added it. -/
theorem semicolon_append : semicolon wanted (gap ++ more) last l =
    semicolon wanted gap false l ++
      semicolon (wanted && '\n' ∉ gap) more last (l.pastAll gap) := by
  cases wanted with
  | false => rfl
  | true =>
    unfold semicolon
    by_cases hgap : '\n' ∈ gap
    · rw [takeWhile_append_of_mem hgap]
      simp [hgap]
    · rw [takeWhile_append_of_notMem hgap]
      simp [hgap]

end Layout

namespace Lexer

open Layout (semicolon tokensFrom ofPieces)

variable {s : Lexer} {p : Piece} {ps : List Piece}

def tokens (s : Lexer) : List Token := s.lexemes.toList.map (·.token)

theorem tokens_emit {t : Token} {ends : Bool} : (s.emit t ends).tokens = s.tokens ++ [t] := by
  simp [tokens, Lexer.emit]

section

variable {l l' : Location} {text : List Char}

theorem step_blank : s.step ⟨.blank, text⟩ = { s with here := s.here.pastAll text } := rfl

theorem step_newline : s.step ⟨.newline, text⟩ =
    { s.lineEnd s.here "\n" with here := s.here.pastAll text } := rfl

theorem step_lineComment : s.step ⟨.lineComment, text⟩ =
    { s with
      comments := .ofText ⟨s.here, s.here.pastAll text⟩ text :: s.comments
      here := s.here.pastAll text } := rfl

theorem step_blockComment : s.step ⟨.blockComment, text⟩ =
    let s' := { s with comments := .ofText ⟨s.here, s.here.pastAll text⟩ text :: s.comments }
    let s'' := if '\n' ∈ text then
        s'.lineEnd (s.here.pastAll (text.takeWhile (decide <| · ≠ '\n'))) "\n"
      else s'
    { s'' with here := s.here.pastAll text } := rfl

theorem step_token {kind : Token.Kind} : s.step ⟨.token kind, text⟩ =
    { s.emit ⟨kind, .ofList text, ⟨s.here, s.here.pastAll text⟩⟩ kind.endsStatement with
      here := s.here.pastAll text } := rfl

/-- It does not matter to the end of a line where the machine stands. -/
theorem lineEnd_moveTo (text : String) : ({ s with here := l } : Lexer).lineEnd l' text =
    { s.lineEnd l' text with here := l } := by
  unfold lineEnd
  split <;> rfl

theorem lineEnd_of_not {text : String} (h : s.endsStatement = false) : s.lineEnd l text = s :=
  if_neg (by rw [h]; exact Bool.false_ne_true)

theorem isInserted_insertedSemi {text : String} (htext : text ≠ ";") :
    (insertedSemi l text).isInserted = true := by
  simp [Token.isInserted, insertedSemi, htext]

/-- Once a line has ended, no semicolon is wanted. -/
theorem endsStatement_lineEnd {text : String} : (s.lineEnd l text).endsStatement = false := by
  unfold Lexer.lineEnd
  split
  · rfl
  · next h => simpa using h

end

/-- A part of a gap has been passed: its semicolon is added, and then none
is wanted. -/
structure Crosses (s : Lexer) (gap : List Char) (s' : Lexer) : Prop where
  tokens : s'.tokens = s.tokens ++ semicolon s.endsStatement gap false s.here
  endsStatement : s'.endsStatement = (s.endsStatement && '\n' ∉ gap)

variable {s' : Lexer} {gap after : List Char}

theorem Crosses.quiet (hgap : '\n' ∉ gap) (htokens : s'.tokens = s.tokens)
    (hends : s'.endsStatement = s.endsStatement) : s.Crosses gap s' := by
  constructor
  · rw [htokens, Layout.semicolon_of_notMem hgap, List.append_nil]
  · simp [hends, hgap]

theorem Crosses.lineEnd (hgap : '\n' ∈ gap) :
    s.Crosses gap (s.lineEnd (s.here.pastAll (gap.takeWhile (decide <| · ≠ '\n'))) "\n") := by
  unfold Lexer.lineEnd
  split
  · next h =>
    constructor
    · simp [tokens_emit, semicolon, h, hgap, insertedSemi]
    · simp [hgap, emit]
  · next h =>
    rw [Bool.not_eq_true] at h
    constructor
    · simp [h]
    · simp [h]

theorem Crosses.blockComment : s.Crosses gap (s.step ⟨.blockComment, gap⟩) := by
  unfold Lexer.step
  dsimp only
  by_cases hgap : '\n' ∈ gap
  · rw [if_pos hgap]
    let commented : Lexer :=
      { s with comments := .ofText ⟨s.here, s.here.pastAll gap⟩ gap :: s.comments }
    have hline : commented.Crosses gap _ := .lineEnd hgap
    exact ⟨hline.tokens, hline.endsStatement⟩
  · rw [if_neg hgap]
    exact .quiet hgap rfl rfl

theorem Crosses.step (hkind : ∀ kind, p.kind ≠ .token kind) (h : Found p.kind p.text after) :
    s.Crosses p.text (s.step p) := by
  obtain ⟨kind, text⟩ := p
  cases h with
  | blank htext => exact .quiet (fun hmem => Bool.false_ne_true (htext _ hmem)) rfl rfl
  | newline =>
    have hline : s.Crosses ['\n'] _ := .lineEnd (List.mem_singleton_self _)
    exact ⟨hline.tokens, hline.endsStatement⟩
  | lineComment hbody => exact .quiet (by simpa using hbody) rfl rfl
  | blockComment => exact .blockComment
  | token | rubbish => exact absurd rfl (hkind _)

/-- At the end of a source. -/
def finish (s : Lexer) : Lexer := s.lineEnd s.here ""

theorem tokens_finish : s.finish.tokens = s.tokens ++ semicolon s.endsStatement [] true s.here := by
  unfold finish Lexer.lineEnd
  split
  · next h => simp [tokens_emit, semicolon, h, insertedSemi]
  · next h => simp [semicolon, h]

end Lexer

namespace Layout

variable {p : Piece} {ps : List Piece}

theorem token_or_gap (p : Piece) :
    (∃ kind text, p = ⟨.token kind, text⟩) ∨ ∀ kind, p.kind ≠ .token kind := by
  obtain ⟨kind, text⟩ := p
  cases kind with
  | token kind => exact .inl ⟨kind, text, rfl⟩
  | _ => exact .inr nofun

theorem ofPieces_gap (hkind : ∀ kind, p.kind ≠ .token kind) :
    ofPieces (p :: ps) = ⟨p.text ++ (ofPieces ps).lead, (ofPieces ps).words⟩ := by
  obtain ⟨kind, text⟩ := p
  cases kind with
  | token kind => exact absurd rfl (hkind kind)
  | _ => rfl

/-- The lexer adds the tokens of what is left of a source as it is laid
out. The gap in which it stands may have begun before. -/
theorem tokens_run (hps : ∀ p ∈ ps, ∃ after, Found p.kind p.text after) (s : Lexer) :
    (ps.foldl Lexer.step s).finish.tokens = s.tokens ++
      semicolon s.endsStatement (ofPieces ps).lead (ofPieces ps).words.isEmpty s.here ++
      tokensFrom (s.here.pastAll (ofPieces ps).lead) (ofPieces ps).words := by
  induction ps generalizing s with
  | nil => simp [Lexer.tokens_finish, ofPieces, tokensFrom]
  | cons p ps ih =>
    rw [List.forall_mem_cons] at hps
    obtain ⟨⟨after, hfound⟩, hps⟩ := hps
    rw [List.foldl_cons, ih hps]
    rcases token_or_gap p with ⟨kind, text, rfl⟩ | hkind
    · have htokens : (s.step ⟨.token kind, text⟩).tokens =
          s.tokens ++ [token ⟨kind, text, (ofPieces ps).lead⟩ s.here] :=
        @Lexer.tokens_emit s _ kind.endsStatement
      have hlead : semicolon s.endsStatement [] false s.here = [] :=
        semicolon_of_notMem List.not_mem_nil
      have hrest : (ofPieces (⟨.token kind, text⟩ :: ps)) =
          ⟨[], ⟨kind, text, (ofPieces ps).lead⟩ :: (ofPieces ps).words⟩ := rfl
      rw [htokens, hrest]
      dsimp only [List.isEmpty_cons]
      rw [hlead, tokensFrom]
      simp only [List.append_nil, List.append_assoc]
      rfl
    · obtain ⟨htokens, hends⟩ := Lexer.Crosses.step (s := s) hkind hfound
      have hhere : (s.step p).here = s.here.pastAll p.text := rfl
      rw [htokens, hends, hhere, ofPieces_gap hkind, semicolon_append, Location.pastAll_append]
      simp only [List.append_assoc]

/-- Nothing is lost. -/
theorem text_ofPieces (ps : List Piece) : (ofPieces ps).text = ps.flatMap (·.text) := by
  induction ps with
  | nil => rfl
  | cons p ps ih =>
    rw [List.flatMap_cons, ← ih]
    rcases token_or_gap p with ⟨kind, t, rfl⟩ | hkind
    · simp [ofPieces, text]
    · rw [ofPieces_gap hkind, text, text, List.append_assoc]

theorem words_ofPieces (ps : List Piece) :
    ∀ w ∈ (ofPieces ps).words, (⟨.token w.kind, w.text⟩ : Piece) ∈ ps := by
  induction ps with
  | nil => exact nofun
  | cons p ps ih =>
    intro w hw
    rcases token_or_gap p with ⟨kind, t, rfl⟩ | hkind
    · rcases List.mem_cons.mp hw with rfl | hw
      · exact List.mem_cons_self
      · exact List.mem_cons_of_mem _ (ih w hw)
    · rw [ofPieces_gap hkind] at hw
      exact List.mem_cons_of_mem _ (ih w hw)

/-- What a text is cut into is laid out with gaps of white space and
comments. -/
theorem isGap_ofPieces {cs : List Char} (h : IsCut cs ps) :
    IsGap (ofPieces ps).lead ∧ ∀ w ∈ (ofPieces ps).words, IsGap w.gap := by
  induction h with
  | nil => exact ⟨.nil, nofun⟩
  | @piece t after kind ps hne hmeasure hrest ih =>
    obtain ⟨hlead, hwords⟩ := ih
    have hfound := Piece.found_of_measure hne hmeasure
    cases hfound with
    | token | rubbish =>
      refine ⟨.nil, ?_⟩
      rw [ofPieces, List.forall_mem_cons]
      exact ⟨hlead, hwords⟩
    | blank htext => exact ⟨.blanks htext hlead, hwords⟩
    | newline => exact ⟨.white (by decide) hlead, hwords⟩
    | lineComment hbody hafter =>
      refine ⟨?_, hwords⟩
      have hend : ∀ c ∈ (ofPieces ps).lead.head?, c = '\n' := by
        intro c hc
        obtain ⟨lead, hlead⟩ := List.head?_eq_some_iff.mp hc
        apply hafter
        rw [← Piece.isCut_text hrest, ← text_ofPieces, text, hlead]
        rfl
      exact .line hbody hend hlead
    | @blockComment body _ hbody =>
      have htext : '/' :: '*' :: (body ++ ['*', '/']) ++ (ofPieces ps).lead =
          '/' :: '*' :: (body ++ '*' :: '/' :: (ofPieces ps).lead) := by
        simp
      dsimp only [ofPieces]
      rw [htext]
      exact ⟨.block hbody hlead, hwords⟩

theorem isSpelling_ofPieces {cs : List Char} (h : IsCut cs ps) :
    ∀ w ∈ (ofPieces ps).words, IsSpelling w.kind w.text ∨ w.kind = .error := by
  intro w hw
  obtain ⟨after, hfound⟩ := h.found _ (words_ofPieces ps w hw)
  exact hfound.spelling rfl

end Layout

-- =============================================================== tokens

/-- There is one way to write a semicolon. -/
theorem Piece.IsSpelling.semi {kind : Token.Kind} {text : List Char} (h : IsSpelling kind text)
    (hkind : kind = .semi) : text = [';'] := by
  cases h with
  | word =>
    have hwords : ∀ k ∈ .ident :: Token.Kind.keywords, k ≠ .semi := by decide
    exact absurd hkind (hwords _ (wordKind_mem _))
  | number =>
    have hnumbers : ∀ k ∈ [.imagLit, .floatLit, .intLit], k ≠ Token.Kind.semi := by decide
    exact absurd hkind (hnumbers _ (numberKind_mem _))
  | rawString | string | rune => exact nomatch hkind
  | operator hentry =>
    have hsemi : ∀ entry ∈ operatorTable, entry.2 = .semi → entry.1 = [';'] := by decide
    exact hsemi _ hentry hkind

/-- What was written is not taken for a semicolon that nobody wrote. -/
theorem Token.isInserted_of_spelling {kind : Token.Kind} {text : List Char} {span : Span}
    (h : IsSpelling kind text ∨ kind = .error) :
    (⟨kind, .ofList text, span⟩ : Token).isInserted = false := by
  unfold Token.isInserted
  rw [Bool.and_eq_false_imp, decide_eq_true_eq]
  rintro rfl
  rcases h with hspelling | herror
  · rw [hspelling.semi rfl]
    rfl
  · exact nomatch herror

namespace Layout

theorem filter_semicolon {wanted last : Bool} {gap : List Char} {l : Location} :
    (semicolon wanted gap last l).filter (!·.isInserted) = [] := by
  unfold semicolon
  split
  · split
    · rfl
    · split <;> rfl
  · rfl

/-- Of the tokens those that were written. -/
theorem filter_tokensFrom {ws : List Word} (l : Location)
    (h : ∀ w ∈ ws, IsSpelling w.kind w.text ∨ w.kind = .error) :
    (tokensFrom l ws).filter (!·.isInserted) = writtenFrom l ws := by
  induction ws generalizing l with
  | nil => rfl
  | cons w ws ih =>
    rw [List.forall_mem_cons] at h
    obtain ⟨hw, hws⟩ := h
    have hwritten : (token w l).isInserted = false := Token.isInserted_of_spelling hw
    rw [tokensFrom, List.cons_append, List.filter_cons_of_pos (by rw [hwritten]; rfl),
      List.filter_append, filter_semicolon, List.nil_append, ih _ hws, writtenFrom,
      Location.pastAll_append]

end Layout

namespace Token.Stream

/-- The tokens of a source are those of its pieces as they are laid out,
behind the mark. -/
theorem ofSource_tokens {source : String} {mark rest : List Char} {ps : List Piece}
    (hmark : mark = [] ∨ mark = [byteOrderMark]) (hps : IsCut rest ps)
    (hpieces : Piece.pieces source.toList = mark.map (fun c => ⟨.byteOrderMark, [c]⟩) ++ ps) :
    (ofSource source).tokens =
      (⟨mark ++ (Layout.ofPieces ps).lead, (Layout.ofPieces ps).words⟩ : Layout).tokens := by
  have hrun : (ofSource source).tokens =
      ((Piece.pieces source.toList).foldl Lexer.step .start).finish.tokens := rfl
  have hstart : (mark.map fun c => ⟨.byteOrderMark, [c]⟩).foldl Lexer.step .start =
      { Lexer.start with here := Location.first.pastAll mark } := by
    rcases hmark with rfl | rfl <;> rfl
  rw [hrun, hpieces, List.foldl_append, hstart, Layout.tokens_run hps.found, Layout.tokens,
    Location.pastAll_append]
  rfl

/-- A source is gaps and words, and a gap adds a semicolon where one is
wanted, at its first newline or at the end. -/
theorem ofSource_semicolons (source : String) : ∃ layout : Layout,
    layout.text = source.toList ∧ layout.IsSpaced ∧
    (ofSource source).tokens.filter (!·.isInserted) = layout.written ∧
    (ofSource source).tokens = layout.tokens := by
  obtain ⟨mark, rest, ps, hsource, hmark, hps, hpieces⟩ := Piece.exists_pieces source.toList
  obtain ⟨hlead, hwords⟩ := Layout.isGap_ofPieces hps
  have htokens := ofSource_tokens hmark hps hpieces
  refine ⟨⟨mark ++ (Layout.ofPieces ps).lead, (Layout.ofPieces ps).words⟩, ?_, ⟨?_, hwords⟩, ?_,
    htokens⟩
  · rw [hsource, ← Piece.isCut_text hps, ← Layout.text_ofPieces]
    exact List.append_assoc ..
  · rcases hmark with rfl | rfl
    · exact .inl hlead
    · exact .inr ⟨_, rfl, hlead⟩
  · rw [htokens]
    exact Layout.filter_tokensFrom _ (Layout.isSpelling_ofPieces hps)

-- two newlines in a comment, and none at the end
example : (ofSource "x /*\n\n*/ + f()").tokens.map (·.text) =
    ["x", "\n", "+", "f", "(", ")", ""] := by decide +kernel

end Token.Stream

end GoSource
