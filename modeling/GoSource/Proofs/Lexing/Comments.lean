/-
Where comments stand among the tokens.

A comment is delivered with the token behind it, and so it stands between
this token and the one before (`Token.Stream.between_eq`). There is one
exception: a comment over several lines may cause a semicolon, and then this
semicolon, which is a point, stands within the comment that is delivered
with it. Such a comment is between no tokens.
-/
import GoSource.Proofs.Lexing.Blanking

namespace GoSource

-- ============================================================== lexemes

/-- The comments of a lexeme stand one after the other, and each starts
before the token; unless this is a semicolon, each ends before it too. -/
structure Lexeme.Ordered (l : Lexeme) : Prop where
  first_le : ∀ c ∈ l.comments, .first ≤ c.span.start
  wide : ∀ c ∈ l.comments, c.span.start < c.span.stop
  inOrder : l.comments.Pairwise fun c d => c.span.stop ≤ d.span.start
  starts : ∀ c ∈ l.comments, c.span.start < l.token.span.start
  stops : l.token.kind ≠ .semi → ∀ c ∈ l.comments, c.span.stop ≤ l.token.span.start
  token : l.token.span.start ≤ l.token.span.stop

/-- All of a lexeme stands before a place. -/
structure Lexeme.Before (l : Lexeme) (a : Location) : Prop where
  comments : ∀ c ∈ l.comments, c.span.stop ≤ a
  token : l.token.span.stop ≤ a

/-- All of a lexeme stands behind a place. -/
structure Lexeme.Behind (l : Lexeme) (a : Location) : Prop where
  comments : ∀ c ∈ l.comments, a ≤ c.span.start
  token : a ≤ l.token.span.start

/-- One lexeme stands before another. -/
def Lexeme.Precedes (l m : Lexeme) : Prop := ∃ a, l.Before a ∧ m.Behind a

theorem Lexeme.Before.mono {l : Lexeme} {a b : Location} (h : l.Before a) (hab : a ≤ b) :
    l.Before b :=
  ⟨fun c hc => Location.le_trans (h.comments c hc) hab, Location.le_trans h.token hab⟩

-- ============================================================== machine

namespace Lexer

/-- What holds of the lexemes and the comments at every point of a run: the
lexemes stand one after the other up to a place, and then the comments that
wait, up to another. -/
structure Sorted (s : Lexer) (lo hi : Location) : Prop where
  ordered : ∀ l ∈ s.lexemes.toList, l.Ordered
  pairwise : s.lexemes.toList.Pairwise Lexeme.Precedes
  before : ∀ l ∈ s.lexemes.toList, l.Before lo
  first_le : .first ≤ lo
  inOrder : Span.InOrder lo (s.comments.reverse.map (·.span)) hi
  wide : ∀ c ∈ s.comments, c.span.start < c.span.stop

namespace Sorted

variable {s : Lexer} {lo hi mid : Location} {t : Token} {c : Comment}

theorem of_mem (hs : s.Sorted lo hi) (hc : c ∈ s.comments) :
    lo ≤ c.span.start ∧ c.span.start ≤ c.span.stop ∧ c.span.stop ≤ hi :=
  hs.inOrder.of_mem (List.mem_map_of_mem (List.mem_reverse.mpr hc))

theorem mono (hs : s.Sorted lo hi) (h : hi ≤ mid) : s.Sorted lo mid :=
  { hs with inOrder := hs.inOrder.mono (Location.le_refl lo) h }

/-- A comment more. -/
theorem comment (hs : s.Sorted lo hi) (hstart : hi ≤ c.span.start)
    (hwide : c.span.start < c.span.stop) :
    Sorted { s with comments := c :: s.comments } lo c.span.stop := by
  refine { hs with inOrder := ?_, wide := ?_ }
  · dsimp only
    rw [List.reverse_cons, List.map_append]
    exact hs.inOrder.append (.singleton hstart (Location.le_of_lt hwide) (Location.le_refl _))
  · rw [List.forall_mem_cons]
    exact ⟨hwide, hs.wide⟩

/-- A token that takes the comments along. It starts behind all of them, but
may end no later than the last one does. -/
theorem emit (hs : s.Sorted lo hi) (ends : Bool) (hlo : lo ≤ t.span.start)
    (hstarts : ∀ c ∈ s.comments, c.span.start < t.span.start)
    (hstops : t.kind ≠ .semi → hi ≤ t.span.start) (htoken : t.span.start ≤ t.span.stop)
    (ht : t.span.stop ≤ mid) (hhi : hi ≤ mid) : (s.emit t ends).Sorted mid mid := by
  have hmem {c : Comment} (hc : c ∈ s.comments.reverse) : c ∈ s.comments := List.mem_reverse.mp hc
  have hle : lo ≤ mid := Location.le_trans hs.inOrder.le hhi
  let l : Lexeme := ⟨s.comments.reverse, t⟩
  have hl : l.Ordered := by
    refine ⟨fun c hc => ?_, fun c hc => hs.wide c (hmem hc), ?_, fun c hc => hstarts c (hmem hc),
      fun hk c hc => ?_, htoken⟩
    · exact Location.le_trans hs.first_le (hs.of_mem (hmem hc)).1
    · exact List.pairwise_map.mp hs.inOrder.pairwise
    · exact Location.le_trans (hs.of_mem (hmem hc)).2.2 (hstops hk)
  have hbefore : l.Before mid :=
    ⟨fun c hc => Location.le_trans (hs.of_mem (hmem hc)).2.2 hhi, ht⟩
  have hbehind : l.Behind lo := ⟨fun c hc => (hs.of_mem (hmem hc)).1, hlo⟩
  have hlexemes : (s.emit t ends).lexemes.toList = s.lexemes.toList ++ [l] :=
    Array.toList_push
  refine ⟨?_, ?_, ?_, Location.le_trans hs.first_le hle, .nil (Location.le_refl mid), nofun⟩
  · rw [hlexemes, List.forall_mem_append, List.forall_mem_singleton]
    exact ⟨hs.ordered, hl⟩
  · rw [hlexemes, List.pairwise_append]
    refine ⟨hs.pairwise, List.pairwise_singleton _ _, fun m hm l' hl' => ?_⟩
    obtain rfl := List.mem_singleton.mp hl'
    exact ⟨lo, hs.before m hm, hbehind⟩
  · rw [hlexemes, List.forall_mem_append, List.forall_mem_singleton]
    exact ⟨fun m hm => (hs.before m hm).mono hle, hbefore⟩

/-- The end of a line, where the comments have ended or start before. -/
theorem lineEnd (hs : s.Sorted lo hi) {l : Location} (text : String) (hlo : lo ≤ l)
    (hstarts : ∀ c ∈ s.comments, c.span.start < l) (hl : l ≤ mid) (hhi : hi ≤ mid) :
    ∃ lo', (s.lineEnd l text).Sorted lo' mid := by
  unfold Lexer.lineEnd
  split
  · refine ⟨mid, hs.emit false hlo hstarts (fun h => absurd rfl h) ?_ hl hhi⟩
    exact Location.le_refl l
  · exact ⟨lo, hs.mono hhi⟩

/-- Comments that have a width start before the place where they end. -/
theorem starts_lt (hs : s.Sorted lo hi) : ∀ c ∈ s.comments, c.span.start < hi :=
  fun c hc => Location.lt_of_lt_of_le (hs.wide c hc) (hs.of_mem hc).2.2

theorem step (hs : s.Sorted lo s.here) {p : Piece} (hp : p.text ≠ [])
    (hblock : p.kind = .blockComment → p.text.head? = some '/') :
    ∃ lo', (s.step p).Sorted lo' (s.step p).here := by
  have hstop : s.here < s.here.pastAll p.text := Location.lt_pastAll _ hp
  have hle : s.here ≤ s.here.pastAll p.text := Location.le_pastAll _ _
  have moved {s' : Lexer} {lo' : Location} (h : s'.Sorted lo' (s.here.pastAll p.text)) :
      ∃ lo', Sorted { s' with here := s.here.pastAll p.text } lo' (s.here.pastAll p.text) :=
    ⟨lo', h.ordered, h.pairwise, h.before, h.first_le, h.inOrder, h.wide⟩
  let c : Comment := .ofText ⟨s.here, s.here.pastAll p.text⟩ p.text
  have hcomment : Sorted { s with comments := c :: s.comments } lo (s.here.pastAll p.text) :=
    hs.comment (Location.le_refl _) hstop
  unfold Lexer.step
  split
  · exact moved (hs.mono hle)
  · exact moved (hs.mono hle)
  · obtain ⟨lo', h⟩ := hs.lineEnd "\n" hs.inOrder.le hs.starts_lt hle hle
    exact moved h
  · exact moved hcomment
  · next hk =>
    dsimp only
    split
    · -- the semicolon stands behind the slash with which the comment begins
      have hfirst : s.here < s.here.pastAll (p.text.takeWhile (· ≠ '\n')) := by
        apply Location.lt_pastAll
        obtain ⟨rest, hrest⟩ := List.head?_eq_some_iff.mp (hblock hk)
        rw [hrest, List.takeWhile_cons_of_pos (by decide)]
        exact List.cons_ne_nil _ _
      have hstarts : ∀ d ∈ c :: s.comments, d.span.start <
          s.here.pastAll (p.text.takeWhile (· ≠ '\n')) := by
        rw [List.forall_mem_cons]
        exact ⟨hfirst, fun d hd => Location.lt_of_lt_of_le (hs.starts_lt d hd)
          (Location.le_pastAll _ _)⟩
      obtain ⟨lo', h⟩ := hcomment.lineEnd "\n"
        (Location.le_trans hs.inOrder.le (Location.le_pastAll _ _)) hstarts
        (Location.pastAll_takeWhile_le _ _ _) (Location.le_refl _)
      exact moved h
    · exact moved hcomment
  · next k hk =>
    exact moved (hs.emit k.endsStatement hs.inOrder.le hs.starts_lt (fun _ => Location.le_refl _)
      hle (Location.le_refl _) hle)

theorem run (pieces : List Piece) (h : ∀ p ∈ pieces, p.text ≠ [])
    (hblock : ∀ p ∈ pieces, p.kind = .blockComment → p.text.head? = some '/') :
    ∃ lo, (Lexer.run pieces).Sorted lo (Lexer.run pieces).here := by
  have fold : ∀ (s : Lexer) (lo : Location), s.Sorted lo s.here →
      ∃ lo', (pieces.foldl Lexer.step s).Sorted lo' (pieces.foldl Lexer.step s).here := by
    induction pieces with
    | nil => exact fun s lo hs => ⟨lo, hs⟩
    | cons p pieces ih =>
      intro s lo hs
      rw [List.forall_mem_cons] at h hblock
      obtain ⟨lo', hs'⟩ := hs.step h.1 hblock.1
      exact ih h.2 hblock.2 _ lo' hs'
  have hstart : Lexer.start.Sorted .first Lexer.start.here :=
    ⟨nofun, .nil, nofun, Location.le_refl _, .nil (Location.le_refl _), nofun⟩
  obtain ⟨lo, hs⟩ := fold Lexer.start .first hstart
  obtain ⟨lo', h⟩ := hs.lineEnd "" hs.inOrder.le hs.starts_lt (Location.le_refl _)
    (Location.le_refl _)
  refine ⟨lo', ?_⟩
  unfold Lexer.run Lexer.lineEnd at *
  dsimp only
  split at h
  · next hends =>
    rw [if_pos hends]
    exact h
  · next hends =>
    rw [if_neg hends]
    exact h

end Sorted

end Lexer

-- =============================================================== source

/-- The comment stands behind one token, if there is one, and before
another. -/
def Comment.IsBetween (c : Comment) (p : Option Token) (f : Token) : Prop :=
  (∀ t ∈ p, t.span.stop ≤ c.span.start) ∧ c.span.stop ≤ f.span.start

instance (c : Comment) (p : Option Token) (f : Token) : Decidable (c.IsBetween p f) :=
  inferInstanceAs (Decidable (_ ∧ _))

namespace Token.Stream

/-- The lexemes stand one after the other, and then the comments that are
delivered with the end. -/
structure Sorted (s : Token.Stream) : Prop where
  ordered : ∀ l ∈ s.lexemes, l.Ordered
  pairwise : s.lexemes.Pairwise Lexeme.Precedes
  trailing : ∃ a, (∀ l ∈ s.lexemes, l.Before a) ∧ ∀ c ∈ s.trailing, a ≤ c.span.start
  wide : ∀ c ∈ s.trailing, c.span.start < c.span.stop

theorem ofSource_sorted (source : String) : (ofSource source).Sorted := by
  have hblock : ∀ p ∈ Piece.pieces source.toList, p.kind = .blockComment →
      p.text.head? = some '/' := by
    intro p hp hk
    obtain ⟨mark, rest, ps, -, -, hps, hpieces⟩ := Piece.exists_pieces source.toList
    rw [hpieces, List.mem_append] at hp
    rcases hp with hp | hp
    · obtain ⟨c, -, rfl⟩ := List.mem_map.mp hp
      exact nomatch hk
    · obtain ⟨after, hfound⟩ := hps.found p hp
      rw [hk] at hfound
      generalize p.text = text at hfound
      cases hfound
      rfl
  obtain ⟨lo, h⟩ := Lexer.Sorted.run _ (Piece.pieces_ne_nil source.toList) hblock
  refine ⟨h.ordered, h.pairwise, ⟨lo, h.before, fun c hc => ?_⟩, fun c hc => ?_⟩
  · exact (h.of_mem (List.mem_reverse.mp hc)).1
  · exact h.wide c (List.mem_reverse.mp hc)

/-- The comments between two tokens, or before a token that is the first. -/
def between (s : Token.Stream) (p : Option Token) (f : Token) : List Comment :=
  s.comments.filter (·.IsBetween p f)

variable {s : Token.Stream}

theorem Sorted.wide_of_mem (hs : s.Sorted) {c : Comment} (hc : c ∈ s.comments) :
    c.span.start < c.span.stop := by
  rcases List.mem_append.mp hc with hc | hc
  · obtain ⟨l, hl, hc⟩ := List.mem_flatMap.mp hc
    exact (hs.ordered l hl).wide c hc
  · exact hs.wide c hc

theorem Sorted.tokens_inOrder (hs : s.Sorted) : (∀ t ∈ s.tokens, t.span.start ≤ t.span.stop) ∧
    s.tokens.Pairwise fun t u => t.span.stop ≤ u.span.start := by
  constructor
  · intro t ht
    obtain ⟨l, hl, rfl⟩ := List.mem_map.mp ht
    exact (hs.ordered l hl).token
  · rw [tokens, List.pairwise_map]
    refine hs.pairwise.imp ?_
    intro l m h
    obtain ⟨a, hbefore, hbehind⟩ := h
    exact Location.le_trans hbefore.token hbehind.token

/-- A comment that is before a token is not behind it as well. -/
theorem Sorted.not_between (hs : s.Sorted) {before mid after : List Token} {t t' : Token}
    (h : s.tokens = before ++ t :: (mid ++ t' :: after)) {c : Comment}
    (hc : c ∈ s.between before.getLast? t) : c ∉ s.between (before ++ t :: mid).getLast? t' := by
  intro hc'
  obtain ⟨hmem, hbetween⟩ := List.mem_filter.mp hc
  have hbetween' := (List.mem_filter.mp hc').2
  rw [decide_eq_true_eq] at hbetween hbetween'
  obtain ⟨hwide, hpairwise⟩ := hs.tokens_inOrder
  rw [h, List.forall_mem_append] at hwide
  rw [h, List.pairwise_append, List.pairwise_cons] at hpairwise
  have hlast : ∀ p ∈ t :: mid, t.span.start ≤ p.span.stop := by
    intro p hp
    have ht : t.span.start ≤ t.span.stop := hwide.2 t List.mem_cons_self
    rcases List.mem_cons.mp hp with rfl | hp
    · exact ht
    · have hp' : p ∈ mid ++ t' :: after := List.mem_append_left _ hp
      have htp := hpairwise.2.1.1 p hp'
      exact Location.le_trans ht (Location.le_trans htp (hwide.2 p (List.mem_cons_of_mem t hp')))
  have hp := List.getLast_mem (List.cons_ne_nil t mid)
  have hbehind : ((t :: mid).getLast (List.cons_ne_nil t mid)).span.stop ≤ c.span.start := by
    apply hbetween'.1
    rw [List.getLast?_append_of_ne_nil _ (List.cons_ne_nil t mid)]
    exact List.getLast?_eq_some_getLast (List.cons_ne_nil t mid)
  apply Location.not_lt_self c.span.start
  apply Location.lt_of_lt_of_le (hs.wide_of_mem hmem)
  exact Location.le_trans hbetween.2 (Location.le_trans (hlast _ hp) hbehind)

/-- A comment is between the tokens of one place only. -/
theorem Sorted.between_unique (hs : s.Sorted) {before before' after after' : List Token}
    {t t' : Token} {c : Comment} (h : s.tokens = before ++ t :: after)
    (h' : s.tokens = before' ++ t' :: after') (hc : c ∈ s.between before.getLast? t)
    (hc' : c ∈ s.between before'.getLast? t') : before = before' := by
  rcases List.append_eq_append_iff.mp (h.symm.trans h') with ⟨mid, rfl, hmid⟩ | ⟨mid, rfl, hmid⟩
  · cases mid with
    | nil => exact (List.append_nil _).symm
    | cons u mid =>
      obtain ⟨rfl, rfl⟩ := List.cons_eq_cons.mp hmid
      exact absurd hc' (hs.not_between h hc)
  · cases mid with
    | nil => exact List.append_nil _
    | cons u mid =>
      obtain ⟨rfl, rfl⟩ := List.cons_eq_cons.mp hmid
      exact absurd hc (hs.not_between h' hc')

/-- Comments delivered before the last of some lexemes, or with it, start
before this one ends. -/
theorem Sorted.start_lt (hs : s.Sorted) {init post : List Lexeme} {p : Lexeme}
    (h : s.lexemes = init ++ p :: post) {c : Comment}
    (hc : c ∈ (init ++ [p]).flatMap (·.comments)) : c.span.start < p.token.span.stop := by
  have hordered := hs.ordered
  have hpairwise := hs.pairwise
  rw [h, List.forall_mem_append, List.forall_mem_cons] at hordered
  rw [h, List.pairwise_append] at hpairwise
  rw [List.flatMap_append, List.mem_append, List.flatMap_singleton] at hc
  rcases hc with hc | hc
  · obtain ⟨m, hm, hc⟩ := List.mem_flatMap.mp hc
    obtain ⟨a, hma, hpa⟩ := hpairwise.2.2 m hm p List.mem_cons_self
    have hstop : m.token.span.stop ≤ p.token.span.stop :=
      Location.le_trans hma.token (Location.le_trans hpa.token hordered.2.1.token)
    have hm' := hordered.1 m hm
    exact Location.lt_of_lt_of_le (hm'.starts c hc) (Location.le_trans hm'.token hstop)
  · exact Location.lt_of_lt_of_le (hordered.2.1.starts c hc) hordered.2.1.token

/-- Where the comments stand that are delivered earlier or later than some
others. -/
theorem Sorted.comments_around (hs : s.Sorted) {pre post : List Lexeme} {l : Lexeme}
    (h : s.lexemes = pre ++ l :: post) :
    s.comments = pre.flatMap (·.comments) ++
      (l.comments ++ (post.flatMap (·.comments) ++ s.trailing)) ∧
    (∀ c ∈ pre.flatMap (·.comments), ∀ d ∈ l.comments, c.span.stop ≤ d.span.start) ∧
    ∀ c ∈ post.flatMap (·.comments) ++ s.trailing, l.token.span.stop ≤ c.span.start := by
  have hpairwise := hs.pairwise
  obtain ⟨a, hbefore, htrailing⟩ := hs.trailing
  rw [h, List.forall_mem_append, List.forall_mem_cons] at hbefore
  rw [h, List.pairwise_append, List.pairwise_cons] at hpairwise
  obtain ⟨-, ⟨hpost, -⟩, hcross⟩ := hpairwise
  refine ⟨?_, fun c hc d hd => ?_, fun c hc => ?_⟩
  · rw [comments, h, List.flatMap_append, List.flatMap_cons]
    simp only [List.append_assoc]
  · obtain ⟨m, hm, hc⟩ := List.mem_flatMap.mp hc
    obtain ⟨b, hb, hlb⟩ := hcross m hm l List.mem_cons_self
    exact Location.le_trans (hb.comments c hc) (hlb.comments d hd)
  · rcases List.mem_append.mp hc with hc | hc
    · obtain ⟨m, hm, hc⟩ := List.mem_flatMap.mp hc
      obtain ⟨b, hb, hmb⟩ := hpost m hm
      exact Location.le_trans hb.token (hmb.comments c hc)
    · exact Location.le_trans hbefore.2.1.token (htrailing c hc)

/-- The comments between a token and the one before it are those delivered
with it. -/
theorem Sorted.between_eq (hs : s.Sorted) {pre post : List Lexeme} {l : Lexeme}
    (h : s.lexemes = pre ++ l :: post) (hk : l.token.kind ≠ .semi)
    (hwide : l.token.span.start < l.token.span.stop) :
    s.between (pre.getLast?.map (·.token)) l.token = l.comments := by
  obtain ⟨hcomments, -, hbehind⟩ := hs.comments_around h
  have hl : l.Ordered := hs.ordered l (h ▸ List.mem_append_right pre List.mem_cons_self)
  have hearlier : ∀ c ∈ pre.flatMap (·.comments),
      ¬ c.IsBetween (pre.getLast?.map (·.token)) l.token := by
    intro c hc hall
    rcases List.eq_nil_or_concat' pre with rfl | ⟨init, p, rfl⟩
    · exact nomatch hc
    have hstart := hs.start_lt (by rw [h, List.append_assoc]; rfl) hc
    apply Location.not_lt_self c.span.start
    exact Location.lt_of_lt_of_le hstart (hall.1 p.token (by simp))
  have hown : ∀ c ∈ l.comments, c.IsBetween (pre.getLast?.map (·.token)) l.token := by
    intro c hc
    refine ⟨fun t ht => ?_, hl.stops hk c hc⟩
    obtain ⟨p, hp, rfl⟩ := Option.map_eq_some_iff.mp ht
    have hpairwise := hs.pairwise
    rw [h, List.pairwise_append] at hpairwise
    obtain ⟨b, hb, hlb⟩ := hpairwise.2.2 p (List.mem_of_getLast? hp) l List.mem_cons_self
    exact Location.le_trans hb.token (hlb.comments c hc)
  -- whatever starts behind the token does not end before it
  have hlater : ∀ c ∈ post.flatMap (·.comments) ++ s.trailing,
      ¬ c.IsBetween (pre.getLast?.map (·.token)) l.token := by
    intro c hc hbetween
    have hcwide : c.span.start < c.span.stop := by
      apply hs.wide_of_mem
      rw [hcomments]
      exact List.mem_append_right _ (List.mem_append_right _ hc)
    have hlt := Location.lt_of_lt_of_le hwide (hbehind c hc)
    apply Location.not_lt_self l.token.span.start
    exact Location.lt_of_lt_of_le (Location.lt_of_lt_of_le hlt (Location.le_of_lt hcwide))
      hbetween.2
  have none {cs : List Comment}
      (hcs : ∀ c ∈ cs, ¬ c.IsBetween (pre.getLast?.map (·.token)) l.token) :
      cs.filter (·.IsBetween (pre.getLast?.map (·.token)) l.token) = [] :=
    List.filter_eq_nil_iff.mpr fun c hc => by simpa using hcs c hc
  rw [between, hcomments, List.filter_append, List.filter_append, none hearlier, none hlater,
    List.filter_eq_self.mpr fun c hc => decide_eq_true (hown c hc), List.nil_append,
    List.append_nil]

end Token.Stream

end GoSource
