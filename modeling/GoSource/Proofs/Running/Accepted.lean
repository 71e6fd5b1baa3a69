/-
A type that is accepted for itself is accepted where parameters are.

The type production accepts some tokens in full if it takes all of them
when there is nothing else (`AcceptedType`). In a list of parameters it
stands elsewhere: something comes before, which is in the arena and has
ended somewhere, and something comes after, a comma or a parenthesis. It
takes the same tokens there and returns the same type with other numbers
(`AcceptedType.parse_eq`).
-/
import GoSource.Proofs.Arena.Declaration
import GoSource.Proofs.Parsing.Rereads
import GoSource.Proofs.Running.Depth
import GoSource.Proofs.Running.Unswayed

namespace GoSource

open GoSource.Parser

variable {α β : Type} {s s' : Parsing} {ts : List Token} {t : TypeExpr}

-- ============================================================= all alone

/-- The tokens are a type to which nothing is missing, and after which
nothing is left. -/
def AcceptedType (ts : List Token) (t : TypeExpr) : Prop :=
  ∃ depth s, Grammar.parse depth .type (.start (.ofTokens ts) .empty) = .ok t s ∧
    (Parsing.start (.ofTokens ts) .empty).cursor.Takes ts s.cursor

/-- The first run has no more tokens, the second comes to a place. -/
def Fork.atEnd (d : Cursor) : Fork where
  ends := Cursor.Spent
  second := d
  last _ := True
  silent := false
  ends_next := Cursor.Spent.next
  ends_kind h := by rw [h.1]; rfl

/-- All tokens have been taken. -/
theorem Cursor.Takes.spent {stream : Token.Stream} {l : Location} {e : Cursor}
    (h : (before stream l).Takes ts e) (hlen : stream.lexemes.length = ts.length) : e.Spent := by
  obtain ⟨lexemes, trailing, stop⟩ := stream
  induction ts generalizing lexemes l with
  | nil =>
    obtain rfl : lexemes = [] := List.length_eq_zero_iff.mp hlen
    rw [← takes_nil.mp h]
    exact ⟨rfl, rfl⟩
  | cons u us ih =>
    cases lexemes with
    | nil => exact nomatch hlen
    | cons x lexemes => exact ih lexemes h.2.2 (Nat.succ.inj hlen)

/-- Whatever is no end of the input can be taken. -/
theorem Cursor.exists_takes {stream : Token.Stream} (l : Location)
    (h : ∀ t ∈ stream.tokens, t.kind ≠ .eof) : ∃ e, (before stream l).Takes stream.tokens e := by
  obtain ⟨lexemes, trailing, stop⟩ := stream
  induction lexemes generalizing l with
  | nil => exact ⟨_, rfl⟩
  | cons x lexemes ih =>
    obtain ⟨ht, hts⟩ := List.forall_mem_cons.mp h
    obtain ⟨e, he⟩ := ih x.token.span.stop hts
    exact ⟨e, rfl, ht, he⟩

/-- Prepared tokens can be taken from the start. -/
theorem Parsing.takes_start (h : ∀ t ∈ ts, t.kind ≠ .eof) (arena : Arena) :
    ∃ e, (Parsing.start (.ofTokens ts) arena).cursor.Takes ts e := by
  have htokens : (Token.Stream.ofTokens ts).tokens = ts := by
    simp [Token.Stream.ofTokens, Token.Stream.tokens, Function.comp_def]
  rw [← htokens] at h
  have htakes := Cursor.exists_takes .nowhere h
  rwa [htokens] at htakes

namespace AcceptedType

variable (h : AcceptedType ts t)

include h

theorem derives : Derives .type ts t := by
  obtain ⟨depth, s, hs, htakes⟩ := h
  obtain ⟨us, hpass, hus⟩ := SubParser.Sound.type (parse_sound depth) ready_start t s hs
  rwa [htakes.unique hpass.takes]

theorem ne_nil : ts ≠ [] := h.derives.ne_nil rfl

end AcceptedType

-- ============================================================ what is past

/-- Where the last token has ended is not asked before another is taken. -/
def Parser.Anew (p : Parser α) : Prop :=
  ∀ s l x s', p s = .ok x s' → p { s with previousEnd := l } = .ok x s'

namespace Parser.Anew

variable {p q : Parser α} {u : α → Parser β}

theorem of_fails (h : ∀ s x s', p s ≠ .ok x s') : Anew p :=
  fun s _ x s' hx => absurd hx (h s x s')

theorem bind (hp : Anew p) : Anew (p >>= u) := by
  intro s l y s' hy
  obtain ⟨x, s₁, hx, hy⟩ := bind_eq_ok.mp hy
  exact bind_eq_ok.mpr ⟨x, s₁, hp s l x s₁ hx, hy⟩

theorem advance : Anew Parser.advance := fun _ _ _ _ h => h

theorem bind_kind {f : Token.Kind → Parser β} (hf : ∀ k, Anew (f k)) : Anew (kind >>= f) :=
  fun s => hf s.current.kind s

theorem bind_here {f : Location → Parser β} (hf : ∀ l, Anew (f l)) : Anew (here >>= f) :=
  fun s => hf s.current.span.start s

theorem ifAt {k : Token.Kind} (hp : Anew p) (hq : Anew q) :
    Anew (isAt k >>= fun b => if b = true then p else q) := by
  refine bind_kind (f := fun k' => if decide (k' = k) = true then p else q) fun _ => ?_
  split
  · exact hp
  · exact hq

theorem expect (k : Token.Kind) : Anew (Parser.expect k) :=
  ifAt (bind advance) (of_fails fun _ _ _ => unexpected_ne_ok)

theorem ident : Anew Parser.ident :=
  ifAt (bind advance) (of_fails fun _ _ _ => unexpected_ne_ok)

theorem during {name : String} (hp : Anew p) : Anew (Parser.during name p) := by
  intro s l y s' hy
  unfold Parser.during at hy ⊢
  split at hy
  · next s₁ hx =>
    cases hy
    rw [hp { s with trace := name :: s.trace } l y s₁ hx]
  · exact nomatch hy

end Parser.Anew

theorem Grammar.parse_type_anew (depth : Nat) : (Grammar.parse depth .type).Anew := by
  cases depth with
  | zero => exact .of_fails fun _ _ _ h => nomatch h
  | succ depth =>
    have hstruct : (Grammar.parse depth .structType).Anew := by
      cases depth with
      | zero => exact .of_fails fun _ _ _ h => nomatch h
      | succ depth =>
        rw [Grammar.parse_succ]
        exact .during (.bind (.expect _))
    have hinterface : (Grammar.parse depth .interfaceType).Anew := by
      cases depth with
      | zero => exact .of_fails fun _ _ _ h => nomatch h
      | succ depth =>
        rw [Grammar.parse_succ]
        exact .during (.bind (.expect _))
    rw [Grammar.parse_succ]
    refine .during (.bind_here fun _ => .bind_kind fun k => ?_)
    split
    · exact .bind .ident
    iterate 7 exact .bind .advance
    · exact .bind hstruct
    · exact .bind hinterface
    · exact .of_fails fun _ _ _ => unexpected_ne_ok

-- ============================================================== elsewhere

/-- After an empty arena, another one changes the numbers. -/
theorem Grammar.parse_type_arena {depth : Nat} {first e : Parsing} (hempty : first.arena = .empty)
    (h : Grammar.parse depth .type first = .ok t e) (arena : Arena) :
    ∃ e', Grammar.parse depth .type { first with arena } =
      .ok (Renumber.typeExpr arena.count t) e' ∧ e'.cursor = e.cursor := by
  have hcount : ∀ k, arena.count k = Arena.empty.count k + arena.count k := by
    intro k
    cases k <;> exact (Nat.zero_add _).symm
  have hbuilds := SubParser.Builds.type (Grammar.parse_builds depth) first
    { first with arena } rfl ⟨rfl, fun k => hempty ▸ hcount k⟩ (hempty ▸ Arena.closed_empty)
  rw [h] at hbuilds
  generalize hrun : Grammar.parse depth .type { first with arena } = o at hbuilds
  cases hbuilds with
  | @ok _ _ e' apart => exact ⟨e', rfl, by rw [apart.rest]; rfl⟩

/-- A type that has been read is read under every larger limit. -/
theorem Grammar.parse_type_deeper {depth : Nat} (hs : s.Ready .inside)
    (h : Grammar.parse depth .type s = .ok t s') (more : Nat) :
    Grammar.parse (depth + more) .type s = .ok t s' := by
  have htogether : Together ParseError.IsTooDeep (s.trace.length + depth) depth
      (Grammar.parse depth) (Grammar.parse (depth + more)) := together_deeper
  have hjoint := htogether.production .type .inside s trivial hs rfl
  rw [h] at hjoint
  generalize Grammar.parse (depth + more) .type s = o at hjoint
  cases hjoint
  rfl

/-- Under a larger limit and in front of a place where a parameter ends. -/
theorem AcceptedType.parse_eq (h : AcceptedType ts t) : ∃ least, ∀ depth ≥ least, ∀ s d,
    s.Ready .inside → s.cursor.Takes ts d → d.current.kind.endsParam = true →
      ∃ δ s', Grammar.parse depth .type s = .ok (Renumber.typeExpr δ t) s' ∧ s'.cursor = d ∧
        s'.Ready .inside := by
  obtain ⟨least, e, he, htakes⟩ := id h
  refine ⟨least, fun depth hdepth s d hs hd hends => ?_⟩
  obtain ⟨more, rfl⟩ := Nat.exists_eq_add_of_le hdepth
  let first : Parsing := .start (.ofTokens ts) .empty
  let second : Parsing := { first with arena := s.arena, previousEnd := s.previousEnd }
  -- What has come before changes the numbers, and nothing else.
  obtain ⟨e₁, he₁, hcursor⟩ := Grammar.parse_type_arena rfl he s.arena
  have hsecond : Grammar.parse least .type second = .ok (Renumber.typeExpr s.arena.count t) e₁ :=
    Grammar.parse_type_anew least _ _ _ _ he₁
  -- What comes after changes nothing.
  have hspent : e.cursor.Spent := htakes.spent (by simp [Token.Stream.ofTokens])
  have hbeside : second.Beside (.atEnd d) ts s := by
    obtain ⟨u, us, rfl⟩ := List.exists_cons_of_ne_nil h.ne_nil
    have hguard : s.guardAllowed = false := Bool.eq_false_iff.mpr fun hg => nomatch hs.guard hg
    have hfirst : first.Ready .inside := ready_start
    exact ⟨⟨e.cursor, htakes, hspent⟩, hd, fun _ _ => trivial, rfl, hs.inHeader, hguard, rfl,
      hfirst.fueled, hs.fueled, nofun⟩
  have hends : (Fork.atEnd d).second.current.kind.endsType = true :=
    Bool.or_eq_true_iff.mpr (.inr hends)
  obtain ⟨us, s', hs', hend⟩ := Grammar.parse_unswayed hends (p := .type) rfl least second s ts
    hbeside _ _ hsecond
  have hus : us = [] := by
    by_contra hne
    obtain ⟨u, us, rfl⟩ := List.exists_cons_of_ne_nil hne
    exact hend.current_ne_eof (hcursor ▸ hspent.1 : e₁.cursor.current.kind = .eof)
  subst hus
  obtain ⟨vs, hpass, -⟩ := SubParser.Sound.type (parse_sound least) hs _ _ hs'
  exact ⟨s.arena.count, s', Grammar.parse_type_deeper hs hs' more, hend.cursor_eq,
    hs.passes hpass⟩

end GoSource
