/-
The semicolon at the end of the input.

A list of statements or of declarations goes on as long as there are
tokens, and after each of them wants a semicolon or the end. So if one of
two inputs has a semicolon more, the runs are in step until the last of the
other tokens is taken; one run then takes the semicolon, and after that
nothing is left for either (`Parsing.InStep`).
-/
import GoSource.Proofs.Parting.Declaration
import GoSource.Proofs.Running.Accepted

namespace GoSource

open GoSource.Parser

variable {α β σ : Type} {f : Fork} {s s' t : Parsing} {ts : List Token} {u : Token}

-- =============================================================== closing

/-- Nothing is left but the end of the input, or a semicolon before it. -/
def Cursor.Closing (c : Cursor) : Prop := c.Spent ∨ c.current.kind = .semi ∧ c.next.Spent

theorem Cursor.Closing.isEnd {c : Cursor} (h : c.Closing) : c.current.kind.isEnd = true := by
  rcases h with h | h
  · rw [h.1]
    rfl
  · rw [h.1]
    rfl

theorem Cursor.Closing.next {c : Cursor} (h : c.Closing) : c.next.Closing := by
  rcases h with h | h
  · exact .inl h.next
  · exact .inl h.2

theorem Parsing.eq_at {k : Token.Kind} (h : s.current.kind = k) :
    s = { s with current := ⟨k, s.current.text, s.current.span⟩ } := by
  subst h
  rfl

/-- Past a semicolon, if there is one. -/
def Parsing.pastSemi (s : Parsing) : Parsing := if s.current.kind = .semi then s.next else s

theorem Cursor.Closing.pastSemi (h : s.cursor.Closing) : s.pastSemi.cursor.Spent := by
  unfold Parsing.pastSemi
  split
  · next hk =>
    rcases h with h | h
    · exact h.next
    · exact h.2
  · next hk =>
    rcases h with h | h
    · exact h
    · exact absurd h.1 hk

theorem Parsing.pastSemi_of_semi (h : s.current.kind = .semi) : s.pastSemi = s.next := if_pos h

theorem Parsing.pastSemi_of_eof (h : s.current.kind = .eof) : s.pastSemi = s :=
  if_neg (by rw [h]; exact nofun)

@[simp] theorem Parsing.pastSemi_arena (s : Parsing) : s.pastSemi.arena = s.arena := by
  unfold Parsing.pastSemi
  split <;> rfl

theorem Parsing.Fueled.pastSemi (h : s.Fueled) : s.pastSemi.Fueled := by
  unfold Parsing.pastSemi
  split
  · next hk => exact h.passes (.next (by rw [hk]; exact nofun))
  · exact h

-- ================================================================ in step

/-- One run has come to the end of its input, possibly but for a semicolon;
the other has too. -/
structure Fork.Closes (f : Fork) : Prop where
  first : ∀ {c}, f.ends c → c.Closing
  second : f.second.Closing
  last : ¬ f.last .semi
  silent : f.silent = true

theorem Fork.Closes.isEnd (h : f.Closes) : f.second.current.kind.isEnd = true := h.second.isEnd

namespace Parsing

/-- For neither run anything is left. -/
structure Closed (s t : Parsing) : Prop where
  first : s.cursor.Spent
  second : t.cursor.Spent
  arena : t.arena = s.arena
  fueled : s.Fueled
  fueled' : t.Fueled

/-- Both runs are in front of the same tokens, or of none. -/
def InStep (f : Fork) (s t : Parsing) : Prop := (∃ u us, s.Beside f (u :: us) t) ∨ s.Closed t

theorem InStep.fueled (h : s.InStep f t) : s.Fueled ∧ t.Fueled := by
  rcases h with ⟨u, us, h⟩ | h
  · exact ⟨h.fueled, h.fueled'⟩
  · exact ⟨h.fueled, h.fueled'⟩

theorem InStep.arena (h : s.InStep f t) : t.arena = s.arena := by
  rcases h with ⟨u, us, h⟩ | h
  · exact h.arena
  · exact h.arena

/-- A semicolon is not the last of the tokens in common. -/
theorem Beside.next_inStep (hf : f.Closes) {us : List Token} (h : s.Beside f (u :: us) t)
    (hk : s.current.kind = .semi) : s.next.InStep f t.next := by
  cases us with
  | nil =>
    obtain ⟨e, ⟨rfl, -⟩, -⟩ := h.first
    exact absurd (hk ▸ h.last s.current rfl) hf.last
  | cons v vs => exact .inl ⟨v, vs, h.next⟩

/-- Behind the tokens in common only a semicolon can be left. -/
theorem Beside.closed (hf : f.Closes) (h : s.Beside f [] t) : s.pastSemi.Closed t.pastSemi where
  first := (hf.first h.ends).pastSemi
  second := Cursor.Closing.pastSemi (h.cursor_eq ▸ hf.second)
  arena := by rw [pastSemi_arena, pastSemi_arena, h.arena]
  fueled := h.fueled.pastSemi
  fueled' := h.fueled'.pastSemi

end Parsing

/-- Two runs in step are in step afterwards, with the same result. -/
def Parser.Joins (f : Fork) (s t : Parsing) (p : Parser α) : Prop :=
  ∀ x s', p s = .ok x s' → ∃ t', p t = .ok x t' ∧ s'.InStep f t'

namespace Parser.Joins

variable {p : Parser α} {g : α → Parser β}

theorem pure {x : α} (h : s.InStep f t) : Joins f s t (Pure.pure x : Parser α) := by
  intro y s' hy
  cases hy
  exact ⟨t, rfl, h⟩

theorem bind (hp : Joins f s t p) (hg : ∀ x s t, s.InStep f t → Joins f s t (g x)) :
    Joins f s t (p >>= g) := by
  intro y s' hy
  obtain ⟨x, s₁, hx, hy⟩ := bind_eq_ok.mp hy
  obtain ⟨t₁, ht₁, h₁⟩ := hp x s₁ hx
  obtain ⟨t', ht', h'⟩ := hg x s₁ t₁ h₁ y s' hy
  exact ⟨t', bind_eq_ok.mpr ⟨x, t₁, ht₁, ht'⟩, h'⟩

theorem bind_unswayed (hst : s.Beside f ts t) (hp : Unswayed f s t p)
    (hg : ∀ x us s t, s.Beside f us t → Joins f s t (g x)) : Joins f s t (p >>= g) := by
  intro y s' hy
  obtain ⟨x, s₁, hx, hy⟩ := bind_eq_ok.mp hy
  obtain ⟨us, t₁, ht₁, h₁⟩ := hp ts hst x s₁ hx
  obtain ⟨t', ht', h'⟩ := hg x us s₁ t₁ h₁ y s' hy
  exact ⟨t', bind_eq_ok.mpr ⟨x, t₁, ht₁, ht'⟩, h'⟩

/-- Where nothing is left the parser finds that out, and does nothing. -/
theorem of_closed (h : s.Closed t) {x : α} (hp : ∀ (v : Parsing) (text : String) (sp : Span),
    p { v with current := ⟨.eof, text, sp⟩ } = .ok x { v with current := ⟨.eof, text, sp⟩ }) :
    Joins f s t p := by
  have hp' (v : Parsing) (hv : v.current.kind = .eof) : p v = .ok x v := by
    rw [Parsing.eq_at hv, hp]
  intro y s' hy
  rw [hp' s h.first.1] at hy
  cases hy
  exact ⟨t, hp' t h.second.1, .inr h⟩

/-- Behind the tokens in common the parser takes a semicolon, if there is
one. -/
theorem of_closing (hf : f.Closes) (h : s.Beside f [] t) {x : α}
    (heof : ∀ (v : Parsing) (text : String) (sp : Span),
      p { v with current := ⟨.eof, text, sp⟩ } = .ok x { v with current := ⟨.eof, text, sp⟩ })
    (hsemi : ∀ (v : Parsing) (text : String) (sp : Span),
      p { v with current := ⟨.semi, text, sp⟩ } =
        .ok x { v with current := ⟨.semi, text, sp⟩ }.next) : Joins f s t p := by
  have hp (v : Parsing) (hv : v.current.kind.isEnd = true) : p v = .ok x v.pastSemi := by
    rcases Token.Kind.isEnd_cases hv with hk | hk
    · rw [Parsing.pastSemi_of_eof hk, Parsing.eq_at hk, heof]
    · rw [Parsing.pastSemi_of_semi hk, Parsing.eq_at hk, hsemi]
  intro y s' hy
  rw [hp s (f.ends_kind h.ends)] at hy
  cases hy
  have ht : t.current.kind.isEnd = true :=
    Cursor.Closing.isEnd (c := t.cursor) (h.cursor_eq ▸ hf.second)
  exact ⟨t.pastSemi, hp t ht, .inr (h.closed hf)⟩

theorem bind_kind {us : List Token} {g : Token.Kind → Parser β} (hst : s.Beside f (u :: us) t)
    (h : Joins f s t (g s.current.kind)) : Joins f s t (kind >>= g) := by
  intro y s' hy
  obtain ⟨t', ht', h'⟩ := h y s' hy
  rw [← hst.current_eq] at ht'
  exact ⟨t', ht', h'⟩

theorem bind_advance {us : List Token} {g : Token → Parser β} (hst : s.Beside f (u :: us) t)
    (h : Joins f s.next t.next (g s.current)) : Joins f s t (advance >>= g) := by
  intro y s' hy
  obtain ⟨t', ht', h'⟩ := h y s' hy
  rw [← hst.current_eq] at ht'
  exact ⟨t', ht', h'⟩

theorem ifAt {us : List Token} {k : Token.Kind} {q : Parser α} (hst : s.Beside f (u :: us) t)
    (hp : s.current.kind = k → Joins f s t p) (hq : s.current.kind ≠ k → Joins f s t q) :
    Joins f s t (isAt k >>= fun b => if b = true then p else q) := by
  refine bind_kind (g := fun k' => if decide (k' = k) = true then p else q) hst ?_
  split
  · next h => exact hp (of_decide_eq_true h)
  · next h => exact hq fun hk => h (decide_eq_true hk)

theorem bind_eat {us : List Token} {k : Token.Kind} {g : Option Span → Parser β}
    (hst : s.Beside f (u :: us) t)
    (yes : s.current.kind = k → ∀ sp, Joins f s.next t.next (g (some sp)))
    (no : Joins f s t (g none)) : Joins f s t (eat k >>= g) := by
  rw [eat_bind]
  exact ifAt hst (fun hk => bind_advance hst (yes hk _)) fun _ => no

theorem of_fails (h : ∀ s x s', p s ≠ .ok x s') : Joins f s t p :=
  fun _ _ hx => absurd hx (h _ _ _)

theorem map {g : α → β} (hp : Joins f s t p) : Joins f s t (g <$> p) := by
  rw [map_eq_pure_bind]
  exact bind hp fun _ _ _ => pure

theorem recording {add : Arena → Arena} (h : s.InStep f t) :
    Joins f s t (Parser.recording add) := by
  intro y s' hy
  cases hy
  refine ⟨{ t with arena := add t.arena }, rfl, ?_⟩
  rcases h with ⟨u, us, h⟩ | h
  · exact .inl ⟨u, us, { h with arena := by rw [h.arena] }⟩
  · exact .inr { h with arena := by rw [h.arena] }

theorem repeating {turn : σ → Parser (Turn σ)} (hadvances : Advances turn)
    (hturn : ∀ x s t, s.InStep f t → Joins f s t (turn x)) (x : σ) (h : s.InStep f t) :
    Joins f s t (Parser.repeating turn x) := by
  have hturns : ∀ n x s t, s.InStep f t → Joins f s t (takeTurns turn n x) := by
    intro n
    induction n with
    | zero => exact fun x s t h => pure h
    | succ n ih =>
      intro x s t h
      refine bind (hturn x s t h) fun next s' t' h' => ?_
      cases next with
      | again x' => exact ih x' s' t' h'
      | stop x' => exact pure h'
  intro y s' hy
  have hs : s.cursor.left < s.turns := h.fueled.1
  have ht : t.cursor.left < t.turns := h.fueled.2
  have hy : takeTurns turn (s.turns + t.turns) x s = .ok y s' := by
    rw [← hadvances.takeTurns_eq h.fueled.1 hs (by omega)]
    exact hy
  obtain ⟨t', ht', h'⟩ := hturns _ x s t h y s' hy
  refine ⟨t', ?_, h'⟩
  rwa [← hadvances.takeTurns_eq h.fueled.2 ht (by omega)] at ht'

end Parser.Joins

-- ============================================================ separators

namespace Grammar

open Joins

theorem semi_joins (hf : f.Closes) {us : List Token} (hst : s.Beside f (u :: us) t) :
    Joins f s t (expect .semi) :=
  ifAt hst (fun hk => bind_advance hst (.pure (hst.next_inStep hf hk)))
    fun _ => .of_fails fun _ _ _ => unexpected_ne_ok

theorem expectSemi_joins (hf : f.Closes) (hst : s.Beside f ts t) : Joins f s t expectSemi := by
  cases ts with
  | nil => exact of_closing hf hst (fun _ _ _ => rfl) fun _ _ _ => rfl
  | cons u us =>
    exact ifAt hst (fun _ => .pure (.inl ⟨u, us, hst⟩)) fun _ => .map (semi_joins hf hst)

theorem ifAtListEnd_joins {us : List Token} {p q : Parser α} (hst : s.Beside f (u :: us) t)
    (hp : Joins f s t p) (hq : Joins f s t q) :
    Joins f s t (atListEnd >>= fun b => if b = true then p else q) := by
  unfold atListEnd
  rw [bind_assoc]
  refine bind_kind hst ?_
  split
  · exact hp
  · exact hp
  · exact hq

/-- After a statement comes the end of the list or a semicolon. -/
theorem afterStmt_joins (hf : f.Closes) (hst : s.Beside f ts t) (y : α) :
    Joins f s t (atListEnd >>= fun b => if b = true then Pure.pure y
      else expect .semi >>= fun _ => Pure.pure y) := by
  cases ts with
  | nil => exact of_closing hf hst (fun _ _ _ => rfl) fun _ _ _ => rfl
  | cons u us =>
    refine ifAtListEnd_joins hst (.pure (.inl ⟨u, us, hst⟩)) ?_
    exact bind (semi_joins hf hst) fun _ _ _ h => .pure h

-- ================================================================ turns

variable {parse : SubParser}

theorem nextStmt_joins (hf : f.Closes) (hstmt : ∀ s t, Unswayed f s t (parse .statement))
    (stmts : List Stmt) (h : s.InStep f t) : Joins f s t (nextStmt parse stmts) := by
  rcases h with ⟨u, us, hst⟩ | h
  · refine ifAtListEnd_joins hst (.pure (.inl ⟨u, us, hst⟩)) ?_
    refine bind_eat hst (fun hk _ => .pure (hst.next_inStep hf hk)) ?_
    exact bind_unswayed hst (hstmt _ _) fun stmt us s t hst => afterStmt_joins hf hst _
  · exact of_closed h fun _ _ _ => rfl

theorem nextDecl_joins (hf : f.Closes) {decl : Parser (List Decl)}
    (hdecl : ∀ s t, Unswayed f s t decl) (decls : List Decl) (h : s.InStep f t) :
    Joins f s t (nextDecl decl decls) := by
  rcases h with ⟨u, us, hst⟩ | h
  · refine ifAt hst (fun _ => .pure (.inl ⟨u, us, hst⟩)) fun _ => ?_
    refine bind_unswayed hst (hdecl _ _) fun more us s t hst => ?_
    exact bind (expectSemi_joins hf hst) fun _ _ _ h => .pure h
  · exact of_closed h fun _ _ _ => rfl

theorem nextImport_joins (hf : f.Closes) (himport : ∀ s t, Unswayed f s t (parse .importDecl))
    (decls : List Decl) (h : s.InStep f t) : Joins f s t (nextImport parse decls) := by
  rcases h with ⟨u, us, hst⟩ | h
  · refine ifAt hst (fun _ => ?_) fun _ => .pure (.inl ⟨u, us, hst⟩)
    refine bind_unswayed hst (himport _ _) fun decl us s t hst => ?_
    exact bind (expectSemi_joins hf hst) fun _ _ _ h => .pure h
  · exact of_closed h fun _ _ _ => rfl

-- ================================================================ lists

variable (hsound : parse.Sound)
  (hparse : ∀ {α : Type} (p : Production α), p.comesLast = true → ∀ s t, Unswayed f s t (parse p))

include hsound hparse

omit hparse in
theorem stmtList_joins (hf : f.Closes) (hstmt : ∀ s t, Unswayed f s t (parse .statement))
    (h : s.InStep f t) : Joins f s t (stmtList parse) := by
  refine bind (repeating (Loop.stmts.advances hsound) (fun stmts s t h => ?_) [] h) ?_
  · exact nextStmt_joins hf hstmt stmts h
  · exact fun stmts _ _ h => bind (recording h) fun _ _ _ h => .pure h

theorem imports_joins (hf : f.Closes) (h : s.InStep f t) : Joins f s t (imports parse) := by
  refine bind (repeating (Loop.imports.advances hsound) (fun decls s t h => ?_) [] h) ?_
  · exact nextImport_joins hf (hparse .importDecl rfl) decls h
  · exact fun decls _ _ h => bind (recording h) fun _ _ _ h => .pure h

omit hparse in
theorem declsWith_joins (hf : f.Closes) {decl : Parser (List Decl)} (loop : Loop (List Decl))
    (hloop : loop.turn parse = nextDecl decl) (hdecl : ∀ s t, Unswayed f s t decl)
    (h : s.InStep f t) : Joins f s t (declsWith decl) := by
  refine bind (repeating (hloop ▸ loop.advances hsound) (fun decls s t h => ?_) [] h) ?_
  · exact nextDecl_joins hf hdecl decls h
  · exact fun decls _ _ h => bind (recording h) fun _ _ _ h => .pure h

end Grammar

end GoSource
