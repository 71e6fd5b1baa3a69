/-
What a parser does without comments.

Two runs of a production on the same tokens, the second without the comments:
they fail alike, or the second returns what the first does but for the
documentation. `Echoes g p q` says this of the runs of `p` and `q`, where `g`
takes the documentation out of what is returned.

Comments are handed on from token to token and spent on a declaration, and
nowhere else does the parser look at them. So whatever has no declarations in
it is heedless (`Heedless`): it returns the same, and what comes after it goes
on as if it had not been there.

The arenas of the two runs are of no concern except for how many nodes they
have, because the next node is numbered by that.
-/
import GoSource.Proofs.Documentation.Undocumented
import GoSource.Proofs.Lexing.Blanking
import GoSource.Proofs.Running.Restored

namespace GoSource

open GoSource.Parser

variable {α β σ : Type}

-- ================================================================ two runs

/-- The second state is like the first, but there are no comments, and the
arena may have recorded other things of the same number. -/
structure Quiet (s t : Parsing) : Prop where
  rest : t = { s with ahead := s.ahead.withoutComments, comments := [], arena := t.arena }
  count : ∀ k, t.arena.count k = s.arena.count k

/-- How the two runs end. -/
inductive Echo (g : α → α) :
    EStateM.Result ParseError Parsing α → EStateM.Result ParseError Parsing α → Prop
  | ok {x : α} {s t : Parsing} (h : Quiet s t) : Echo g (.ok x s) (.ok (g x) t)
  | error {e : ParseError} {s t : Parsing} : Echo g (.error e s) (.error e t)

/-- Without comments, the second parser returns what the first does, changed
by a function. -/
def Echoes (g : α → α) (p q : Parser α) : Prop := ∀ s t, Quiet s t → Echo g (p s) (q t)

/-- The parser returns the same without comments. -/
class Heedless (p : Parser α) : Prop where
  echoes : Echoes id p p

theorem Token.Stream.next_withoutComments (s : Token.Stream) :
    s.withoutComments.next = (⟨[], s.next.1.token⟩, s.next.2.withoutComments) := by
  obtain ⟨lexemes, trailing, stop⟩ := s
  cases lexemes <;> rfl

namespace Quiet

variable {s t : Parsing}

theorem next (h : Quiet s t) : Quiet s.next t.next := by
  obtain ⟨hrest, hcount⟩ := h
  refine ⟨?_, hcount⟩
  rw [hrest]
  unfold Parsing.next
  dsimp only
  rw [Token.Stream.next_withoutComments]
  rfl

end Quiet

namespace Echoes

variable {g : α → α} {k : β → β} {p q p' q' : Parser α} {u v : α → Parser β}

-- ============================================================= sequence

theorem pure {x y : α} (hy : y = g x) : Echoes g (Pure.pure x) (Pure.pure y) := by
  intro s t hst
  subst hy
  exact .ok hst

theorem bind (hp : Echoes g p q) (hu : ∀ x, Echoes k (u x) (v (g x))) :
    Echoes k (p >>= u) (q >>= v) := by
  intro s t hst
  have hrun := hp s t hst
  show Echo k (EStateM.bind p u s) (EStateM.bind q v t)
  unfold EStateM.bind
  generalize p s = o, q t = o' at hrun
  cases hrun with
  | ok h => exact hu _ _ _ h
  | error => exact .error

theorem map {f : α → β} (hp : Echoes g p q) (hf : ∀ x, f (g x) = k (f x)) :
    Echoes k (f <$> p) (f <$> q) := by
  rw [map_eq_pure_bind, map_eq_pure_bind]
  exact bind hp fun x => pure (hf x)

theorem bind_pure {x y : α} (h : Echoes k (u x) (v y)) :
    Echoes k ((Pure.pure x : Parser α) >>= u) ((Pure.pure y : Parser α) >>= v) := h

theorem bind_map {γ : Type} {u v : γ → Parser β} {f : α → γ} (hp : Echoes g p q)
    (hu : ∀ x, Echoes k (u (f x)) (v (f (g x)))) :
    Echoes k ((f <$> p) >>= u) ((f <$> q) >>= v) := by
  rw [map_eq_pure_bind, map_eq_pure_bind, bind_assoc, bind_assoc]
  exact bind hp fun x => bind_pure (hu x)

/-- A parser to which comments are of no concern. -/
theorem bind_heedless {p : Parser α} [hp : Heedless p] (hu : ∀ x, Echoes k (u x) (v x)) :
    Echoes k (p >>= u) (p >>= v) := bind hp.echoes hu

-- ============================================================== choices

theorem ite {c : Prop} [Decidable c] (yes : Echoes g p q) (no : Echoes g p' q') :
    Echoes g (if c then p else p') (if c then q else q') := by
  by_cases hc : c
  · rw [if_pos hc, if_pos hc]
    exact yes
  · rw [if_neg hc, if_neg hc]
    exact no

/-- A choice by something that has been looked at. -/
theorem choice {c : Parser Bool} [Heedless c] (yes : Echoes g p q) (no : Echoes g p' q') :
    Echoes g (c >>= fun b => if b = true then p else p')
      (c >>= fun b => if b = true then q else q') :=
  bind_heedless fun _ => ite yes no

/-- The same, where both ways meet afterwards. -/
theorem joinChoice {c : Parser Bool} [Heedless c] (yes : Echoes g p q) (no : Echoes g p' q')
    (rest : ∀ x, Echoes k (u x) (v (g x))) :
    Echoes k (c >>= fun b => if b = true then p >>= u else p' >>= u)
      (c >>= fun b => if b = true then q >>= v else q' >>= v) :=
  choice (bind yes rest) (bind no rest)

theorem joinIte {c : Prop} [Decidable c] (yes : Echoes g p q) (no : Echoes g p' q')
    (rest : ∀ x, Echoes k (u x) (v (g x))) :
    Echoes k (if c then p >>= u else p' >>= u) (if c then q >>= v else q' >>= v) :=
  ite (bind yes rest) (bind no rest)

/-- Something that may be there, after which both ways meet. -/
theorem joinOption {o : Parser (Option Span)} [Heedless o] {p q : Span → Parser α}
    (yes : ∀ sp, Echoes g (p sp) (q sp)) (no : Echoes g p' q')
    (rest : ∀ x, Echoes k (u x) (v (g x))) :
    Echoes k (o >>= fun o => match o with
        | some sp => p sp >>= u
        | none => p' >>= u)
      (o >>= fun o => match o with
        | some sp => q sp >>= v
        | none => q' >>= v) :=
  bind_heedless fun o =>
    match o with
    | some sp => bind (yes sp) rest
    | none => bind no rest

-- =============================================================== errors

theorem throw {e : ParseError} : Echoes g (MonadExcept.throw e) (MonadExcept.throw e) :=
  fun _ _ _ => .error

theorem tooDeep : Echoes g tooDeep tooDeep := by
  intro s t hst
  have htrace : t.trace = s.trace := by rw [hst.rest]
  have hcurrent : t.current = s.current := by rw [hst.rest]
  rw [Parser.tooDeep, Parser.tooDeep, htrace, hcurrent]
  exact .error

-- ================================================================ modes

theorem during {name : String} (h : Echoes g p q) :
    Echoes g (Parser.during name p) (Parser.during name q) := by
  rintro s t ⟨rest, count⟩
  have hrun := h { s with trace := name :: s.trace } { t with trace := name :: t.trace }
    ⟨by rw [rest], count⟩
  unfold Parser.during
  generalize p _ = o, q _ = o' at hrun ⊢
  cases hrun with
  | ok h => exact .ok ⟨by rw [h.rest, rest], h.count⟩
  | error => exact .error

theorem unrestricted (h : Echoes g p q) :
    Echoes g (Parser.unrestricted p) (Parser.unrestricted q) := by
  rintro s t ⟨rest, count⟩
  have hrun := h { s with inHeader := false, guardAllowed := false }
    { t with inHeader := false, guardAllowed := false } ⟨by rw [rest], count⟩
  unfold Parser.unrestricted
  generalize p _ = o, q _ = o' at hrun ⊢
  cases hrun with
  | ok h => exact .ok ⟨by rw [h.rest, rest], h.count⟩
  | error => exact .error

theorem asHeader (h : Echoes g p q) : Echoes g (Parser.asHeader p) (Parser.asHeader q) := by
  rintro s t ⟨rest, count⟩
  have hrun := h { s with inHeader := true } { t with inHeader := true } ⟨by rw [rest], count⟩
  unfold Parser.asHeader
  generalize p _ = o, q _ = o' at hrun ⊢
  cases hrun with
  | ok h => exact .ok ⟨by rw [h.rest, rest], h.count⟩
  | error => exact .error

-- ============================================================ repetition

/-- A turn with what it leads to changed. -/
def turn (g : σ → σ) : Turn σ → Turn σ
  | .again x => .again (g x)
  | .stop x => .stop (g x)

theorem repeating {f h : σ → Parser (Turn σ)} {g : σ → σ} {x y : σ} (hy : y = g x)
    (step : ∀ x, Echoes (turn g) (f x) (h (g x))) :
    Echoes g (Parser.repeating f x) (Parser.repeating h y) := by
  subst hy
  suffices hn : ∀ n x, Echoes g (takeTurns f n x) (takeTurns h n (g x)) by
    intro s t hst
    have hturns : t.turns = s.turns := by rw [hst.rest]
    show Echo g (takeTurns f s.turns x s) (takeTurns h t.turns (g x) t)
    rw [hturns]
    exact hn s.turns x s t hst
  intro n
  induction n with
  | zero => exact fun x => pure rfl
  | succ n ih =>
    intro x
    refine bind (step x) fun next => ?_
    cases next with
    | again x' => exact ih x'
    | stop x' => exact pure rfl

-- ================================================================ arena

/-- A node is numbered by how many there are of its kind. -/
theorem node {add add' : Arena → α × Arena} {visit visit' : Arena → Visit} {kind : NodeKind}
    (hadd : ∀ a : Arena, a.AddsNode kind (visit a) (add a).2)
    (hadd' : ∀ a : Arena, a.AddsNode kind (visit' a) (add' a).2)
    (hx : ∀ a b : Arena, b.count kind = a.count kind → (add' b).1 = g (add a).1) :
    Echoes g (building add) (building add') := by
  intro s t hst
  show Echo g (.ok (add s.arena).1 { s with arena := (add s.arena).2 })
    (.ok (add' t.arena).1 { t with arena := (add' t.arena).2 })
  rw [hx s.arena t.arena (hst.count kind)]
  refine .ok ⟨?_, fun k => ?_⟩
  · rw [hst.rest]
  · show (add' t.arena).2.count k = (add s.arena).2.count k
    rw [(hadd' _).count, (hadd _).count, hst.count]

theorem newDecl {f f' : DeclForm} {sp : Span} (hf : f' = Undocumented.declForm f) :
    Echoes Undocumented.decl (Parser.newDecl f sp) (Parser.newDecl f' sp) := by
  subst hf
  refine node (·.addDecl_adds _) (·.addDecl_adds _) fun a b hab => ?_
  have hsize : b.decls.size = a.decls.size := by simpa [Arena.count, Arena.entries] using hab
  simp [Arena.addDecl, Arena.nextNode, Undocumented.decl, hsize]

theorem newStmt {f f' : StmtForm} {sp : Span} (hf : f' = Undocumented.stmtForm f) :
    Echoes Undocumented.stmt (Parser.newStmt f sp) (Parser.newStmt f' sp) := by
  subst hf
  refine node (·.addStmt_adds _) (·.addStmt_adds _) fun a b hab => ?_
  have hsize : b.stmts.size = a.stmts.size := by simpa [Arena.count, Arena.entries] using hab
  simp [Arena.addStmt, Arena.nextNode, Undocumented.stmt, hsize]

/-- What is recorded may differ, as long as no nodes are added. -/
theorem recording {add add' : Arena → Arena} (hadd : ∀ (a : Arena) k, (add a).count k = a.count k)
    (hadd' : ∀ (a : Arena) k, (add' a).count k = a.count k) :
    Echoes id (recording add) (Parser.recording add') := by
  intro s t hst
  refine .ok ⟨?_, fun k => ?_⟩
  · rw [hst.rest]
  · show (add' t.arena).count k = (add s.arena).count k
    rw [hadd', hadd, hst.count]

end Echoes

namespace Heedless

variable {p q : Parser α} {u : α → Parser β}

-- =============================================================== looking

/-- Something that is read off the state, but not off the comments. -/
theorem of_look {f : Parsing → α} (hf : ∀ s t, Quiet s t → f t = f s) :
    Heedless (fun s => .ok (f s) s : Parser α) := by
  refine ⟨fun s t hst => ?_⟩
  rw [hf s t hst]
  exact .ok hst

instance kind : Heedless kind := of_look fun s t h => by rw [h.rest]

instance current : Heedless current := of_look fun s t h => by rw [h.rest]

instance here : Heedless here := of_look fun s t h => by rw [h.rest]

instance previousEnd : Heedless previousEnd := of_look fun s t h => by rw [h.rest]

instance traceNames : Heedless traceNames := of_look fun s t h => by rw [h.rest]

instance advance : Heedless advance := by
  refine ⟨fun s t hst => ?_⟩
  have hcurrent : t.current = s.current := by rw [hst.rest]
  rw [Parser.advance, Parser.advance, hcurrent]
  exact .ok hst.next

instance allowGuard (allowed : Bool) : Heedless (allowGuard allowed) :=
  ⟨fun s t hst => .ok ⟨by rw [hst.rest], hst.count⟩⟩

-- ============================================================= sequence

instance pure (x : α) : Heedless (Pure.pure x : Parser α) := ⟨.pure rfl⟩

instance throw (e : ParseError) : Heedless (MonadExcept.throw e : Parser α) := ⟨.throw⟩

theorem bind (hp : Heedless p) (hu : ∀ x, Heedless (u x)) : Heedless (p >>= u) :=
  ⟨hp.echoes.bind fun x => (hu x).echoes⟩

/-- After a parser that is known to be heedless. -/
theorem after [hp : Heedless p] (hu : ∀ x, Heedless (u x)) : Heedless (p >>= u) := bind hp hu

theorem map {f : α → β} (hp : Heedless p) : Heedless (f <$> p) := ⟨hp.echoes.map fun _ => rfl⟩

theorem ite {c : Prop} [Decidable c] (hp : Heedless p) (hq : Heedless q) :
    Heedless (if c then p else q) :=
  ⟨hp.echoes.ite hq.echoes⟩

/-- A choice by something that has been looked at. -/
theorem choice {c : Parser Bool} [Heedless c] (hp : Heedless p) (hq : Heedless q) :
    Heedless (c >>= fun b => if b = true then p else q) :=
  after fun _ => ite hp hq

-- ======================================================== single tokens

instance spanFrom (start : Location) : Heedless (spanFrom start) := after fun _ => pure _

instance isAt (k : Token.Kind) : Heedless (isAt k) := after fun _ => pure _

instance eat (k : Token.Kind) : Heedless (eat k) := choice (after fun _ => pure _) (pure _)

instance unexpectedAt (sp : Span) (wanted got : String) :
    Heedless (unexpectedAt sp wanted got : Parser α) := after fun _ => throw _

instance unexpected (wanted : String) : Heedless (unexpected wanted : Parser α) :=
  bind current fun _ => ite (throw _) (unexpectedAt ..)

instance expect (k : Token.Kind) : Heedless (expect k) :=
  choice (after fun _ => pure _) (unexpected _)

instance expectSemi : Heedless expectSemi := choice (pure _) (bind (expect .semi) fun _ => pure _)

-- ================================================== modes, repetition

theorem unrestricted (hp : Heedless p) : Heedless (unrestricted p) := ⟨hp.echoes.unrestricted⟩

theorem repeating {f : σ → Parser (Turn σ)} {x : σ} (hf : ∀ x, Heedless (f x)) :
    Heedless (repeating f x) := by
  have hturn : Echoes.turn (id : σ → σ) = id := by
    funext t
    cases t <;> rfl
  refine ⟨.repeating rfl fun x => ?_⟩
  rw [hturn]
  exact (hf x).echoes

-- ================================================================ arena

/-- Whatever is put on a list, no node is added. -/
theorem recording {add : Arena → Arena} {l : Listing} (hadd : ∀ a : Arena, a.AddsList l (add a)) :
    Heedless (recording add) :=
  ⟨.recording (fun a => (hadd a).count) fun a => (hadd a).count⟩

instance addIdents (ns : List Ident) : Heedless (Parser.recording (·.addIdents ns)) :=
  recording (·.addIdents_adds ns)

instance addExprs (xs : List Expr) : Heedless (Parser.recording (·.addExprs xs)) :=
  recording (·.addExprs_adds xs)

instance addImportSpecs (specs : List ImportSpec) :
    Heedless (Parser.recording (·.addImportSpecs specs)) :=
  recording (·.addImportSpecs_adds specs)

instance addName (text : String) : Heedless (Parser.recording (·.addName text)) :=
  ⟨.recording (fun a => (a.addName_adds text).count) fun a => (a.addName_adds text).count⟩

instance ident : Heedless ident :=
  choice (after fun _ => after fun _ => pure _) (unexpected _)

end Heedless

end GoSource
