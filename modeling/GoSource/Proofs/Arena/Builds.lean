/-
What a parser builds, and that it would build the same elsewhere.

Two runs of a production on the same tokens, into two arenas: what they
build can differ in numbers only, by as much as the arenas differed at the
start. `Builds δ g p q a Q` says this of `p`, started with the arena `a`,
and `q`, started with one that has `δ k` more nodes of each kind `k`. They
fail alike, or what `q` returns is what `p` returns, renumbered by `g`.

In passing the arena of the first run is looked after: it grows, it stays
closed, and `Q` holds of the result and the arena behind it, by which is
said what is held there (`Held`). So one pass over the grammar serves two
purposes, to say what an arena is after a parse and to say what it is not
good for; whoever wants the former only takes the same run twice.

# Rules

The rules follow the text of a production from top to bottom, in both runs
at once. Parsers that have nothing to do with the arena need no rules of
their own: they do the same whatever it is (`Ignores`), so what comes after
them goes on at the same arena.
-/
import GoSource.Proofs.Arena.Held
import GoSource.Proofs.Arena.Renumber
import GoSource.Proofs.Parsing.Reads

namespace GoSource

open GoSource.Parser

variable {α β σ : Type}

-- ==================================================== without the arena

namespace Parser

/-- The arena has no part in what the parser does, and is left alone. -/
class Ignores (p : Parser α) : Prop where
  run : ∀ s : Parsing,
    (∃ (x : α) (s' : Parsing), ∀ a, p { s with arena := a } = .ok x { s' with arena := a }) ∨
    ∃ (e : ParseError) (s' : Parsing),
      ∀ a, p { s with arena := a } = .error e { s' with arena := a }

namespace Ignores

instance kind : Ignores kind := ⟨fun s => .inl ⟨s.current.kind, s, fun _ => rfl⟩⟩

instance current : Ignores current := ⟨fun s => .inl ⟨_, s, fun _ => rfl⟩⟩

instance here : Ignores here := ⟨fun s => .inl ⟨s.current.span.start, s, fun _ => rfl⟩⟩

instance previousEnd : Ignores previousEnd := ⟨fun s => .inl ⟨_, s, fun _ => rfl⟩⟩

instance traceNames : Ignores traceNames := ⟨fun s => .inl ⟨s.trace.reverse, s, fun _ => rfl⟩⟩

instance inHeader : Ignores inHeader := ⟨fun s => .inl ⟨_, s, fun _ => rfl⟩⟩

instance guardAllowed : Ignores guardAllowed := ⟨fun s => .inl ⟨_, s, fun _ => rfl⟩⟩

instance advance : Ignores advance := ⟨fun s => .inl ⟨_, s.next, fun _ => rfl⟩⟩

instance allowGuard (b : Bool) : Ignores (allowGuard b) :=
  ⟨fun s => .inl ⟨_, { s with guardAllowed := b }, fun _ => rfl⟩⟩

instance docLines (start : Location) : Ignores (docLines start) := by
  refine ⟨fun s => .inl ⟨?_, { s with comments := [] }, fun _ => ?_⟩⟩
  · exact (documenting start s.previousEnd (start.line - 1) s.comments).reverse.flatMap (·.lines)
  · rfl

instance throw (e : ParseError) : Ignores (MonadExcept.throw e : Parser α) :=
  ⟨fun s => .inr ⟨e, s, fun _ => rfl⟩⟩

instance pure (x : α) : Ignores (Pure.pure x : Parser α) := ⟨fun s => .inl ⟨x, s, fun _ => rfl⟩⟩

theorem bind {p : Parser α} {u : α → Parser β} (hp : Ignores p) (hu : ∀ x, Ignores (u x)) :
    Ignores (p >>= u) := by
  refine ⟨fun s => ?_⟩
  have hbind : ∀ a, (p >>= u) { s with arena := a } = EStateM.bind p u { s with arena := a } :=
    fun _ => rfl
  simp only [hbind, EStateM.bind]
  obtain ⟨x, s', hx⟩ | ⟨e, s', he⟩ := hp.run s
  · simp only [hx]
    exact (hu x).run s'
  · exact .inr ⟨e, s', fun a => by rw [he]⟩

theorem ite {c : Prop} [Decidable c] {p q : Parser α} (hp : Ignores p) (hq : Ignores q) :
    Ignores (if c then p else q) := by
  split
  · exact hp
  · exact hq

instance spanFrom (start : Location) : Ignores (spanFrom start) := bind previousEnd fun _ => pure _

instance isAt (k : Token.Kind) : Ignores (isAt k) := bind kind fun _ => pure _

instance eat (k : Token.Kind) : Ignores (eat k) :=
  bind (isAt k) fun _ => ite (bind advance fun _ => pure _) (pure _)

instance unexpectedAt (sp : Span) (wanted got : String) :
    Ignores (unexpectedAt sp wanted got : Parser α) := bind traceNames fun _ => throw _

instance unexpected (wanted : String) : Ignores (unexpected wanted : Parser α) :=
  bind current fun _ => ite (throw _) (unexpectedAt ..)

instance expect (k : Token.Kind) : Ignores (expect k) :=
  bind (isAt k) fun _ => ite (bind advance fun _ => pure _) (unexpected _)

instance expectSemi : Ignores expectSemi :=
  bind (isAt .eof) fun _ => ite (pure _) (bind (expect .semi) fun _ => pure _)

instance literalValue : Ignores literalValue := by
  refine bind current fun t => ite ?_ (unexpected _)
  split
  · exact bind advance fun _ => pure _
  · exact throw _

end Ignores

end Parser

-- ============================================================= two runs

/-- The second state is like the first, but its arena has more nodes. -/
structure Apart (δ : NodeKind → Nat) (s t : Parsing) : Prop where
  rest : t = { s with arena := t.arena }
  count : ∀ k, t.arena.count k = s.arena.count k + δ k

/-- How the two runs end. -/
inductive Alike (δ : NodeKind → Nat) (g : α → α) (a : Arena) (Q : α → Arena → Prop) :
    EStateM.Result ParseError Parsing α → EStateM.Result ParseError Parsing α → Prop
  | ok {x : α} {s t : Parsing} (apart : Apart δ s t) (grows : a.GrowsTo s.arena)
      (closed : s.arena.Closed) (result : Q x s.arena) : Alike δ g a Q (.ok x s) (.ok (g x) t)
  | error {e : ParseError} {s t : Parsing} (grows : a.GrowsTo s.arena)
      (closed : s.arena.Closed) : Alike δ g a Q (.error e s) (.error e t)

namespace Alike

variable {δ : NodeKind → Nat} {g : α → α} {a b : Arena} {P P' : α → Arena → Prop}
  {o o' : EStateM.Result ParseError Parsing α}

theorem imp (h : Alike δ g a P o o') (himp : ∀ x b, P x b → P' x b) : Alike δ g a P' o o' := by
  cases h with
  | ok apart grows closed result => exact .ok apart grows closed (himp _ _ result)
  | error grows closed => exact .error grows closed

/-- Counted from an earlier arena. -/
theorem after (h : Alike δ g b P o o') (hg : a.GrowsTo b) : Alike δ g a P o o' := by
  cases h with
  | ok apart grows closed result => exact .ok apart (hg.trans grows) closed result
  | error grows closed => exact .error (hg.trans grows) closed

/-- The outcome in other states. -/
def left (f : Parsing → Parsing) :
    EStateM.Result ParseError Parsing α → EStateM.Result ParseError Parsing α
  | .ok x s => .ok x (f s)
  | .error e s => .error e (f s)

/-- States may be changed alike, but for their arenas. -/
theorem leave {f h : Parsing → Parsing} (hrun : Alike δ g a P o o')
    (hf : ∀ s t, Apart δ s t → Apart δ (f s) (h t)) (harena : ∀ s, (f s).arena = s.arena) :
    Alike δ g a P (left f o) (left h o') := by
  cases hrun with
  | @ok x s t apart grows closed result =>
    rw [← harena s] at grows closed result
    exact .ok (hf s t apart) grows closed result
  | @error e s t grows closed =>
    rw [← harena s] at grows closed
    exact .error grows closed

end Alike

/-- With the arena `a`, which is closed, the first parser returns what `Q`
says; with any other, the second returns the same renumbered. -/
def Builds (δ : NodeKind → Nat) (g : α → α) (p q : Parser α) (a : Arena)
    (Q : α → Arena → Prop) : Prop :=
  ∀ s t, s.arena = a → Apart δ s t → a.Closed → Alike δ g a Q (p s) (q t)

namespace Builds

variable {δ : NodeKind → Nat} {g : α → α} {k : β → β} {p q p' q' : Parser α}
  {u v : α → Parser β} {a : Arena} {P P' : α → Arena → Prop} {Q : β → Arena → Prop}

theorem imp (h : Builds δ g p q a P) (himp : ∀ x b, P x b → P' x b) : Builds δ g p q a P' :=
  fun s t hs hst ha => (h s t hs hst ha).imp himp

/-- That the arena is closed may be used. -/
theorem closing (h : a.Closed → Builds δ g p q a P) : Builds δ g p q a P :=
  fun s t hs hst ha => h ha s t hs hst ha

-- ============================================================= sequence

theorem pure {x y : α} (hx : P x a) (hy : y = g x) :
    Builds δ g (Pure.pure x) (Pure.pure y) a P := by
  rintro s t rfl hst ha
  subst hy
  exact .ok hst (.refl _) ha hx

theorem bind (hp : Builds δ g p q a P) (hu : ∀ x b, P x b → Builds δ k (u x) (v (g x)) b Q) :
    Builds δ k (p >>= u) (q >>= v) a Q := by
  intro s t hs hst ha
  have hrun := hp s t hs hst ha
  show Alike δ k a Q (EStateM.bind p u s) (EStateM.bind q v t)
  unfold EStateM.bind
  generalize p s = o, q t = o' at hrun
  cases hrun with
  | ok apart grows closed result => exact (hu _ _ result _ _ rfl apart closed).after grows
  | error grows closed => exact .error grows closed

theorem map {f : α → β} (hp : Builds δ g p q a P)
    (hf : ∀ x b, P x b → Q (f x) b ∧ f (g x) = k (f x)) :
    Builds δ k (f <$> p) (f <$> q) a Q := by
  rw [map_eq_pure_bind, map_eq_pure_bind]
  exact bind hp fun x b hx => pure (hf x b hx).1 (hf x b hx).2

theorem bind_pure {x y : α} (h : Builds δ k (u x) (v y) a Q) :
    Builds δ k ((Pure.pure x : Parser α) >>= u) ((Pure.pure y : Parser α) >>= v) a Q := h

theorem bind_map {γ : Type} {u v : γ → Parser β} {f : α → γ} (hp : Builds δ g p q a P)
    (hu : ∀ x b, P x b → Builds δ k (u (f x)) (v (f (g x))) b Q) :
    Builds δ k ((f <$> p) >>= u) ((f <$> q) >>= v) a Q := by
  rw [map_eq_pure_bind, map_eq_pure_bind, bind_assoc, bind_assoc]
  exact bind hp fun x b hx => bind_pure (hu x b hx)

/-- A parser that has nothing to do with the arena. -/
theorem ignored {p : Parser α} [hp : Ignores p] : Builds δ id p p a fun _ b => b = a := by
  rintro s t rfl ⟨rest, count⟩ ha
  obtain ⟨x, s', hx⟩ | ⟨e, s', he⟩ := hp.run s
  · have hs : p s = .ok x { s' with arena := s.arena } := hx s.arena
    rw [hs, rest, hx]
    exact .ok ⟨rfl, count⟩ (.refl _) ha rfl
  · have hs : p s = .error e { s' with arena := s.arena } := he s.arena
    rw [hs, rest, he]
    exact .error (.refl _) ha

theorem bind_look {p : Parser α} [Ignores p] (hu : ∀ x, Builds δ k (u x) (v x) a Q) :
    Builds δ k (p >>= u) (p >>= v) a Q :=
  bind ignored fun x _ hb => hb ▸ hu x

-- ============================================================== choices

theorem ite {c : Prop} [Decidable c] (yes : c → Builds δ g p q a P)
    (no : ¬c → Builds δ g p' q' a P) :
    Builds δ g (if c then p else p') (if c then q else q') a P := by
  by_cases hc : c
  · rw [if_pos hc, if_pos hc]
    exact yes hc
  · rw [if_neg hc, if_neg hc]
    exact no hc

/-- A choice by something that has been looked at. -/
theorem choice {c : Parser Bool} [Ignores c] (yes : Builds δ g p q a P)
    (no : Builds δ g p' q' a P) :
    Builds δ g (c >>= fun b => if b = true then p else p')
      (c >>= fun b => if b = true then q else q') a P :=
  bind_look fun _ => ite (fun _ => yes) fun _ => no

/-- The same, where both ways meet afterwards. -/
theorem joinChoice {c : Parser Bool} [Ignores c] (yes : Builds δ g p q a P)
    (no : Builds δ g p' q' a P) (rest : ∀ x b, P x b → Builds δ k (u x) (v (g x)) b Q) :
    Builds δ k (c >>= fun b => if b = true then p >>= u else p' >>= u)
      (c >>= fun b => if b = true then q >>= v else q' >>= v) a Q :=
  choice (bind yes rest) (bind no rest)

theorem joinIte {c : Prop} [Decidable c] (yes : c → Builds δ g p q a P)
    (no : ¬c → Builds δ g p' q' a P) (rest : ∀ x b, P x b → Builds δ k (u x) (v (g x)) b Q) :
    Builds δ k (if c then p >>= u else p' >>= u) (if c then q >>= v else q' >>= v) a Q :=
  ite (fun hc => bind (yes hc) rest) fun hc => bind (no hc) rest

/-- Something that may be there, after which both ways meet. -/
theorem joinOption {o : Parser (Option Span)} [Ignores o] {p q : Span → Parser α}
    (yes : ∀ sp, Builds δ g (p sp) (q sp) a P) (no : Builds δ g p' q' a P)
    (rest : ∀ x b, P x b → Builds δ k (u x) (v (g x)) b Q) :
    Builds δ k (o >>= fun o => match o with
        | some sp => p sp >>= u
        | none => p' >>= u)
      (o >>= fun o => match o with
        | some sp => q sp >>= v
        | none => q' >>= v) a Q :=
  bind_look fun o =>
    match o with
    | some sp => bind (yes sp) rest
    | none => bind no rest

-- =============================================================== errors

theorem throw {e : ParseError} :
    Builds δ g (MonadExcept.throw e) (MonadExcept.throw e) a P :=
  fun _ _ hs _ ha => .error (hs ▸ .refl a) (hs ▸ ha)

theorem tooDeep : Builds δ g tooDeep tooDeep a P := by
  intro s t hs hst ha
  have htrace : t.trace = s.trace := by rw [hst.rest]
  have hcurrent : t.current = s.current := by rw [hst.rest]
  rw [Parser.tooDeep, Parser.tooDeep, htrace, hcurrent]
  exact .error (hs ▸ .refl a) (hs ▸ ha)

theorem unexpectedAt {sp : Span} {wanted got : String} :
    Builds δ g (unexpectedAt sp wanted got) (Parser.unexpectedAt sp wanted got) a P :=
  bind_look fun _ => throw

theorem unexpected {wanted : String} :
    Builds δ g (unexpected wanted) (Parser.unexpected wanted) a P :=
  bind_look fun _ => ite (fun _ => throw) fun _ => unexpectedAt

/-- Nothing is reached behind an error. -/
theorem bind_unexpected {wanted : String} :
    Builds δ k ((Parser.unexpected wanted : Parser α) >>= u)
      ((Parser.unexpected wanted : Parser α) >>= v) a Q :=
  bind (g := id) (P := fun _ _ => False) unexpected nofun

-- ================================================================ modes

theorem during {name : String} (h : Builds δ g p q a P) :
    Builds δ g (Parser.during name p) (Parser.during name q) a P := by
  rintro s t hs ⟨rest, count⟩ ha
  have hrun := h { s with trace := name :: s.trace } { t with trace := name :: t.trace } hs
    ⟨by rw [rest], count⟩ ha
  refine hrun.leave (f := ({ · with trace := s.trace })) (h := ({ · with trace := t.trace }))
    (fun s' t' h => ⟨?_, h.count⟩) fun _ => rfl
  rw [h.rest, rest]

theorem unrestricted (h : Builds δ g p q a P) :
    Builds δ g (Parser.unrestricted p) (Parser.unrestricted q) a P := by
  rintro s t hs ⟨rest, count⟩ ha
  have hrun := h { s with inHeader := false, guardAllowed := false }
    { t with inHeader := false, guardAllowed := false } hs ⟨by rw [rest], count⟩ ha
  refine hrun.leave
    (f := ({ · with inHeader := s.inHeader, guardAllowed := s.guardAllowed }))
    (h := ({ · with inHeader := t.inHeader, guardAllowed := t.guardAllowed }))
    (fun s' t' h => ⟨?_, h.count⟩) fun _ => rfl
  rw [h.rest, rest]

theorem asHeader (h : Builds δ g p q a P) :
    Builds δ g (Parser.asHeader p) (Parser.asHeader q) a P := by
  rintro s t hs ⟨rest, count⟩ ha
  have hrun := h { s with inHeader := true } { t with inHeader := true } hs ⟨by rw [rest], count⟩ ha
  refine hrun.leave (f := ({ · with inHeader := s.inHeader }))
    (h := ({ · with inHeader := t.inHeader })) (fun s' t' h => ⟨?_, h.count⟩) fun _ => rfl
  rw [h.rest, rest]

-- ============================================================ repetition

/-- A turn with what it leads to replaced. -/
def turn (g : σ → σ) : Turn σ → Turn σ
  | .again x => .again (g x)
  | .stop x => .stop (g x)

/-- What holds of what a turn leads to. -/
def Leads (I : σ → Arena → Prop) : Turn σ → Arena → Prop
  | .again x, b => I x b
  | .stop x, b => I x b

theorem repeating {f h : σ → Parser (Turn σ)} {g : σ → σ} {x y : σ} {I : σ → Arena → Prop}
    (init : I x a) (hy : y = g x)
    (step : ∀ x b, I x b → Builds δ (turn g) (f x) (h (g x)) b (Leads I)) :
    Builds δ g (Parser.repeating f x) (Parser.repeating h y) a I := by
  subst hy
  suffices hn : ∀ n x b, I x b → Builds δ g (takeTurns f n x) (takeTurns h n (g x)) b I by
    intro s t hs hst ha
    have hturns : t.turns = s.turns := by rw [hst.rest]
    show Alike δ g a I (takeTurns f s.turns x s) (takeTurns h t.turns (g x) t)
    rw [hturns]
    exact hn s.turns x a init s t hs hst ha
  intro n
  induction n with
  | zero => exact fun x b hx => pure hx rfl
  | succ n ih =>
    intro x b hx
    refine bind (step x b hx) fun next c hnext => ?_
    cases next with
    | again x' => exact ih x' c hnext
    | stop x' => exact pure hnext rfl

-- ================================================================ nodes

section

open Renumber

variable {a₀ : Arena} {ps : List Part} {ls : List Listing} {sp : Span}

/-- A node of what is held. -/
theorem node {add add' : Arena → α × Arena} {visit : α → Visit} {kind : NodeKind}
    (hadd : a.AddsNode kind (visit (add a).1) (add a).2)
    (hadd' : ∀ b : Arena, b.AddsNode kind (visit (add' b).1) (add' b).2)
    (hx : ∀ b : Arena, b.count kind = a.count kind + δ kind → (add' b).1 = g (add a).1)
    (h : Held a₀ a (visit (add a).1).parts (visit (add a).1).lists) :
    Builds δ g (building add) (building add') a fun x b => Held a₀ b [.node (visit x)] [] := by
  rintro s t rfl hst ha
  show Alike δ g _ _ (.ok (add s.arena).1 { s with arena := (add s.arena).2 })
    (.ok (add' t.arena).1 { t with arena := (add' t.arena).2 })
  rw [hx t.arena (hst.count kind)]
  refine .ok ⟨?_, fun k => ?_⟩ hadd.grows (hadd.closed ha h.keeps) (h.node hadd)
  · rw [hst.rest]
  · show (add' t.arena).2.count k = (add s.arena).2.count k + δ k
    rw [(hadd' _).count, hadd.count, hst.count]
    omega

theorem newDecl {f : DeclForm} {q : Parser Decl} (h : Held a₀ a f.parts f.lists)
    (hq : q = Parser.newDecl (declForm δ f) sp) :
    Builds δ (decl δ) (Parser.newDecl f sp) q a fun d b => Held a₀ b [.decl d] [] := by
  subst hq
  refine node (a.addDecl_adds f) (·.addDecl_adds _) (fun b hb => ?_) h
  have hsize : b.decls.size = a.decls.size + δ .decl := by
    simpa [Arena.count, Arena.entries] using hb
  simp [Arena.addDecl, Arena.nextNode, decl, hsize]

theorem newStmt {f : StmtForm} {q : Parser Stmt} (h : Held a₀ a f.parts f.lists)
    (hq : q = Parser.newStmt (stmtForm δ f) sp) :
    Builds δ (stmt δ) (Parser.newStmt f sp) q a fun s b => Held a₀ b [.stmt s] [] := by
  subst hq
  refine node (a.addStmt_adds f) (·.addStmt_adds _) (fun b hb => ?_) h
  have hsize : b.stmts.size = a.stmts.size + δ .stmt := by
    simpa [Arena.count, Arena.entries] using hb
  simp [Arena.addStmt, Arena.nextNode, stmt, hsize]

theorem newExpr {f : ExprForm} {q : Parser Expr} (h : Held a₀ a f.parts f.lists)
    (hq : q = Parser.newExpr (exprForm δ f) sp) :
    Builds δ (expr δ) (Parser.newExpr f sp) q a fun x b => Held a₀ b [.expr x] [] := by
  subst hq
  refine node (a.addExpr_adds f) (·.addExpr_adds _) (fun b hb => ?_) h
  have hsize : b.exprs.size = a.exprs.size + δ .expr := by
    simpa [Arena.count, Arena.entries] using hb
  simp [Arena.addExpr, Arena.nextNode, expr, hsize]

theorem newType {f : TypeForm} {q : Parser TypeExpr} (h : Held a₀ a f.parts f.lists)
    (hq : q = Parser.newType (typeForm δ f) sp) :
    Builds δ (typeExpr δ) (Parser.newType f sp) q a fun t b => Held a₀ b [.type t] [] := by
  subst hq
  refine node (a.addType_adds f) (·.addType_adds _) (fun b hb => ?_) h
  have hsize : b.types.size = a.types.size + δ .type := by
    simpa [Arena.count, Arena.entries] using hb
  simp [Arena.addType, Arena.nextNode, typeExpr, hsize]

theorem newField {f : FieldForm} {q : Parser Field} (h : Held a₀ a f.parts f.lists)
    (hq : q = Parser.newField (fieldForm δ f) sp) :
    Builds δ (field δ) (Parser.newField f sp) q a fun x b => Held a₀ b [.field x] [] := by
  subst hq
  refine node (a.addField_adds f) (·.addField_adds _) (fun b hb => ?_) h
  have hsize : b.fields.size = a.fields.size + δ .field := by
    simpa [Arena.count, Arena.entries] using hb
  simp [Arena.addField, Arena.nextNode, field, hsize]

theorem newParam {f : ParamForm} {q : Parser Param} (h : Held a₀ a f.parts f.lists)
    (hq : q = Parser.newParam (paramForm δ f) sp) :
    Builds δ (param δ) (Parser.newParam f sp) q a fun p b => Held a₀ b [.param p] [] := by
  subst hq
  refine node (a.addParam_adds f) (·.addParam_adds _) (fun b hb => ?_) h
  have hsize : b.params.size = a.params.size + δ .param := by
    simpa [Arena.count, Arena.entries] using hb
  simp [Arena.addParam, Arena.nextNode, param, hsize]

theorem newLiteral {f : Literal} :
    Builds δ (lit δ) (Parser.newLiteral f sp) (Parser.newLiteral f sp) a
      fun l b => Held a b [.literal l] [] := by
  refine node (a.addLiteral_adds f) (·.addLiteral_adds _) (fun b hb => ?_) (.nil (.refl a))
  have hsize : b.literals.size = a.literals.size + δ .literal := by
    simpa [Arena.count, Arena.entries] using hb
  simp [Arena.addLiteral, Arena.nextNode, lit, hsize]

-- ====================================================== names and lists

/-- A list of what is held. -/
theorem bind_list {add add' : Arena → Arena} {l l' : Listing} {u v : Unit → Parser β}
    (hadd : a.AddsList l (add a)) (hadd' : ∀ b : Arena, b.AddsList l' (add' b))
    (h : Held a₀ a ps ls) (hparts : l.parts ⊆ ps) (hlists : l.lists ⊆ ls)
    (hu : ∀ b, Held a₀ b ps (l :: ls) → Builds δ k (u ()) (v ()) b Q) :
    Builds δ k (recording add >>= u) (recording add' >>= v) a Q := by
  refine bind (g := id) (P := fun _ b => Held a₀ b ps (l :: ls)) ?_ fun _ b hb => hu b hb
  rintro s t rfl hst ha
  have hkeeps : s.arena.KeepsAll l.parts l.lists :=
    ⟨fun p hp => h.keeps.1 p (hparts hp), fun m hm => h.keeps.2 m (hlists hm)⟩
  refine .ok ⟨?_, fun kind => ?_⟩ hadd.grows (hadd.closed ha hkeeps) (h.list hadd)
  · rw [hst.rest]
  · show (add' t.arena).count kind = (add s.arena).count kind + δ kind
    rw [(hadd' _).count, hadd.count, hst.count]

theorem addName {text : String} :
    Builds δ id (recording (·.addName text)) (recording (·.addName text)) a
      fun _ b => a.GrowsTo b ∧ b.Knows text := by
  rintro s t rfl hst ha
  have hadd := s.arena.addName_adds text
  refine .ok ⟨?_, fun kind => ?_⟩ hadd.grows (hadd.closed ha) ⟨hadd.grows, hadd.knows⟩
  · rw [hst.rest]
  · show (t.arena.addName text).count kind = (s.arena.addName text).count kind + δ kind
    rw [(t.arena.addName_adds text).count, hadd.count, hst.count]

theorem ident : Builds δ id Parser.ident Parser.ident a fun n b => Held a b [.name n] [] := by
  refine choice (bind_look fun t => bind addName fun _ b ⟨hg, hknows⟩ => pure ?_ rfl) unexpected
  exact .name hg hknows

theorem literal :
    Builds δ (lit δ) Parser.literal Parser.literal a fun l b => Held a b [.literal l] [] :=
  bind_look fun _ => newLiteral

theorem doc {start : Location} :
    Builds δ id (Parser.doc start) (Parser.doc start) a
      fun lines b => Held a b [] [.docLines lines] := by
  refine bind_look fun lines => ?_
  refine bind_list (a.addDocLines_adds lines) (·.addDocLines_adds lines) (.nil (.refl a)) ?_ ?_ ?_
  · simp
  · simp
  · exact fun b hb => pure hb rfl

end

end Builds

end GoSource
