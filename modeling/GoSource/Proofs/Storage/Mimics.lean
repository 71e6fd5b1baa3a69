/-
A parser that builds in a store, beside one that builds trees.

Both are given the same tokens; `Mimics R p q read` says that `p`, building
in a store that reads by `R`, does what `q` does. They fail alike, or what
`p` returns reads as what `q` returns. In passing the store is looked after:
it stays sound, and what read by `R` reads the same by the reader behind
it. In particular `p` never fails because something is not in the store.

What the results have to do with each other is a way to read those of `p`,
so a list is read item by item, and what is no handle is read as it is
(`same`).

# Rules

The rules follow the texts of both productions from top to bottom. Where
`p` alone does something, which is to look up what `q` has at hand, there
is a rule for it (`Mimics.find`): what is found reads as that (`Finds`).
-/
import GoSource.Proofs.Arena.Builds
import GoSource.Proofs.Storage.Sound
import GoSource.Storage.Parser

namespace GoSource.Stored

open GoSource.Parser (Turn)
open GoSource.Stored.Parser

variable {α α' β β' γ γ' : Type}

/-- The state of the one beside that of the other: at the same place of the
input, with as many nodes of each kind, and everything in the store reads. -/
structure Mates (R : Reader) (s : Parsing) (t : State) : Prop where
  input : t.parsing = { s with arena := t.parsing.arena }
  count : ∀ k, (t.store.table k).rows.size = s.arena.count k
  sound : t.store.Sound R

/-- How both end. -/
inductive Outcome (R : Reader) (read : Reader → β → Option α) :
    EStateM.Result Fault State β → EStateM.Result ParseError Parsing α → Prop
  | ok {R' : Reader} {y : β} {x : α} {s : Parsing} {t : State} (le : R.Le R')
      (mates : Mates R' s t) (reads : read R' y = some x) : Outcome R read (.ok y t) (.ok x s)
  | error {R' : Reader} {e : ParseError} {s : Parsing} {t : State} (le : R.Le R')
      (mates : Mates R' s t) : Outcome R read (.error (.parse e) t) (.error e s)

/-- The first parser does what the second does, in a store that reads by
the reader. -/
def Mimics (R : Reader) (p : Parser β) (q : GoSource.Parser α) (read : Reader → β → Option α) :
    Prop :=
  ∀ s t, Mates R s t → Outcome R read (p t) (q s)

-- =============================================================== reading

/-- What is no handle. -/
def same : Reader → α → Option α := fun _ => some

/-- A list, item by item. -/
def each (read : Reader → β → Option α) (R : Reader) (ys : List β) : Option (List α) :=
  ys.mapM (read R)

/-- Something that may be there. -/
def maybe (read : Reader → β → Option α) (R : Reader) : Option β → Option (Option α) :=
  optional (read R)

/-- Two things. -/
def both (read : Reader → β → Option α) (read' : Reader → β' → Option α') (R : Reader) :
    β × β' → Option (α × α')
  | (y, y') => do pure (← read R y, ← read' R y')

/-- A turn, with what it leads to. -/
def turn (read : Reader → β → Option α) (R : Reader) : Turn β → Option (Turn α)
  | .again y => do pure (.again (← read R y))
  | .stop y => do pure (.stop (← read R y))

section

variable {R R' : Reader} {read : Reader → β → Option α} {read' : Reader → β' → Option α'}
  {x : α} {x' : α'} {y : β} {y' : β'} {xs : List α} {ys : List β}

@[simp] theorem same_eq_some {y x : α} : same R y = some x ↔ y = x := Option.some_inj

@[simp] theorem each_nil : each read R [] = some [] := rfl

theorem each_cons_iff : each read R (y :: ys) = some xs ↔
    ∃ x xs', read R y = some x ∧ each read R ys = some xs' ∧ xs = x :: xs' := by
  simp only [each, mapM_eq_some_iff, List.forall₂_cons_left_iff]

theorem each_cons (hy : read R y = some x) (hys : each read R ys = some xs) :
    each read R (y :: ys) = some (x :: xs) :=
  mapM_eq_some_iff.mpr (.cons hy (mapM_eq_some_iff.mp hys))

theorem each_reverse (h : each read R ys = some xs) :
    each read R ys.reverse = some xs.reverse :=
  mapM_eq_some_iff.mpr (List.rel_reverse (mapM_eq_some_iff.mp h))

theorem each_append {zs : List α} {ws : List β} (h : each read R ys = some xs)
    (h' : each read R ws = some zs) : each read R (ys ++ ws) = some (xs ++ zs) :=
  mapM_eq_some_iff.mpr (List.rel_append (mapM_eq_some_iff.mp h) (mapM_eq_some_iff.mp h'))

theorem each_le (hread : ∀ y, Sub (read R y) (read R' y)) (h : each read R ys = some xs) :
    each read R' ys = some xs := Sub.mapM hread ys h

theorem maybe_some (h : read R y = some x) : maybe read R (some y) = some (some x) :=
  Option.map_eq_some_iff.mpr ⟨x, h, rfl⟩

/-- What may be there is there in both, or in neither. -/
theorem maybe_cases {o : Option β} {o' : Option α} (h : maybe read R o = some o') :
    o = none ∧ o' = none ∨ ∃ y x, o = some y ∧ o' = some x ∧ read R y = some x := by
  cases o with
  | none => exact .inl ⟨rfl, (Option.some.inj h).symm⟩
  | some y =>
    obtain ⟨x, hx, hsome⟩ := Option.map_eq_some_iff.mp h
    exact .inr ⟨y, x, rfl, hsome.symm, hx⟩

theorem both_eq_some {p : β × β'} {q : α × α'} :
    both read read' R p = some q ↔ read R p.1 = some q.1 ∧ read' R p.2 = some q.2 := by
  simp [both, Option.bind_eq_some_iff, Prod.ext_iff]

theorem turn_again (h : read R y = some x) : turn read R (.again y) = some (.again x) :=
  Option.bind_eq_some_iff.mpr ⟨x, h, rfl⟩

theorem turn_stop (h : read R y = some x) : turn read R (.stop y) = some (.stop x) :=
  Option.bind_eq_some_iff.mpr ⟨x, h, rfl⟩

end

-- ============================================================== outcomes

namespace Outcome

variable {R R' : Reader} {read read' : Reader → β → Option α}
  {o : EStateM.Result Fault State β} {o' : EStateM.Result ParseError Parsing α}

/-- Seen from an earlier reader. -/
theorem after (h : Outcome R' read o o') (hle : R.Le R') : Outcome R read o o' := by
  cases h with
  | ok le mates reads => exact .ok (hle.trans le) mates reads
  | error le mates => exact .error (hle.trans le) mates

/-- The outcome in other states. -/
def left (f : State → State) : EStateM.Result Fault State β → EStateM.Result Fault State β
  | .ok y t => .ok y (f t)
  | .error e t => .error e (f t)

/-- States may be changed alike. -/
theorem leave {f : State → State} {g : Parsing → Parsing} (h : Outcome R read o o')
    (hfg : ∀ R s t, Mates R s t → Mates R (g s) (f t)) :
    Outcome R read (left f o) (Alike.left g o') := by
  cases h with
  | ok le mates reads => exact .ok le (hfg _ _ _ mates) reads
  | error le mates => exact .error le (hfg _ _ _ mates)

end Outcome

-- ============================================================ looking up

/-- The parser only looks things up, and finds what is asked for. -/
def Finds (R : Reader) (p : Parser β) (P : β → Prop) : Prop :=
  ∀ t : State, t.store.Sound R → ∃ z, p t = .ok z t ∧ P z

namespace Finds

variable {R : Reader} {p : Parser β} {P : β → Prop} {Q : β' → Prop} {i : Nat} {r : ListRef}

theorem pure {y : β} (h : P y) : Finds R (Pure.pure y) P := fun _ _ => ⟨y, rfl, h⟩

theorem bind {u : β → Parser β'} (hp : Finds R p P) (hu : ∀ z, P z → Finds R (u z) Q) :
    Finds R (p >>= u) Q := by
  intro t ht
  obtain ⟨z, hz, hPz⟩ := hp t ht
  obtain ⟨w, hw, hQw⟩ := hu z hPz t ht
  refine ⟨w, ?_, hQw⟩
  show EStateM.bind p u t = .ok w t
  rw [EStateM.bind, hz]
  exact hw

theorem looking {look : Store → Option β}
    (h : ∀ st : Store, st.Sound R → ∃ z, look st = some z ∧ P z) : Finds R (looking look) P := by
  intro t ht
  obtain ⟨z, hz, hPz⟩ := h t.store ht
  exact ⟨z, by rw [Parser.looking, hz], hPz⟩

/-- How many items a list has may be used. -/
theorem withLength {k : ListKind} {xs : List (Listed k)} (hxs : R.list k r = some xs)
    (h : r.length = xs.length → Finds R p P) : Finds R p P :=
  fun t ht => h (ht.length hxs) t ht

theorem exprRow {x : GoSource.Expr} (hx : R.expr i = some x) :
    Finds R (exprRow i) fun row => row.read R = some x.form :=
  looking fun _ h => (h.row hx).2.2

theorem typeRow {t : GoSource.TypeExpr} (ht : R.type i = some t) :
    Finds R (typeRow i) fun row => row.read R = some t.form :=
  looking fun _ h => (h.row ht).2.2

theorem paramRow {p : GoSource.Param} (hp : R.param i = some p) :
    Finds R (paramRow i) fun row => row.read R = some p.form :=
  looking fun _ h => (h.row hp).2.2

theorem exprSpan {x : GoSource.Expr} (hx : R.expr i = some x) :
    Finds R (exprSpan i) (· = x.span) :=
  looking fun _ h => ⟨_, (h.row hx).2.1, rfl⟩

theorem typeSpan {t : GoSource.TypeExpr} (ht : R.type i = some t) :
    Finds R (typeSpan i) (· = t.span) :=
  looking fun _ h => ⟨_, (h.row ht).2.1, rfl⟩

theorem literalSpan {l : Lit} (hl : R.literal i = some l) :
    Finds R (literalSpan i) (· = l.span) :=
  looking fun _ h => ⟨_, (h.row hl).2.1, rfl⟩

theorem exprItems {xs : List GoSource.Expr} (hxs : R.exprs r = some xs) :
    Finds R (exprItems r) fun items => each Reader.expr R items = some xs :=
  looking fun _ h => h.slice hxs

theorem paramItems {ps : List GoSource.Param} (hps : R.params r = some ps) :
    Finds R (paramItems r) fun items => each Reader.param R items = some ps :=
  looking fun _ h => h.slice hps

end Finds

namespace Mimics

variable {R : Reader} {p p' : Parser β} {q q' : GoSource.Parser α} {u : β → Parser β'}
  {v : α → GoSource.Parser α'} {read : Reader → β → Option α} {read' : Reader → β' → Option α'}

-- ============================================================= sequence

theorem pure {y : β} {x : α} (h : read R y = some x) :
    Mimics R (Pure.pure y) (Pure.pure x) read :=
  fun _ _ hst => .ok (.refl R) hst h

theorem bind (hp : Mimics R p q read)
    (hu : ∀ R' y x, R.Le R' → read R' y = some x → Mimics R' (u y) (v x) read') :
    Mimics R (p >>= u) (q >>= v) read' := by
  intro s t hst
  have hrun := hp s t hst
  show Outcome R read' (EStateM.bind p u t) (EStateM.bind q v s)
  unfold EStateM.bind
  generalize p t = o, q s = o' at hrun
  cases hrun with
  | ok le mates reads => exact (hu _ _ _ le reads _ _ mates).after le
  | error le mates => exact .error le mates

theorem map {f : β → β'} {g : α → α'} (hp : Mimics R p q read)
    (h : ∀ R' y x, R.Le R' → read R' y = some x → read' R' (f y) = some (g x)) :
    Mimics R (f <$> p) (g <$> q) read' := by
  rw [map_eq_pure_bind, map_eq_pure_bind]
  exact bind hp fun R' y x hle hx => pure (h R' y x hle hx)

theorem pure_bind {y : β} {x : α} (h : Mimics R (u y) (v x) read') :
    Mimics R ((Pure.pure y : Parser β) >>= u) ((Pure.pure x : GoSource.Parser α) >>= v) read' := h

theorem bind_map {f : γ → β} {g : γ' → α} {p : Parser γ} {q : GoSource.Parser γ'}
    {read : Reader → γ → Option γ'} (hp : Mimics R p q read)
    (hu : ∀ R' y x, R.Le R' → read R' y = some x → Mimics R' (u (f y)) (v (g x)) read') :
    Mimics R ((f <$> p) >>= u) ((g <$> q) >>= v) read' := by
  rw [map_eq_pure_bind, map_eq_pure_bind, bind_assoc, bind_assoc]
  exact bind hp fun R' y x hle hx => pure_bind (hu R' y x hle hx)

/-- Nothing is done behind the first parser. -/
theorem of_bind_pure (h : Mimics R (p >>= Pure.pure) q read) : Mimics R p q read := by
  rwa [bind_pure] at h

/-- The list without items may be used, of whatever kind. -/
theorem withEmpty (h : (∀ k, R.list k .empty = some []) → Mimics R p q read) :
    Mimics R p q read :=
  fun s t hst => h (fun _ => hst.sound.list_empty) s t hst

/-- What only looks at the input. -/
theorem bind_look {q : GoSource.Parser γ} [hq : q.Ignores] {u : γ → Parser β'}
    {v : γ → GoSource.Parser α'} (hu : ∀ x, Mimics R (u x) (v x) read') :
    Mimics R (lift q >>= u) (q >>= v) read' := by
  intro s t hst
  show Outcome R read' (EStateM.bind (lift q) u t) (EStateM.bind q v s)
  unfold EStateM.bind lift
  obtain ⟨x, s', hx⟩ | ⟨e, s', he⟩ := hq.run s
  · have hs : q s = .ok x { s' with arena := s.arena } := hx s.arena
    rw [hst.input, hx, hs]
    exact hu x _ _ ⟨rfl, hst.count, hst.sound⟩
  · have hs : q s = .error e { s' with arena := s.arena } := he s.arena
    rw [hst.input, he, hs]
    exact .error (.refl R) ⟨rfl, hst.count, hst.sound⟩

/-- What only the first parser looks up. -/
theorem find {p : Parser γ} {P : γ → Prop} {u : γ → Parser β} (hp : Finds R p P)
    (hu : ∀ z, P z → Mimics R (u z) q read) : Mimics R (p >>= u) q read := by
  intro s t hst
  obtain ⟨z, hz, hPz⟩ := hp t hst.sound
  show Outcome R read (EStateM.bind p u t) (q s)
  rw [EStateM.bind, hz]
  exact hu z hPz s t hst

/-- What it looks up is known. -/
theorem known {p : Parser γ} {z : γ} {u : γ → Parser β} (hp : Finds R p (· = z))
    (hu : Mimics R (u z) q read) : Mimics R (p >>= u) q read :=
  find hp fun _ hz => hz ▸ hu

-- =============================================================== errors

/-- Both fail with the same error. -/
theorem fails {q' : GoSource.Parser β} (error : Parsing → ParseError)
    (hq : ∀ s, q s = .error (error s) s) (hq' : ∀ s, q' s = .error (error s) s)
    (herror : ∀ s a, error { s with arena := a } = error s) : Mimics R (lift q') q read := by
  intro s t hst
  unfold lift
  rw [hq, hq', hst.input, herror]
  exact .error (.refl R) ⟨rfl, hst.count, hst.sound⟩

theorem fail {e : ParseError} : Mimics R (fail e) (throw e) read :=
  fails (fun _ => e) (fun _ => rfl) (fun _ => rfl) fun _ _ => rfl

theorem tooDeep : Mimics R tooDeep GoSource.Parser.tooDeep read :=
  fails (fun s => .tooDeep s.trace.length s.current.span) (fun _ => rfl) (fun _ => rfl)
    fun _ _ => rfl

theorem unexpectedAt {span : Span} {wanted got : String} :
    Mimics R (unexpectedAt span wanted got) (GoSource.Parser.unexpectedAt span wanted got) read :=
  fails (fun s => .unexpected wanted got span s.trace.reverse) (fun _ => rfl) (fun _ => rfl)
    fun _ _ => rfl

theorem unexpected {wanted : String} :
    Mimics R (unexpected wanted) (GoSource.Parser.unexpected wanted) read := by
  have hrun {γ : Type} (s : Parsing) : GoSource.Parser.unexpected (α := γ) wanted s =
      .error (if s.current.kind = .error then .badRune s.current.text s.current.span
        else .unexpected wanted s.current.got s.current.span s.trace.reverse) s := by
    show (if s.current.kind = .error then _ else _ : GoSource.Parser γ) s = _
    split <;> rfl
  exact fails _ hrun hrun fun _ _ => rfl

/-- Nothing is reached behind an error. -/
theorem bind_unexpected {wanted : String} :
    Mimics R ((Parser.unexpected wanted : Parser β) >>= u)
      ((GoSource.Parser.unexpected wanted : GoSource.Parser α) >>= v) read' := by
  have hfails : Mimics R (Parser.unexpected wanted : Parser β)
      (GoSource.Parser.unexpected wanted : GoSource.Parser α) fun _ _ => none := unexpected
  exact bind hfails nofun

-- ============================================================== choices

theorem ite {c : Prop} [Decidable c] (yes : c → Mimics R p q read)
    (no : ¬c → Mimics R p' q' read) :
    Mimics R (if c then p else p') (if c then q else q') read := by
  by_cases hc : c
  · rw [if_pos hc, if_pos hc]
    exact yes hc
  · rw [if_neg hc, if_neg hc]
    exact no hc

/-- A choice by something that has been looked at. -/
theorem choice {c : GoSource.Parser Bool} [c.Ignores] (yes : Mimics R p q read)
    (no : Mimics R p' q' read) :
    Mimics R (lift c >>= fun b => if b = true then p else p')
      (c >>= fun b => if b = true then q else q') read :=
  bind_look fun _ => ite (fun _ => yes) fun _ => no

/-- The same, where both ways meet afterwards. -/
theorem joinChoice {c : GoSource.Parser Bool} [c.Ignores] (read : Reader → β → Option α)
    (yes : Mimics R p q read)
    (no : Mimics R p' q' read)
    (rest : ∀ R' y x, R.Le R' → read R' y = some x → Mimics R' (u y) (v x) read') :
    Mimics R (lift c >>= fun b => if b = true then p >>= u else p' >>= u)
      (c >>= fun b => if b = true then q >>= v else q' >>= v) read' :=
  choice (bind yes rest) (bind no rest)

theorem joinIte {c : Prop} [Decidable c] (read : Reader → β → Option α)
    (yes : c → Mimics R p q read)
    (no : ¬c → Mimics R p' q' read)
    (rest : ∀ R' y x, R.Le R' → read R' y = some x → Mimics R' (u y) (v x) read') :
    Mimics R (if c then p >>= u else p' >>= u) (if c then q >>= v else q' >>= v) read' :=
  ite (fun hc => bind (yes hc) rest) fun hc => bind (no hc) rest

/-- Something that may be there, after which both ways meet. -/
theorem joinOption {o : GoSource.Parser (Option Span)} [o.Ignores]
    (read : Reader → β → Option α) {p : Span → Parser β}
    {q : Span → GoSource.Parser α} (yes : ∀ sp, Mimics R (p sp) (q sp) read)
    (no : Mimics R p' q' read)
    (rest : ∀ R' y x, R.Le R' → read R' y = some x → Mimics R' (u y) (v x) read') :
    Mimics R
      (lift o >>= fun o => match o with
        | some sp => p sp >>= u
        | none => p' >>= u)
      (o >>= fun o => match o with
        | some sp => q sp >>= v
        | none => q' >>= v) read' :=
  bind_look fun o =>
    match o with
    | some sp => bind (yes sp) rest
    | none => bind no rest

-- ================================================================ modes

theorem within {name : String} (h : Mimics R p q read) :
    Mimics R (within name p) (GoSource.Parser.within name q) read := by
  intro s t hst
  have hrun := h { s with trace := name :: s.trace }
    { t with parsing := { t.parsing with trace := name :: t.parsing.trace } }
    ⟨by rw [hst.input], hst.count, hst.sound⟩
  refine hrun.leave
    (f := fun t => { t with parsing := { t.parsing with trace := t.parsing.trace.tail } })
    (g := fun s => { s with trace := s.trace.tail })
    fun R' s' t' h => ⟨?_, h.count, h.sound⟩
  rw [h.input]

theorem unrestricted (h : Mimics R p q read) :
    Mimics R (unrestricted p) (GoSource.Parser.unrestricted q) read := by
  intro s t hst
  have hrun := h { s with inHeader := false, guardAllowed := false }
    { t with parsing := { t.parsing with inHeader := false, guardAllowed := false } }
    ⟨by rw [hst.input], hst.count, hst.sound⟩
  refine hrun.leave
    (f := fun t' => { t' with parsing := { t'.parsing with
      inHeader := t.parsing.inHeader, guardAllowed := t.parsing.guardAllowed } })
    (g := fun s' => { s' with inHeader := s.inHeader, guardAllowed := s.guardAllowed })
    fun R' s' t' h => ⟨?_, h.count, h.sound⟩
  rw [h.input, hst.input]

theorem asHeader (h : Mimics R p q read) :
    Mimics R (asHeader p) (GoSource.Parser.asHeader q) read := by
  intro s t hst
  have hrun := h { s with inHeader := true }
    { t with parsing := { t.parsing with inHeader := true } }
    ⟨by rw [hst.input], hst.count, hst.sound⟩
  refine hrun.leave
    (f := fun t' => { t' with parsing := { t'.parsing with inHeader := t.parsing.inHeader } })
    (g := fun s' => { s' with inHeader := s.inHeader })
    fun R' s' t' h => ⟨?_, h.count, h.sound⟩
  rw [h.input, hst.input]

-- ============================================================ repetition

theorem repeating {f : β → Parser (Turn β)} {g : α → GoSource.Parser (Turn α)} {y : β} {x : α}
    (init : read R y = some x)
    (step : ∀ R' y x, R.Le R' → read R' y = some x → Mimics R' (f y) (g x) (turn read)) :
    Mimics R (repeating f y) (GoSource.Parser.repeating g x) read := by
  suffices hn : ∀ n R' y x, R.Le R' → read R' y = some x →
      Mimics R' (takeTurns f n y) (GoSource.Parser.takeTurns g n x) read by
    intro s t hst
    have hturns : t.parsing.turns = s.turns := by rw [hst.input]
    show Outcome R read (takeTurns f t.parsing.turns y t)
      (GoSource.Parser.takeTurns g s.turns x s)
    rw [hturns]
    exact hn s.turns R y x (.refl R) init s t hst
  intro n
  induction n with
  | zero => exact fun R' y x _ h => pure h
  | succ n ih =>
    intro R' y x hle hx
    refine bind (step R' y x hle hx) fun R'' next next' hle' hnext => ?_
    cases next with
    | again z =>
      obtain ⟨w, hw, hnext⟩ := Option.bind_eq_some_iff.mp hnext
      obtain rfl := Option.some.inj hnext
      exact ih R'' z w (hle.trans hle') hw
    | stop z =>
      obtain ⟨w, hw, hnext⟩ := Option.bind_eq_some_iff.mp hnext
      obtain rfl := Option.some.inj hnext
      exact pure hw

-- ================================================================ nodes

/-- A row beside a node. -/
theorem node {k : NodeKind} {put : Store → Nat × Store} {add : Arena → Node (Form k) × Arena}
    {row : Row k} {form : Form k} {span : Span}
    (hput : ∀ st : Store, st.AddsRow k row span (put st).2 ∧ (put st).1 = (st.table k).rows.size)
    (hadd : ∀ a : Arena, (add a).1 = ⟨a.count k, span, form⟩ ∧
      ∀ k', (add a).2.count k' = a.count k' + if k' = k then 1 else 0)
    (h : Row.read R k row = some form) :
    Mimics R (storing put) (GoSource.Parser.building add) fun R => R.node k := by
  intro s t hst
  obtain ⟨hrow, hnumber⟩ := hput t.store
  obtain ⟨hnode, hcount⟩ := hadd s.arena
  obtain ⟨R', hle, hsound, hreads⟩ := hst.sound.addRow h hrow
  show Outcome R _ (.ok (put t.store).1 { t with store := (put t.store).2 })
    (.ok (add s.arena).1 { s with arena := (add s.arena).2 })
  refine .ok hle ⟨hst.input, fun k' => ?_, hsound⟩ ?_
  · rw [hcount]
    by_cases hk : k' = k
    · subst hk
      rw [if_pos rfl, hrow.table, Table.alloc, Array.size_push, hst.count]
    · rw [if_neg hk, hrow.others k' hk, hst.count, Nat.add_zero]
  · rw [hnumber, hreads, hnode, hst.count]

section

variable {span : Span}

theorem newDecl {row : Decl} {form : DeclForm} (h : row.read R = some form) :
    Mimics R (newDecl row span) (GoSource.Parser.newDecl form span) Reader.decl := by
  refine node (k := .decl) (fun st => ⟨⟨rfl, fun k hk => ?_, rfl, rfl⟩, rfl⟩) (fun a => ⟨?_, ?_⟩) h
  · cases k <;> first | rfl | exact absurd rfl hk
  · simp [Arena.addDecl, Arena.nextNode, Arena.count, Arena.entries]
  · exact (a.addDecl_adds form).count

theorem newStmt {row : Stmt} {form : StmtForm} (h : row.read R = some form) :
    Mimics R (newStmt row span) (GoSource.Parser.newStmt form span) Reader.stmt := by
  refine node (k := .stmt) (fun st => ⟨⟨rfl, fun k hk => ?_, rfl, rfl⟩, rfl⟩) (fun a => ⟨?_, ?_⟩) h
  · cases k <;> first | rfl | exact absurd rfl hk
  · simp [Arena.addStmt, Arena.nextNode, Arena.count, Arena.entries]
  · exact (a.addStmt_adds form).count

theorem newExpr {row : Expr} {form : ExprForm} (h : row.read R = some form) :
    Mimics R (newExpr row span) (GoSource.Parser.newExpr form span) Reader.expr := by
  refine node (k := .expr) (fun st => ⟨⟨rfl, fun k hk => ?_, rfl, rfl⟩, rfl⟩) (fun a => ⟨?_, ?_⟩) h
  · cases k <;> first | rfl | exact absurd rfl hk
  · simp [Arena.addExpr, Arena.nextNode, Arena.count, Arena.entries]
  · exact (a.addExpr_adds form).count

theorem newType {row : TypeExpr} {form : TypeForm} (h : row.read R = some form) :
    Mimics R (newType row span) (GoSource.Parser.newType form span) Reader.type := by
  refine node (k := .type) (fun st => ⟨⟨rfl, fun k hk => ?_, rfl, rfl⟩, rfl⟩) (fun a => ⟨?_, ?_⟩) h
  · cases k <;> first | rfl | exact absurd rfl hk
  · simp [Arena.addType, Arena.nextNode, Arena.count, Arena.entries]
  · exact (a.addType_adds form).count

theorem newField {row : Field} {form : FieldForm} (h : row.read R = some form) :
    Mimics R (newField row span) (GoSource.Parser.newField form span) Reader.field := by
  refine node (k := .field) (fun st => ⟨⟨rfl, fun k hk => ?_, rfl, rfl⟩, rfl⟩) (fun a => ⟨?_, ?_⟩)
    h
  · cases k <;> first | rfl | exact absurd rfl hk
  · simp [Arena.addField, Arena.nextNode, Arena.count, Arena.entries]
  · exact (a.addField_adds form).count

theorem newParam {row : Param} {form : ParamForm} (h : row.read R = some form) :
    Mimics R (newParam row span) (GoSource.Parser.newParam form span) Reader.param := by
  refine node (k := .param) (fun st => ⟨⟨rfl, fun k hk => ?_, rfl, rfl⟩, rfl⟩) (fun a => ⟨?_, ?_⟩)
    h
  · cases k <;> first | rfl | exact absurd rfl hk
  · simp [Arena.addParam, Arena.nextNode, Arena.count, Arena.entries]
  · exact (a.addParam_adds form).count

theorem newLiteral {value : Literal} :
    Mimics R (newLiteral value span) (GoSource.Parser.newLiteral value span) Reader.literal := by
  refine node (k := .literal) (fun st => ⟨⟨rfl, fun k hk => ?_, rfl, rfl⟩, rfl⟩)
    (fun a => ⟨?_, ?_⟩) rfl
  · cases k <;> first | rfl | exact absurd rfl hk
  · simp [Arena.addLiteral, Arena.nextNode, Arena.count, Arena.entries]
  · exact (a.addLiteral_adds value).count

end

-- ======================================================= lists and texts

/-- A list in a buffer, beside one that is recorded. -/
theorem bind_list {k : ListKind} {put : Store → ListRef × Store} {add : Arena → Arena}
    {items : List (Item k)} {xs : List (Listed k)} {u : ListRef → Parser β'}
    {v : Unit → GoSource.Parser α'}
    (hput : ∀ st : Store, st.AddsItems k items (put st).2 ∧
      (put st).1 = (pushList (st.buffer k) items).1)
    (hadd : ∀ (a : Arena) k', (add a).count k' = a.count k')
    (h : items.mapM (Item.read R k) = some xs)
    (hu : ∀ R' r, R.Le R' → R'.list k r = some xs → Mimics R' (u r) (v ()) read') :
    Mimics R (storing put >>= u) (GoSource.Parser.recording add >>= v) read' := by
  intro s t hst
  obtain ⟨hitems, hrange⟩ := hput t.store
  obtain ⟨R', hle, hsound, hreads⟩ := hst.sound.addItems h hitems
  rw [← hrange] at hreads
  refine (hu R' _ hle hreads { s with arena := add s.arena }
    { t with store := (put t.store).2 } ⟨hst.input, fun k' => ?_, hsound⟩).after hle
  rw [hadd, hitems.table, hst.count]

theorem bind_intern {text : String} {u : Symbol → Parser β'} {v : Unit → GoSource.Parser α'}
    (hu : ∀ R' s, R.Le R' → R'.text s = some text → Mimics R' (u s) (v ()) read') :
    Mimics R (intern text >>= u) (GoSource.Parser.recording (·.addName text) >>= v) read' := by
  intro s t hst
  have hadd : t.store.AddsText text (t.store.intern text).2 := ⟨rfl, rfl, rfl⟩
  obtain ⟨R', hle, hsound, hreads⟩ := hst.sound.addText hadd
  refine (hu R' _ hle hreads { s with arena := s.arena.addName text }
    { t with store := (t.store.intern text).2 } ⟨hst.input, fun k => ?_, hsound⟩).after hle
  rw [(s.arena.addName_adds text).count]
  exact hst.count k

section

variable {u : ListRef → Parser β'} {v : Unit → GoSource.Parser α'}

theorem bind_listIdents {items : List Ident} {xs : List GoSource.Ident}
    (h : each Ident.read R items = some xs)
    (hu : ∀ R' r, R.Le R' → R'.idents r = some xs → Mimics R' (u r) (v ()) read') :
    Mimics R (listIdents items >>= u) (GoSource.Parser.recording (·.addIdents xs) >>= v) read' := by
  refine bind_list (k := .idents) (fun st => ⟨⟨rfl, rfl, fun k hk => ?_, rfl⟩, rfl⟩)
    (fun a => (a.addIdents_adds xs).count) h hu
  cases k <;> first | rfl | exact absurd rfl hk

theorem bind_listExprs {items : List ExprId} {xs : List GoSource.Expr}
    (h : each Reader.expr R items = some xs)
    (hu : ∀ R' r, R.Le R' → R'.exprs r = some xs → Mimics R' (u r) (v ()) read') :
    Mimics R (listExprs items >>= u) (GoSource.Parser.recording (·.addExprs xs) >>= v) read' := by
  refine bind_list (k := .exprs) (fun st => ⟨⟨rfl, rfl, fun k hk => ?_, rfl⟩, rfl⟩)
    (fun a => (a.addExprs_adds xs).count) h hu
  cases k <;> first | rfl | exact absurd rfl hk

theorem bind_listStmts {items : List StmtId} {xs : List GoSource.Stmt}
    (h : each Reader.stmt R items = some xs)
    (hu : ∀ R' r, R.Le R' → R'.stmts r = some xs → Mimics R' (u r) (v ()) read') :
    Mimics R (listStmts items >>= u) (GoSource.Parser.recording (·.addStmts xs) >>= v) read' := by
  refine bind_list (k := .stmts) (fun st => ⟨⟨rfl, rfl, fun k hk => ?_, rfl⟩, rfl⟩)
    (fun a => (a.addStmts_adds xs).count) h hu
  cases k <;> first | rfl | exact absurd rfl hk

theorem bind_listDecls {items : List DeclId} {xs : List GoSource.Decl}
    (h : each Reader.decl R items = some xs)
    (hu : ∀ R' r, R.Le R' → R'.decls r = some xs → Mimics R' (u r) (v ()) read') :
    Mimics R (listDecls items >>= u) (GoSource.Parser.recording (·.addDecls xs) >>= v) read' := by
  refine bind_list (k := .decls) (fun st => ⟨⟨rfl, rfl, fun k hk => ?_, rfl⟩, rfl⟩)
    (fun a => (a.addDecls_adds xs).count) h hu
  cases k <;> first | rfl | exact absurd rfl hk

theorem bind_listFields {items : List FieldId} {xs : List GoSource.Field}
    (h : each Reader.field R items = some xs)
    (hu : ∀ R' r, R.Le R' → R'.fields r = some xs → Mimics R' (u r) (v ()) read') :
    Mimics R (listFields items >>= u) (GoSource.Parser.recording (·.addFields xs) >>= v) read' := by
  refine bind_list (k := .fields) (fun st => ⟨⟨rfl, rfl, fun k hk => ?_, rfl⟩, rfl⟩)
    (fun a => (a.addFields_adds xs).count) h hu
  cases k <;> first | rfl | exact absurd rfl hk

theorem bind_listParams {items : List ParamId} {xs : List GoSource.Param}
    (h : each Reader.param R items = some xs)
    (hu : ∀ R' r, R.Le R' → R'.params r = some xs → Mimics R' (u r) (v ()) read') :
    Mimics R (listParams items >>= u) (GoSource.Parser.recording (·.addParams xs) >>= v) read' := by
  refine bind_list (k := .params) (fun st => ⟨⟨rfl, rfl, fun k hk => ?_, rfl⟩, rfl⟩)
    (fun a => (a.addParams_adds xs).count) h hu
  cases k <;> first | rfl | exact absurd rfl hk

theorem bind_listElements {items : List Element} {xs : List GoSource.Element}
    (h : each Element.read R items = some xs)
    (hu : ∀ R' r, R.Le R' → R'.elements r = some xs → Mimics R' (u r) (v ()) read') :
    Mimics R (listElements items >>= u) (GoSource.Parser.recording (·.addElements xs) >>= v)
      read' := by
  refine bind_list (k := .elements) (fun st => ⟨⟨rfl, rfl, fun k hk => ?_, rfl⟩, rfl⟩)
    (fun a => (a.addElements_adds xs).count) h hu
  cases k <;> first | rfl | exact absurd rfl hk

theorem bind_listInterfaceElements {items : List InterfaceElement}
    {xs : List GoSource.InterfaceElement}
    (h : each InterfaceElement.read R items = some xs)
    (hu : ∀ R' r, R.Le R' → R'.interfaceElements r = some xs → Mimics R' (u r) (v ()) read') :
    Mimics R (listInterfaceElements items >>= u)
      (GoSource.Parser.recording (·.addInterfaceElements xs) >>= v) read' := by
  refine bind_list (k := .interfaceElements) (fun st => ⟨⟨rfl, rfl, fun k hk => ?_, rfl⟩, rfl⟩)
    (fun a => (a.addInterfaceElements_adds xs).count) h hu
  cases k <;> first | rfl | exact absurd rfl hk

theorem bind_listImportSpecs {items : List ImportSpec} {xs : List GoSource.ImportSpec}
    (h : each ImportSpec.read R items = some xs)
    (hu : ∀ R' r, R.Le R' → R'.importSpecs r = some xs → Mimics R' (u r) (v ()) read') :
    Mimics R (listImportSpecs items >>= u)
      (GoSource.Parser.recording (·.addImportSpecs xs) >>= v) read' := by
  refine bind_list (k := .importSpecs) (fun st => ⟨⟨rfl, rfl, fun k hk => ?_, rfl⟩, rfl⟩)
    (fun a => (a.addImportSpecs_adds xs).count) h hu
  cases k <;> first | rfl | exact absurd rfl hk

theorem bind_listDocLines {lines : List String}
    (hu : ∀ R' r, R.Le R' → R'.docLines r = some lines → Mimics R' (u r) (v ()) read') :
    Mimics R (listDocLines lines >>= u) (GoSource.Parser.recording (·.addDocLines lines) >>= v)
      read' := by
  have hlines : lines.mapM some = some lines := mapM_eq_some_iff.mpr (List.forall₂_same.mpr
    fun _ _ => rfl)
  refine bind_list (k := .docLines) (fun st => ⟨⟨rfl, rfl, fun k hk => ?_, rfl⟩, rfl⟩)
    (fun a => (a.addDocLines_adds lines).count) hlines hu
  cases k <;> first | rfl | exact absurd rfl hk

end

-- ============================================== names, literals, comments

theorem ident : Mimics R ident GoSource.Parser.ident Ident.read := by
  refine choice (bind_look fun t => bind_intern fun R' s hle hs => pure ?_) unexpected
  exact Option.bind_eq_some_iff.mpr ⟨_, hs, rfl⟩

theorem literal : Mimics R literal GoSource.Parser.literal Reader.literal :=
  bind_look fun _ => newLiteral

theorem doc {start : Location} :
    Mimics R (doc start) (GoSource.Parser.doc start) Reader.docLines := by
  refine bind_look fun lines => of_bind_pure ?_
  exact bind_listDocLines fun R' r _ hr => pure hr

end Mimics

end GoSource.Stored
