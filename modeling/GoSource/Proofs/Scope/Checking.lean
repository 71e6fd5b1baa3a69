/-
Constants are checked once.

Whoever evaluates constants begins and finishes checks on the views of a
package, in any order and for any constants at a time. What comes of one
call depends on the one constant only, and how it went with a constant can
be read off its own history (`CheckHistory`): ends that are refused, one
begin that is told to start, begins that find a cycle, one end, and after
that only begins that are told the outcome and ends that are refused.

A call continues a history (`CheckHistory.call`) and leaves all else as it
is (`PackageScope.call_eq_some`), so the calls on a package, however they
are interleaved, continue one history for each of its constants
(`Resolves.checked_once`).
-/
import GoSource.Proofs.Scope.Views

namespace GoSource

-- ================================================================ calls

/-- What can be called on a constant. -/
inductive CheckCall where
  | begin
  | finishOk (value : Literal) (type : Option TypeExpr)
  | finishError

inductive CheckAnswer where
  | start (found : CheckStart)
  | finish (accepted : Bool)

/-- Calls one of the three. -/
def ConstView.call (v : ConstView) : CheckCall → CheckAnswer × ConstView
  | .begin => (.start v.beginCheck.1, v.beginCheck.2)
  | .finishOk value type => (.finish (v.finishOk value type).1, (v.finishOk value type).2)
  | .finishError => (.finish v.finishError.1, v.finishError.2)

/-- A call on a constant, and its answer. -/
structure CheckEvent where
  number : Nat
  call : CheckCall
  answer : CheckAnswer

namespace PackageScope

/-- A call on the constant with a number. -/
def call (p : PackageScope) (number : Nat) (c : CheckCall) : Option (CheckAnswer × PackageScope) :=
  p.updateConst number (·.call c)

/-- Calls one after the other, and what has been answered. -/
def calls (p : PackageScope) (calls : List (Nat × CheckCall)) :
    Option (List CheckEvent × PackageScope) :=
  calls.foldlM (fun (events, q) (n, c) =>
    (q.call n c).map fun (answer, q') => (events ++ [⟨n, c, answer⟩], q')) ([], p)

end PackageScope

-- ============================================================== history

/-- What has been called on one constant, with the answers. -/
abbrev CheckLog : Type := List (CheckCall × CheckAnswer)

/-- An end of a check that is refused. -/
inductive Refused : CheckCall × CheckAnswer → Prop where
  | ok {value : Literal} {type : Option TypeExpr} : Refused (.finishOk value type, .finish false)
  | error : Refused (.finishError, .finish false)

/-- What there may be when a check is over. -/
inductive Late (outcome : CheckState) : CheckCall × CheckAnswer → Prop where
  | begin : Late outcome (.begin, .start (.done outcome))
  | refused {e : CheckCall × CheckAnswer} (he : Refused e) : Late outcome e

/-- A check has been begun, and may have been found again, and has not
ended. -/
def Begun (log : CheckLog) : Prop :=
  ∃ before during, log = before ++ (.begin, .start .started) :: during ∧
    (∀ e ∈ before, Refused e) ∧ ∀ e ∈ during, e = (.begin, .start .cycle)

/-- How it can go with a constant, and what becomes of it. -/
inductive CheckHistory (v : ConstView) : CheckLog → ConstView → Prop where
  | unchecked {log : CheckLog} (hlog : ∀ e ∈ log, Refused e) : CheckHistory v log v
  | checking {log : CheckLog} (hlog : Begun log) :
    CheckHistory v log { v with state := .checking }
  | checkedOk {log after : CheckLog} {value : Literal} {type : Option TypeExpr}
    (hlog : Begun log) (hafter : ∀ e ∈ after, Late .checkedOk e) :
    CheckHistory v (log ++ (.finishOk value type, .finish true) :: after)
      { v with value := some value, type := type.orElse fun _ => v.type, state := .checkedOk }
  | checkedError {log after : CheckLog} (hlog : Begun log)
    (hafter : ∀ e ∈ after, Late .checkedError e) :
    CheckHistory v (log ++ (.finishError, .finish true) :: after)
      { v with state := .checkedError }

theorem Begun.begin {log : CheckLog} (hlog : ∀ e ∈ log, Refused e) :
    Begun (log ++ [(.begin, .start .started)]) :=
  ⟨log, [], rfl, hlog, nofun⟩

theorem Begun.cycle {log : CheckLog} (h : Begun log) :
    Begun (log ++ [(.begin, .start .cycle)]) := by
  obtain ⟨before, during, rfl, hbefore, hduring⟩ := h
  refine ⟨before, during ++ [(.begin, .start .cycle)], by simp, hbefore, ?_⟩
  exact List.forall_mem_append.mpr ⟨hduring, List.forall_mem_singleton.mpr rfl⟩

namespace CheckHistory

variable {v v' : ConstView} {log after : CheckLog} {c : CheckCall}

/-- After a check has ended there is one thing more to say. -/
theorem checkedOk_snoc {value : Literal} {type : Option TypeExpr} {e : CheckCall × CheckAnswer}
    (hlog : Begun log) (hafter : ∀ e ∈ after, Late .checkedOk e) (he : Late .checkedOk e) :
    CheckHistory v (log ++ (.finishOk value type, .finish true) :: after ++ [e])
      { v with value := some value, type := type.orElse fun _ => v.type, state := .checkedOk } := by
  rw [List.append_assoc]
  exact .checkedOk hlog (List.forall_mem_append.mpr ⟨hafter, List.forall_mem_singleton.mpr he⟩)

theorem checkedError_snoc {e : CheckCall × CheckAnswer} (hlog : Begun log)
    (hafter : ∀ e ∈ after, Late .checkedError e) (he : Late .checkedError e) :
    CheckHistory v (log ++ (.finishError, .finish true) :: after ++ [e])
      { v with state := .checkedError } := by
  rw [List.append_assoc]
  exact .checkedError hlog
    (List.forall_mem_append.mpr ⟨hafter, List.forall_mem_singleton.mpr he⟩)

/-- A call continues a history. -/
theorem call (hv : v.state = .unchecked) (h : CheckHistory v log v') (c : CheckCall) :
    CheckHistory v (log ++ [(c, (v'.call c).1)]) (v'.call c).2 := by
  obtain ⟨decl, index, type, value, state⟩ := v
  obtain rfl : state = .unchecked := hv
  cases h with
  | unchecked hlog =>
    have hrefused : ∀ e, Refused e → ∀ e' ∈ log ++ [e], Refused e' := fun e he =>
      List.forall_mem_append.mpr ⟨hlog, List.forall_mem_singleton.mpr he⟩
    cases c with
    | begin => exact .checking (.begin hlog)
    | finishOk => exact .unchecked (hrefused _ .ok)
    | finishError => exact .unchecked (hrefused _ .error)
  | checking hlog =>
    cases c with
    | begin => exact .checking hlog.cycle
    | finishOk => exact .checkedOk hlog nofun
    | finishError => exact .checkedError hlog nofun
  | checkedOk hlog hafter =>
    cases c with
    | begin => exact checkedOk_snoc hlog hafter .begin
    | finishOk => exact checkedOk_snoc hlog hafter (.refused .ok)
    | finishError => exact checkedOk_snoc hlog hafter (.refused .error)
  | checkedError hlog hafter =>
    cases c with
    | begin => exact checkedError_snoc hlog hafter .begin
    | finishOk => exact checkedError_snoc hlog hafter (.refused .ok)
    | finishError => exact checkedError_snoc hlog hafter (.refused .error)

end CheckHistory

-- ================================================================= steps

/-- What is answered, by how far a constant has come. -/
def CheckState.answer : CheckState → CheckCall → CheckAnswer
  | .unchecked, .begin => .start .started
  | .checking, .begin => .start .cycle
  | outcome, .begin => .start (.done outcome)
  | state, _ => .finish (state = .checking)

/-- How far it has come then. -/
def CheckState.after : CheckState → CheckCall → CheckState
  | .unchecked, .begin => .checking
  | .checking, .finishOk _ _ => .checkedOk
  | .checking, .finishError => .checkedError
  | state, _ => state

namespace ConstView

variable (v : ConstView) (c : CheckCall)

theorem call_answer : (v.call c).1 = v.state.answer c := by
  obtain ⟨decl, index, type, value, state⟩ := v
  cases state <;> cases c <;> rfl

theorem call_state : (v.call c).2.state = v.state.after c := by
  obtain ⟨decl, index, type, value, state⟩ := v
  cases state <;> cases c <;> rfl

/-- A constant that comes no further is left as it is. -/
theorem call_same (h : v.state.after c = v.state) : (v.call c).2 = v := by
  obtain ⟨decl, index, type, value, state⟩ := v
  cases state <;> cases c <;> first | rfl | exact nomatch h

end ConstView

namespace PackageScope

variable {p q : PackageScope} {n : Nat} {v : ConstView} {c : CheckCall}

/-- A call changes one constant. -/
theorem call_eq (hv : p.consts[n]? = some v) (c : CheckCall) : p.call n c =
    some ((v.call c).1, { p with consts := p.consts.setIfInBounds n (v.call c).2 }) := by
  rw [call, updateConst, hv]

/-- The log of one constant. -/
def logOf (n : Nat) (events : List CheckEvent) : CheckLog :=
  events.filterMap fun e => if e.number = n then some (e.call, e.answer) else none

theorem logOf_append (n : Nat) (events : List CheckEvent) (e : CheckEvent) :
    logOf n (events ++ [e]) =
      logOf n events ++ if e.number = n then [(e.call, e.answer)] else [] := by
  rw [logOf, List.filterMap_append]
  by_cases h : e.number = n <;> simp [h, logOf]

/-- No constant has been looked at. -/
def Unseen (p : PackageScope) : Prop :=
  ∀ (n : Nat) (v : ConstView), p.consts[n]? = some v → v.state = .unchecked ∧ v.value = none

/-- What comes of some calls on a package of which no constant has been
looked at. -/
structure Checked (p : PackageScope) (events : List CheckEvent) (q : PackageScope) : Prop where
  /-- Nothing is different but constants. -/
  rest : { q with consts := p.consts } = p
  size : q.consts.size = p.consts.size
  /-- It goes with each constant as it may go, whatever happens to the
  others. -/
  history : ∀ n v, p.consts[n]? = some v →
    ∃ v', q.consts[n]? = some v' ∧ CheckHistory v (logOf n events) v'

/-- One call more. -/
theorem Checked.snoc {events : List CheckEvent} (h : p.Checked events q)
    (hunseen : p.Unseen)
    (hv : q.consts[n]? = some v) (c : CheckCall) :
    p.Checked (events ++ [⟨n, c, (v.call c).1⟩])
      { q with consts := q.consts.setIfInBounds n (v.call c).2 } where
  rest := h.rest
  size := by rw [← h.size, Array.size_setIfInBounds]
  history k v₀ hv₀ := by
    obtain ⟨v', hv', hhistory⟩ := h.history k v₀ hv₀
    rw [logOf_append]
    by_cases hk : n = k
    · subst hk
      obtain rfl : v = v' := Option.some.inj (hv.symm.trans hv')
      refine ⟨(v.call c).2, ?_, ?_⟩
      · exact Array.getElem?_setIfInBounds_self_of_lt (Array.getElem?_eq_some_iff.mp hv).1
      · rw [if_pos rfl]
        exact hhistory.call (hunseen n v₀ hv₀).1 c
    · rw [if_neg hk, List.append_nil]
      exact ⟨v', (Array.getElem?_setIfInBounds_ne hk).trans hv', hhistory⟩

theorem calls_snoc {calls : List (Nat × CheckCall)} {events : List CheckEvent}
    (hq : p.calls calls = some (events, q)) (hv : q.consts[n]? = some v) (c : CheckCall) :
    p.calls (calls ++ [(n, c)]) = some (events ++ [⟨n, c, (v.call c).1⟩],
      { q with consts := q.consts.setIfInBounds n (v.call c).2 }) := by
  unfold PackageScope.calls at hq ⊢
  rw [List.foldlM_append, hq]
  simp [call_eq hv]

/-- Calls on constants that there are are all answered. -/
theorem exists_calls (hunseen : p.Unseen)
    {calls : List (Nat × CheckCall)} (hcalls : ∀ c ∈ calls, c.1 < p.consts.size) :
    ∃ events q, p.calls calls = some (events, q) ∧
      events.map (fun e => (e.number, e.call)) = calls ∧ p.Checked events q := by
  induction calls using List.reverseRecOn with
  | nil => exact ⟨[], p, rfl, rfl, rfl, rfl, fun n v hv => ⟨v, hv, .unchecked nofun⟩⟩
  | append_singleton calls last ih =>
    obtain ⟨n, c⟩ := last
    obtain ⟨hcalls, hlast⟩ := List.forall_mem_append.mp hcalls
    obtain ⟨events, q, hq, hevents, h⟩ := ih hcalls
    have hn : n < q.consts.size := by
      rw [h.size]
      exact hlast _ (List.mem_singleton_self _)
    have hv := Array.getElem?_eq_getElem hn
    refine ⟨_, _, calls_snoc hq hv c, ?_, h.snoc hunseen hv c⟩
    rw [List.map_append, hevents]
    rfl

/-- Every constant of a package is checked at most once, from what is
declared. -/
structure ChecksOnce (files : List File) (p : PackageScope) (events : List CheckEvent)
    (q : PackageScope) : Prop extends p.Checked events q where
  /-- At first, a constant is what is declared, and not looked at. -/
  declared : ∀ (n : Nat) (v : ConstView), p.consts[n]? = some v →
    ∃ d ∈ files.flatMap (·.decls), ∃ spec, d.form = .const spec ∧
      v = .unchecked d v.index spec.type
  value : ∀ (n : Nat) (v : ConstView), q.consts[n]? = some v →
    (v.value.isSome ↔ v.state = .checkedOk)
  /-- A call is answered by how far the constant has come. It takes this
  constant further or leaves it as it is, and leaves all else as it is. -/
  next : ∀ (n : Nat) (v : ConstView), q.consts[n]? = some v → ∀ c, ∃ v',
    q.call n c = some (v.state.answer c, { q with consts := q.consts.setIfInBounds n v' }) ∧
      v'.state = v.state.after c ∧ (v.state.after c = v.state → v' = v)

end PackageScope

/-- There is a value if and only if the check has ended with one. -/
theorem CheckHistory.value_iff {v v' : ConstView} {log : CheckLog} (h : CheckHistory v log v')
    (hstate : v.state = .unchecked) (hvalue : v.value = none) :
    v'.value.isSome ↔ v'.state = .checkedOk := by
  cases h with
  | unchecked => simp [hvalue, hstate]
  | checking => simp [hvalue]
  | checkedOk => simp
  | checkedError => simp [hvalue]

theorem Viewed.const_of_mem {d : Decl} {v : ConstView} (h : .const v ∈ Viewed.of d) :
    ∃ spec, d.form = .const spec ∧ v = .unchecked d v.index spec.type := by
  unfold Viewed.of at h
  split at h
  · next spec hd =>
    obtain ⟨_, -, heq⟩ := List.mem_map.mp h
    cases heq
    exact ⟨spec, hd, rfl⟩
  · obtain ⟨_, -, heq⟩ := List.mem_map.mp h
    exact nomatch heq
  · exact nomatch h

/-- The constants of a package are those that are declared. -/
theorem Resolves.consts {files : List File} {p : PackageScope} (h : Resolves files p) {n : Nat}
    {v : ConstView} (hv : p.consts[n]? = some v) : ∃ d ∈ files.flatMap (·.decls),
      ∃ spec, d.form = .const spec ∧ v = .unchecked d v.index spec.type := by
  have hviewing := resolve_viewing files
  rw [← h.eq] at hviewing
  obtain ⟨hmem, -⟩ := hviewing.complete (.const n) (.const v)
    (congrArg (Option.map Viewed.const) hv)
  obtain ⟨d, hd, hmem⟩ := List.mem_flatMap.mp hmem
  exact ⟨d, hd, Viewed.const_of_mem hmem⟩

/-- Calls on the constants of a package, in any order, are all answered, and
every constant is checked at most once. -/
theorem Resolves.checked_once {files : List File} {p : PackageScope} (h : Resolves files p)
    {calls : List (Nat × CheckCall)} (hcalls : ∀ c ∈ calls, c.1 < p.consts.size) :
    ∃ events q, p.calls calls = some (events, q) ∧
      events.map (fun e => (e.number, e.call)) = calls ∧ p.ChecksOnce files events q := by
  have hunseen : p.Unseen := by
    intro n v hv
    obtain ⟨_, -, _, -, hv⟩ := h.consts hv
    rw [hv]
    exact ⟨rfl, rfl⟩
  obtain ⟨events, q, hq, hevents, hchecked⟩ := PackageScope.exists_calls hunseen hcalls
  refine ⟨events, q, hq, hevents, hchecked, fun n v => h.consts, fun n v hv => ?_,
    fun n v hv c => ?_⟩
  · have hn : n < p.consts.size := by
      rw [← hchecked.size]
      exact (Array.getElem?_eq_some_iff.mp hv).1
    have hv₀ := Array.getElem?_eq_getElem hn
    obtain ⟨v', hv', hhistory⟩ := hchecked.history n _ hv₀
    obtain rfl := Option.some.inj (hv.symm.trans hv')
    exact hhistory.value_iff (hunseen n _ hv₀).1 (hunseen n _ hv₀).2
  · refine ⟨_, ?_, v.call_state c, v.call_same c⟩
    rw [PackageScope.call_eq hv, v.call_answer]

/-- Two constants with their checks between each other: an end that comes
too early, a cycle, and one value. -/
theorem Resolves.checked_once_cycle :
    (resolve (parseFiles 20 ["package p; const a, b = 1, a"])).package.consts.size = 2 ∧
      ∃ events q, (resolve (parseFiles 20 ["package p; const a, b = 1, a"])).package.calls
          [(0, .finishError), (1, .begin), (0, .begin), (1, .begin),
            (0, .finishOk (.integer 1) none), (1, .finishError), (0, .begin)] = some (events, q) ∧
        events.map (fun e => (e.number, e.call)) =
          [(0, .finishError), (1, .begin), (0, .begin), (1, .begin),
            (0, .finishOk (.integer 1) none), (1, .finishError), (0, .begin)] ∧
        (resolve (parseFiles 20 ["package p; const a, b = 1, a"])).package.ChecksOnce
          (parseFiles 20 ["package p; const a, b = 1, a"]) events q := by
  have hsize :
      (resolve (parseFiles 20 ["package p; const a, b = 1, a"])).package.consts.size = 2 := by
    decide +kernel
  exact ⟨hsize, Resolves.checked_once (.files _) (by rw [hsize]; simp)⟩

end GoSource
