/-
Interning numbers texts one to one, whatever the hash.

What an interner knows is told by the texts that it was given, in the order
in which they came (`Interner.Knows`): their first occurrences are what it
has stored, and each of them is found where it is stored. Another text given
to it keeps that up, in whatever bucket its number comes to lie and whatever
else is in that bucket. So the numbers are the positions among the first
occurrences, and everything an interner answers can be said without it
(`number_eq_iff`).
-/
import GoSource.Proofs.Arena.Names
import Mathlib.Data.Finset.Card
import Mathlib.Data.List.TakeWhile
import Mathlib.Data.Set.Function
import Mathlib.Order.Interval.Set.Defs

namespace GoSource

-- ==================================================== first occurrences

section

variable {s : String} {xs : List String}

theorem eraseDups_concat (xs : List String) (s : String) :
    (xs ++ [s]).eraseDups = xs.eraseDups ++ if s ∈ xs then [] else [s] := by
  rw [List.eraseDups_append]
  by_cases hs : s ∈ xs
  · simp [List.removeAll, hs]
  · simp [List.removeAll, hs, List.eraseDups_cons]

/-- There are as many first occurrences as different texts. -/
theorem length_eraseDups (xs : List String) : xs.eraseDups.length = xs.toFinset.card := by
  induction xs using List.reverseRecOn with
  | nil => rfl
  | append_singleton xs s ih =>
    have hinsert : (xs ++ [s]).toFinset = insert s xs.toFinset := by
      ext
      simp
    rw [eraseDups_concat, List.length_append, ih, hinsert]
    by_cases hs : s ∈ xs
    · rw [if_pos hs, Finset.insert_eq_of_mem (List.mem_toFinset.mpr hs)]
      rfl
    · rw [if_neg hs, Finset.card_insert_of_notMem fun h => hs (List.mem_toFinset.mp h)]
      rfl

/-- A first occurrence is not moved by what comes later. -/
theorem eraseDups_getElem?_append {i : Nat} (h : xs.eraseDups[i]? = some s) (ys : List String) :
    (xs ++ ys).eraseDups[i]? = some s := by
  rw [List.eraseDups_append, List.getElem?_append_left (List.getElem?_eq_some_iff.mp h).1, h]

theorem takeWhile_concat_prefix (s : String) (xs : List String) :
    xs.takeWhile (· ≠ s) ++ [s] <+: xs ++ [s] := by
  induction xs with
  | nil => exact List.prefix_rfl
  | cons x xs ih =>
    by_cases hx : x = s
    · exact ⟨xs ++ [s], by simp [hx]⟩
    · simpa [hx] using ih

/-- It comes after those of the texts before. -/
theorem eraseDups_getElem?_card (s : String) (xs : List String) :
    (xs ++ [s]).eraseDups[(xs.takeWhile (· ≠ s)).toFinset.card]? = some s := by
  have hnot : s ∉ xs.takeWhile (· ≠ s) := fun hs => by simpa using List.mem_takeWhile_imp hs
  have hfirst : (xs.takeWhile (· ≠ s) ++ [s]).eraseDups[(xs.takeWhile (· ≠ s)).toFinset.card]? =
      some s := by
    rw [eraseDups_concat, if_neg hnot, ← length_eraseDups, List.getElem?_concat_length]
  obtain ⟨rest, hrest⟩ := takeWhile_concat_prefix s xs
  rw [← hrest]
  exact eraseDups_getElem?_append hfirst rest

end

namespace Interner

variable {hash : String → Nat} {t : Interner hash} {xs : List String} {s s' : String} {i : Nat}

-- ======================================================== what is known

/-- The texts given to an interner so far are these: the first occurrences
are stored, and each of them is found where it is stored. -/
structure Knows (t : Interner hash) (xs : List String) : Prop where
  texts : t.texts.toList = xs.eraseDups
  found : ∀ i s, t.texts[i]? = some s → t.get? s = some i

theorem knows_empty : (empty : Interner hash).Knows [] :=
  ⟨rfl, fun _ _ h => nomatch h⟩

namespace Knows

variable (h : t.Knows xs)

include h

theorem get?_eq_some : t.get? s = some i ↔ xs.eraseDups[i]? = some s := by
  rw [← h.texts, Array.getElem?_toList]
  exact ⟨texts_of_get?, h.found i s⟩

/-- A text is found exactly if it was given. -/
theorem isSome_get? : (t.get? s).isSome ↔ s ∈ xs := by
  rw [Option.isSome_iff_exists, ← List.mem_eraseDups, List.mem_iff_getElem?]
  exact exists_congr fun i => h.get?_eq_some

/-- The next text, whatever is in its bucket. -/
theorem intern (s : String) : (t.intern s).2.Knows (xs ++ [s]) := by
  refine ⟨?_, fun i s' hi => ?_⟩
  · rw [eraseDups_concat, ← h.texts]
    cases hs : t.get? s with
    | some i => rw [if_pos (h.isSome_get?.mp (by rw [hs]; rfl)), intern_of_some hs, List.append_nil]
    | none =>
      have hnot : s ∉ xs := fun hmem => by simpa [hs] using h.isSome_get?.mpr hmem
      rw [if_neg hnot, intern_of_none hs, texts_push, Array.toList_push]
  · cases hs : t.get? s with
    | some j =>
      rw [intern_of_some hs] at hi ⊢
      exact h.found i s' hi
    | none =>
      -- What was stored is found as before; the text itself is what was added.
      rw [intern_of_none hs] at hi ⊢
      rcases texts_push_eq_some.mp hi with hold | ⟨rfl, rfl⟩
      · exact get?_push_of_get? hs (h.found i s' hold)
      · have hget := get?_intern t s'
        rwa [intern_of_none hs] at hget

/-- The number of a text is its place among the first occurrences. -/
theorem number_eq_iff : (t.intern s).1 = i ↔ (xs ++ [s]).eraseDups[i]? = some s := by
  rw [← (h.intern s).get?_eq_some, get?_intern t s, Option.some_inj]

theorem resolve_eq (i : Nat) : t.resolve i = xs.eraseDups[i]?.getD "" := by
  rw [← h.texts, Array.getElem?_toList]
  exact Array.getD_eq_getD_getElem? ..

theorem size_eq : t.size = xs.toFinset.card := by
  rw [← length_eraseDups, ← h.texts]
  exact Array.length_toList.symm

end Knows

-- ================================================================= runs

/-- What one may ask of an interner. -/
inductive Call where
  | intern (s : String)
  | get (s : String)
  | resolve (i : Nat)

/-- The text that a call gives to an interner. -/
def Call.given : Call → Option String
  | intern s => some s
  | _ => none

/-- What a call leaves behind. -/
def Call.run (t : Interner hash) : Call → Interner hash
  | intern s => (t.intern s).2
  | get _ | resolve _ => t

/-- An interner after some calls, one after the other. -/
def after (t : Interner hash) (calls : List Call) : Interner hash := calls.foldl Call.run t

/-- The texts given by some calls. -/
def given (calls : List Call) : List String := calls.filterMap Call.given

theorem Knows.after (h : t.Knows xs) (calls : List Call) :
    (t.after calls).Knows (xs ++ given calls) := by
  induction calls generalizing t xs with
  | nil => rwa [given, List.filterMap_nil, List.append_nil]
  | cons call calls ih =>
    cases call with
    | intern s =>
      have hrest := ih (h.intern s)
      rwa [List.append_assoc] at hrest
    | get s => exact ih h
    | resolve i => exact ih h

/-- Only what is given makes a difference. -/
theorem after_filter (t : Interner hash) (calls : List Call) :
    t.after (calls.filter (·.given.isSome)) = t.after calls := by
  induction calls generalizing t with
  | nil => rfl
  | cons call calls ih =>
    cases call with
    | intern s => exact ih _
    | get s => exact ih _
    | resolve i => exact ih _

namespace Knows

variable (h : t.Knows xs)

include h

/-- A text that was given has the number under which it is found. -/
theorem get?_eq_some_iff : t.get? s = some i ↔ s ∈ xs ∧ (t.intern s).1 = i := by
  constructor
  · intro hs
    exact ⟨h.isSome_get?.mp (by rw [hs]; rfl), by rw [intern_of_some hs]⟩
  · rintro ⟨hmem, rfl⟩
    obtain ⟨j, hs⟩ := Option.isSome_iff_exists.mp (h.isSome_get?.mpr hmem)
    rw [hs, intern_of_some hs]

/-- The numbers of the texts that were given are those below the size. -/
theorem bijOn_number : Set.BijOn (fun s => (t.intern s).1) {s | s ∈ xs} (Set.Iio t.size) := by
  have hsize : t.size = xs.eraseDups.length := by rw [h.size_eq, length_eraseDups]
  have hplace {s : String} (hs : s ∈ xs) : xs.eraseDups[(t.intern s).1]? = some s :=
    h.get?_eq_some.mp (h.get?_eq_some_iff.mpr ⟨hs, rfl⟩)
  refine ⟨fun s hs => ?_, fun s hs s' hs' hnumber => ?_, fun i hi => ?_⟩
  · rw [Set.mem_Iio, hsize]
    exact (List.getElem?_eq_some_iff.mp (hplace hs)).1
  · have heq := hplace hs
    rw [show (t.intern s).1 = (t.intern s').1 from hnumber, hplace hs'] at heq
    exact (Option.some_inj.mp heq).symm
  · rw [Set.mem_Iio, hsize] at hi
    have hs := h.get?_eq_some.mpr (List.getElem?_eq_getElem hi)
    exact ⟨_, h.get?_eq_some_iff.mp hs⟩

/-- A number is kept, whatever is asked later, and leads back to its text
alone. -/
theorem number_later (s : String) (calls : List Call) (s' : String) :
    (((t.intern s).2.after calls).intern s').1 = (t.intern s).1 ↔ s' = s := by
  have hplace : (xs ++ [s]).eraseDups[(t.intern s).1]? = some s := h.number_eq_iff.mp rfl
  rw [((h.intern s).after calls).number_eq_iff, List.append_assoc,
    eraseDups_getElem?_append hplace, Option.some_inj, eq_comm]

theorem resolve_later (s : String) (calls : List Call) :
    ((t.intern s).2.after calls).resolve (t.intern s).1 = s := by
  have hplace : (xs ++ [s]).eraseDups[(t.intern s).1]? = some s := h.number_eq_iff.mp rfl
  rw [((h.intern s).after calls).resolve_eq, eraseDups_getElem?_append hplace, Option.getD_some]

end Knows

/-- After any calls, and whatever the hash: a text has for its number how
many other texts were given before it; so the numbers of the texts given are
those below the size, each for one of them. A number once handed out is
handed out again for its text and for no other, and leads back to it, no
matter what is called in between. A text is found, under its number, exactly
if it was given; a number of no such text leads to nothing; there are as many
numbers as different texts; and what is not given leaves no trace. No number
exceeds the count of the calls, so as long as this has 32 bits they have. -/
theorem numbered_one_to_one (hash : String → Nat) (calls : List Call) :
    let t : Interner hash := empty.after calls
    let number (s : String) : Nat := (t.intern s).1
    (∀ s, number s = ((given calls).takeWhile (· ≠ s)).toFinset.card) ∧
      Set.BijOn number {s | s ∈ given calls} (Set.Iio t.size) ∧
      (∀ s (later : List Call),
        (∀ s', (((t.intern s).2.after later).intern s').1 = number s ↔ s' = s) ∧
          ((t.intern s).2.after later).resolve (number s) = s) ∧
      (∀ s i, t.get? s = some i ↔ s ∈ given calls ∧ number s = i) ∧
      (∀ i, (∀ s ∈ given calls, number s ≠ i) → t.resolve i = "") ∧
      t.size = (given calls).toFinset.card ∧
      t = empty.after (calls.filter (·.given.isSome)) ∧
      ∀ s, number s ≤ calls.length := by
  intro t number
  have h : t.Knows (given calls) := knows_empty.after calls
  have hcard : ∀ s, number s = ((given calls).takeWhile (· ≠ s)).toFinset.card := fun s =>
    h.number_eq_iff.mpr (eraseDups_getElem?_card s _)
  refine ⟨hcard, h.bijOn_number, fun s later => ⟨h.number_later s later, h.resolve_later s later⟩,
    fun s i => h.get?_eq_some_iff, fun i hi => ?_, h.size_eq, (after_filter _ calls).symm,
    fun s => ?_⟩
  · rw [h.resolve_eq]
    cases hs : (given calls).eraseDups[i]? with
    | none => rfl
    | some s =>
      obtain ⟨hmem, hnumber⟩ := h.get?_eq_some_iff.mp (h.get?_eq_some.mpr hs)
      exact absurd hnumber (hi s hmem)
  · calc number s
      _ = ((given calls).takeWhile (· ≠ s)).toFinset.card := hcard s
      _ ≤ ((given calls).takeWhile (· ≠ s)).length := List.toFinset_card_le _
      _ ≤ (given calls).length := (List.takeWhile_sublist _).length_le
      _ ≤ calls.length := List.length_filterMap_le ..

/-- All texts in one bucket, and one of them asked for before it is given. -/
theorem numbered_one_to_one_colliding :
    let t : Interner fun _ => 0 :=
      empty.after [.intern "a", .get "b", .intern "b", .resolve 7, .intern "a"]
    t.get? "b" = some 1 ∧ t.resolve 2 = "" ∧ t.size = 2 := by
  intro t
  obtain ⟨-, -, -, hget, hresolve, hsize, -⟩ := numbered_one_to_one (fun _ => 0)
    [.intern "a", .get "b", .intern "b", .resolve 7, .intern "a"]
  exact ⟨(hget "b" 1).mpr (by decide), hresolve 2 (by decide), hsize.trans (by decide)⟩

end Interner

end GoSource
