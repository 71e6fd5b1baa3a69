/-
Interning keeps what was interned.

A text that has a number keeps it, whatever is interned later, and the
number leads back to the text. A new number goes to the end of the bucket
of its hash (`bucket_push`), and it is the number of no other text, so it
gets into the way of no search.
-/
import GoSource.Interner
import Mathlib.Data.List.Basic

namespace GoSource.Interner

variable {hash : String → Nat} {t : Interner hash} {s : String}

/-- A number leads back to its text. -/
theorem texts_of_get? {i : Nat} (h : t.get? s = some i) : t.texts[i]? = some s := by
  simpa using List.find?_some h

theorem intern_of_some {i : Nat} (h : t.get? s = some i) : t.intern s = (i, t) := by
  rw [intern, h]

theorem intern_of_none (h : t.get? s = none) : t.intern s = (t.texts.size, t.push s) := by
  rw [intern, h]

theorem texts_push : (t.push s).texts = t.texts.push s := rfl

theorem lookup_addTo (h k number : Nat) (buckets : List (Nat × List Nat)) :
    ((addTo h number buckets).lookup k).getD [] =
      (buckets.lookup k).getD [] ++ if k = h then [number] else [] := by
  have hne {i j : Nat} (hij : ¬ i = j) : (i == j) = false := beq_false_of_ne hij
  induction buckets with
  | nil => by_cases hk : k = h <;> simp [addTo, List.lookup_cons, hk, hne]
  | cons b buckets ih =>
    obtain ⟨k', numbers⟩ := b
    by_cases hk' : k' = h
    · by_cases hk : k = h <;> simp [addTo, List.lookup_cons, hk', hk, hne]
    · by_cases hk : k = k'
      · simp [addTo, hk', hk]
      · simpa [addTo, hk', List.lookup_cons, hne hk] using ih

theorem bucket_push (h : Nat) :
    (t.push s).bucket h = t.bucket h ++ if h = hash s then [t.texts.size] else [] :=
  lookup_addTo (hash s) h t.texts.size t.buckets

/-- The texts there were come first. -/
theorem texts_intern (t : Interner hash) (s : String) :
    t.texts.toList <+: (t.intern s).2.texts.toList := by
  cases hs : t.get? s with
  | some i => exact intern_of_some hs ▸ List.prefix_rfl
  | none =>
    rw [intern_of_none hs, texts_push, Array.toList_push]
    exact List.prefix_append _ _

/-- The new text is at the new number, and the others are where they were. -/
theorem texts_push_eq_some {i : Nat} {s' : String} :
    (t.push s).texts[i]? = some s' ↔ t.texts[i]? = some s' ∨ i = t.texts.size ∧ s' = s := by
  rw [texts_push, Array.getElem?_push]
  split
  · next hi =>
    subst hi
    simp [eq_comm]
  · next hi => simp [hi]

/-- What has a number keeps it. -/
theorem get?_push_of_get? {i : Nat} {s' : String} (hs : t.get? s = none)
    (h : t.get? s' = some i) : (t.push s).get? s' = some i := by
  have hne : s' ≠ s := by
    rintro rfl
    exact nomatch hs.symm.trans h
  have hsame : ∀ k : Nat, (t.push s).texts[k]? = some s' ↔ t.texts[k]? = some s' := fun k =>
    texts_push_eq_some.trans (or_iff_left fun hk => hne hk.2)
  rw [get?] at h
  rw [get?, bucket_push, List.find?_append]
  simp only [hsame, h, Option.some_or]

/-- A text has a number once it is interned. -/
theorem get?_intern (t : Interner hash) (s : String) :
    (t.intern s).2.get? s = some (t.intern s).1 := by
  cases hs : t.get? s with
  | some i => rw [intern_of_some hs, hs]
  | none =>
    rw [intern_of_none hs]
    have hmem : t.texts.size ∈ (t.push s).bucket (hash s) := by simp [bucket_push]
    have hlast : (t.push s).texts[t.texts.size]? = some s := Array.getElem?_push_size
    -- Nothing before is the text, so what is found is the new number.
    have hnew : ∀ i ∈ t.bucket (hash s), ¬ t.texts[i]? = some s := by
      simpa [get?] using hs
    cases hfound : (t.push s).get? s with
    | none =>
      rw [get?, List.find?_eq_none] at hfound
      exact absurd (decide_eq_true hlast) (hfound _ hmem)
    | some i =>
      rcases texts_push_eq_some.mp (texts_of_get? hfound) with hold | ⟨hi, -⟩
      · have hi := List.mem_of_find?_eq_some hfound
        rw [bucket_push, if_pos rfl, List.mem_append, List.mem_singleton] at hi
        rcases hi with hi | hi
        · exact absurd hold (hnew i hi)
        · rw [hi]
      · rw [hi]

/-- And keeps it. -/
theorem get?_intern_of_get? {i : Nat} {s' : String} (h : t.get? s' = some i) :
    (t.intern s).2.get? s' = some i := by
  cases hs : t.get? s with
  | some j => rwa [intern_of_some hs]
  | none =>
    rw [intern_of_none hs]
    exact get?_push_of_get? hs h

end GoSource.Interner
