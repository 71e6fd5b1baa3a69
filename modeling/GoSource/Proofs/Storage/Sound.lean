/-
Stores of which everything reads.

A store is sound (`Store.Sound`) if some number of steps is enough to read
every row and every item of it, whether anything leads there or not. That
is all one needs to know of a store: a row that reads has nothing in it
that is out of bounds, and none of it leads back to the row.

A sound store remains sound if something is added of which all handles
read. One step more then reads what is new, at its number or in its range,
and whatever could be read before is read as it was.
-/
import GoSource.Proofs.Arena.Interning
import GoSource.Proofs.Storage.Reader

namespace GoSource.Stored

-- ================================================================ ranges

section

variable {α : Type} {buffer : Array α} {items : List α} {r : ListRef}

theorem toList_pushList (buffer : Array α) (items : List α) :
    (pushList buffer items).2.toList = buffer.toList ++ items := by
  simp [pushList]

theorem size_pushList (buffer : Array α) (items : List α) :
    (pushList buffer items).2.size = buffer.size + items.length := by
  rw [← Array.length_toList, toList_pushList, List.length_append, Array.length_toList]

theorem slice_eq_some : slice buffer r = some items ↔
    r.stop ≤ buffer.size ∧ (buffer.toList.drop r.start).take r.length = items := by
  have hlength : r.stop - r.start = r.length := Nat.add_sub_cancel_left ..
  rw [slice, Option.ite_none_right_eq_some, Option.some_inj, Array.toList_extract,
    List.extract_eq_take_drop, hlength]

/-- What lies in a range still does when the buffer has grown. -/
theorem slice_of_slice (h : slice buffer r = some items) (more : List α) :
    slice (pushList buffer more).2 r = some items := by
  obtain ⟨hstop, hitems⟩ := slice_eq_some.mp h
  refine slice_eq_some.mpr ⟨?_, ?_⟩
  · rw [size_pushList]
    omega
  · rw [ListRef.stop] at hstop
    rw [toList_pushList, List.drop_append_of_le_length, List.take_append_of_le_length, hitems]
    · rw [List.length_drop, Array.length_toList]
      omega
    · rw [Array.length_toList]
      omega

/-- The range of a list gives the list. -/
theorem slice_pushList (buffer : Array α) (items : List α) :
    slice (pushList buffer items).2 (pushList buffer items).1 = some items := by
  have hrange : (pushList buffer items).1 = ⟨buffer.size, items.length⟩ :=
    congrArg (ListRef.mk _) (Nat.sub_eq_of_eq_add' (size_pushList buffer items))
  refine slice_eq_some.mpr ⟨?_, ?_⟩
  · rw [hrange, size_pushList, ListRef.stop]
  · rw [hrange, toList_pushList, List.drop_left' Array.length_toList, List.take_length]

theorem slice_empty (buffer : Array α) : slice buffer .empty = some [] := by
  simp [slice, ListRef.stop, ListRef.empty]

theorem Table.row?_alloc {t : Table α} {row : α} {span : Span} (i : Nat) :
    Sub (t.row? i) ((t.alloc row span).2.row? i) := by
  intro x hx
  have hi : i < t.rows.size := (Array.getElem?_eq_some_iff.mp hx).1
  rw [row?, alloc, Array.getElem?_push_lt hi]
  rwa [row?, Array.getElem?_eq_getElem hi] at hx

theorem Table.span?_alloc {t : Table α} {row : α} {span : Span} (i : Nat) :
    Sub (t.span? i) ((t.alloc row span).2.span? i) := by
  intro x hx
  have hi : i < t.spans.size := (Array.getElem?_eq_some_iff.mp hx).1
  rw [span?, alloc, Array.getElem?_push_lt hi]
  rwa [span?, Array.getElem?_eq_getElem hi] at hx

end

namespace Store

-- ================================================================ adding

/-- One row more, with its span. -/
structure AddsRow (st : Store) (k : NodeKind) (row : Row k) (span : Span) (st' : Store) :
    Prop where
  table : st'.table k = ((st.table k).alloc row span).2
  others : ∀ k', k' ≠ k → st'.table k' = st.table k'
  buffer : st'.buffer = st.buffer
  names : st'.names = st.names

/-- One list more. -/
structure AddsItems (st : Store) (k : ListKind) (items : List (Item k)) (st' : Store) :
    Prop where
  table : st'.table = st.table
  buffer : st'.buffer k = (pushList (st.buffer k) items).2
  others : ∀ k', k' ≠ k → st'.buffer k' = st.buffer k'
  names : st'.names = st.names

/-- One text that has a symbol. -/
structure AddsText (st : Store) (text : String) (st' : Store) : Prop where
  table : st'.table = st.table
  buffer : st'.buffer = st.buffer
  names : st'.names = (st.names.intern text).2

variable {st st' : Store} {R : Reader} {k : NodeKind} {kind : ListKind}

theorem AddsRow.grows {row : Row k} {span : Span} (h : st.AddsRow k row span st') :
    st.GrowsTo st' := by
  have htable : ∀ k', (∀ i, Sub ((st.table k').row? i) ((st'.table k').row? i)) ∧
      ∀ i, Sub ((st.table k').span? i) ((st'.table k').span? i) := by
    intro k'
    by_cases hk : k' = k
    · subst hk
      rw [h.table]
      exact ⟨Table.row?_alloc, Table.span?_alloc⟩
    · rw [h.others k' hk]
      exact ⟨fun _ => .refl _, fun _ => .refl _⟩
  exact ⟨fun k' => (htable k').1, fun k' => (htable k').2, fun _ _ => h.buffer ▸ .refl _,
    fun _ => h.names ▸ .refl _⟩

theorem AddsItems.grows {items : List (Item kind)} (h : st.AddsItems kind items st') :
    st.GrowsTo st' := by
  refine ⟨fun _ _ => h.table ▸ .refl _, fun _ _ => h.table ▸ .refl _, fun k r => ?_,
    fun _ => h.names ▸ .refl _⟩
  by_cases hk : k = kind
  · subst hk
    rw [h.buffer]
    exact fun _ hx => slice_of_slice hx items
  · rw [h.others k hk]
    exact .refl _

theorem AddsText.grows {text : String} (h : st.AddsText text st') : st.GrowsTo st' := by
  refine ⟨fun _ _ => h.table ▸ .refl _, fun _ _ => h.table ▸ .refl _,
    fun _ _ => h.buffer ▸ .refl _, fun s x hx => ?_⟩
  rw [h.names]
  obtain ⟨rest, hrest⟩ := Interner.texts_intern st.names text
  rw [← Array.getElem?_toList] at hx ⊢
  rw [← hrest, List.getElem?_append_left (List.getElem?_eq_some_iff.mp hx).1, hx]

-- ============================================================= soundness

/-- With the reader everything in the store reads. -/
structure Sound (st : Store) (R : Reader) : Prop where
  steps : ∃ n, R = st.reader (n + 1)
  spans : ∀ k, (st.table k).spans.size = (st.table k).rows.size
  rows : ∀ k i, i < (st.table k).rows.size → ∃ x, R.node k i = some x
  items : ∀ k, ∀ item ∈ st.buffer k, ∃ x, Item.read R k item = some x

namespace Sound

theorem empty : Store.empty.Sound (Store.empty.reader 1) := by
  refine ⟨⟨0, rfl⟩, fun k => ?_, fun k i hi => ?_, fun k item hitem => ?_⟩
  · cases k <;> rfl
  · cases k <;> exact absurd hi (Nat.not_lt_zero i)
  · cases k <;> exact absurd hitem (Array.not_mem_empty _)

/-- What a number stands for is in the row of that number. -/
theorem row (h : st.Sound R) {i : Nat} {x : Node (Form k)} (hx : R.node k i = some x) :
    x.id = i ∧ (st.table k).span? i = some x.span ∧
      ∃ row, (st.table k).row? i = some row ∧ Row.read R k row = some x.form := by
  obtain ⟨n, rfl⟩ := h.steps
  obtain ⟨row, hrow, hx⟩ := Option.bind_eq_some_iff.mp hx
  obtain ⟨span, hspan, hx⟩ := Option.bind_eq_some_iff.mp hx
  obtain ⟨form, hform, hx⟩ := Option.bind_eq_some_iff.mp hx
  obtain rfl := Option.some.inj hx
  exact ⟨rfl, hspan, row, hrow, Row.read_le (reader_mono (Nat.le_succ n)) k row hform⟩

/-- What a range stands for is in the items of that range. -/
theorem slice (h : st.Sound R) {r : ListRef} {xs : List (Listed kind)}
    (hxs : R.list kind r = some xs) :
    ∃ items, Stored.slice (st.buffer kind) r = some items ∧
      items.mapM (Item.read R kind) = some xs := by
  obtain ⟨n, rfl⟩ := h.steps
  obtain ⟨items, hitems, hxs⟩ := Option.bind_eq_some_iff.mp hxs
  exact ⟨items, hitems, Sub.mapM (Item.read_le (reader_mono (Nat.le_succ n)) kind) items hxs⟩

/-- A list has as many items as its range is long. -/
theorem length (h : st.Sound R) {r : ListRef} {xs : List (Listed kind)}
    (hxs : R.list kind r = some xs) : r.length = xs.length := by
  obtain ⟨items, hitems, hread⟩ := h.slice hxs
  obtain ⟨hstop, rfl⟩ := slice_eq_some.mp hitems
  rw [← (mapM_eq_some_iff.mp hread).length_eq, List.length_take, List.length_drop,
    Array.length_toList]
  rw [ListRef.stop] at hstop
  omega

theorem list_empty (h : st.Sound R) : R.list kind .empty = some [] := by
  obtain ⟨n, rfl⟩ := h.steps
  show (Stored.slice (st.buffer kind) .empty >>= List.mapM (Item.read _ kind)) = some []
  rw [slice_empty]
  rfl

theorem row_of_le (h : st.Sound R) (hle : R.Le R') (hi : i < (st.table k).rows.size) :
    ∃ x, R'.node k i = some x :=
  (h.rows k i hi).imp fun _ hx => hle.node k i hx

theorem item_of_le (h : st.Sound R) (hle : R.Le R') {item : Item kind}
    (hitem : item ∈ st.buffer kind) : ∃ x, Item.read R' kind item = some x :=
  (h.items kind item hitem).imp fun _ hx => Item.read_le hle kind item hx

/-- A row of which the handles read, and one step more to read it. -/
theorem addRow (h : st.Sound R) {row : Row k} {span : Span} {form : Form k}
    (hrow : Row.read R k row = some form) (hadd : st.AddsRow k row span st') :
    ∃ R', R.Le R' ∧ st'.Sound R' ∧
      R'.node k (st.table k).rows.size = some ⟨(st.table k).rows.size, span, form⟩ := by
  obtain ⟨n, rfl⟩ := h.steps
  have hle : (st.reader (n + 1)).Le (st'.reader (n + 2)) := reader_le hadd.grows (Nat.le_succ _)
  have hnode : (st'.reader (n + 2)).node k (st.table k).rows.size =
      some ⟨(st.table k).rows.size, span, form⟩ := by
    have hread := Row.read_le (reader_le hadd.grows (Nat.le_refl (n + 1))) k row hrow
    refine Option.bind_eq_some_iff.mpr ⟨row, ?_, Option.bind_eq_some_iff.mpr ⟨span, ?_,
      Option.bind_eq_some_iff.mpr ⟨form, hread, rfl⟩⟩⟩
    · rw [hadd.table, Table.row?, Table.alloc, Array.getElem?_push_size]
    · rw [hadd.table, Table.span?, Table.alloc, ← h.spans, Array.getElem?_push_size]
  refine ⟨_, hle, ⟨⟨n + 1, rfl⟩, fun k' => ?_, fun k' i hi => ?_, fun k' item hitem => ?_⟩, hnode⟩
  · by_cases hk : k' = k
    · subst hk
      rw [hadd.table, Table.alloc, Array.size_push, Array.size_push, h.spans]
    · rw [hadd.others k' hk, h.spans]
  · by_cases hi' : i < (st.table k').rows.size
    · exact h.row_of_le hle hi'
    · by_cases hk : k' = k
      · subst hk
        rw [hadd.table, Table.alloc, Array.size_push] at hi
        obtain rfl : i = (st.table k').rows.size := by omega
        exact ⟨_, hnode⟩
      · rw [hadd.others k' hk] at hi
        exact absurd hi hi'
  · rw [hadd.buffer] at hitem
    exact h.item_of_le hle hitem

theorem addItems (h : st.Sound R) {items : List (Item kind)} {xs : List (Listed kind)}
    (hitems : items.mapM (Item.read R kind) = some xs) (hadd : st.AddsItems kind items st') :
    ∃ R', R.Le R' ∧ st'.Sound R' ∧
      R'.list kind (pushList (st.buffer kind) items).1 = some xs := by
  obtain ⟨n, rfl⟩ := h.steps
  have hle : (st.reader (n + 1)).Le (st'.reader (n + 2)) := reader_le hadd.grows (Nat.le_succ _)
  have hsame : (st.reader (n + 1)).Le (st'.reader (n + 1)) := reader_le hadd.grows (Nat.le_refl _)
  refine ⟨_, hle, ⟨⟨n + 1, rfl⟩, fun k => ?_, fun k i hi => ?_, fun k item hitem => ?_⟩, ?_⟩
  · rw [hadd.table, h.spans]
  · rw [hadd.table] at hi
    exact h.row_of_le hle hi
  · by_cases hk : k = kind
    · subst hk
      rw [hadd.buffer, ← Array.mem_toList_iff, toList_pushList] at hitem
      obtain hold | hnew := List.mem_append.mp hitem
      · exact h.item_of_le hle (Array.mem_toList_iff.mp hold)
      · obtain ⟨x, -, hx⟩ := exists_of_mapM hitems hnew
        exact ⟨x, Item.read_le hle k item hx⟩
    · rw [hadd.others k hk] at hitem
      exact h.item_of_le hle hitem
  · refine Option.bind_eq_some_iff.mpr ⟨items, ?_, Sub.mapM (Item.read_le hsame kind) items hitems⟩
    rw [hadd.buffer]
    exact slice_pushList _ _

theorem addText (h : st.Sound R) {text : String} (hadd : st.AddsText text st') :
    ∃ R', R.Le R' ∧ st'.Sound R' ∧ R'.text (st.names.intern text).1 = some text := by
  obtain ⟨n, rfl⟩ := h.steps
  have hle : (st.reader (n + 1)).Le (st'.reader (n + 1)) := reader_le hadd.grows (Nat.le_refl _)
  refine ⟨_, hle, ⟨⟨n, rfl⟩, fun k => ?_, fun k i hi => ?_, fun k item hitem => ?_⟩, ?_⟩
  · rw [hadd.table, h.spans]
  · rw [hadd.table] at hi
    exact h.row_of_le hle hi
  · rw [hadd.buffer] at hitem
    exact h.item_of_le hle hitem
  · show st'.names.texts[(st.names.intern text).1]? = some text
    rw [hadd.names]
    exact Interner.texts_of_get? (Interner.get?_intern st.names text)

end Sound

end Store

end GoSource.Stored
