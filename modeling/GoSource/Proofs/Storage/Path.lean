/-
Ways through a store.

The number of steps in which a handle reads is the measure of all that is
said here: one step of reading is one step of following, after which there
is one step less to read (`exists_of_nodes`). So where everything reads,
nothing is out of bounds and nothing leads back to itself
(`Path.eq_nil`), and from a handle one comes to the nodes that it stands
for, with those below them, and to no others (`Path.mem_refs`). If those
are all different, there is only one way to each (`Path.unique`). Visiting
them ends after as many steps as it takes to read them (`visit_eq_some`).
-/
import GoSource.Proofs.Storage.Shows
import GoSource.Proofs.Storage.Sound

namespace GoSource.Stored

variable {R : Reader} {st : Store} {h h' : Handle} {hs : List Handle} {vs us us' : List Visit}
  {i j n m : Nat} {is js : List Nat} {q : Ref}

namespace Shows

/-- The nodes of one of the handles are among those of all. -/
theorem exists_of_getElem? (hvs : Shows R hs vs) (hi : hs[i]? = some h) :
    ∃ us, h.nodes R = some us ∧ us.Sublist vs := by
  induction hvs generalizing i with
  | nil => exact nomatch hi
  | @cons g hs us ws hus _ ih =>
    cases i with
    | zero =>
      obtain rfl : g = h := Option.some.inj hi
      exact ⟨us, hus, List.sublist_append_left us ws⟩
    | succ i =>
      obtain ⟨us', hus', hsub⟩ := ih hi
      exact ⟨us', hus', hsub.trans (List.sublist_append_right us ws)⟩

theorem mem_refs (hvs : Shows R hs vs) (hi : hs[i]? = some h) (hus : h.nodes R = some us)
    (hq : q ∈ us.flatMap Visit.refs) : q ∈ vs.flatMap Visit.refs := by
  obtain ⟨us', hus', hsub⟩ := hvs.exists_of_getElem? hi
  obtain rfl := Option.some.inj (hus.symm.trans hus')
  exact (hsub.flatMap Visit.refs).mem hq

/-- If no node is there twice, then only one of the handles leads to it. -/
theorem index_unique (hvs : Shows R hs vs) (hnodup : (vs.flatMap Visit.refs).Nodup)
    (hi : hs[i]? = some h) (hj : hs[j]? = some h') (hus : h.nodes R = some us)
    (hus' : h'.nodes R = some us') (hq : q ∈ us.flatMap Visit.refs)
    (hq' : q ∈ us'.flatMap Visit.refs) : i = j := by
  induction hvs generalizing i j with
  | nil => exact nomatch hi
  | @cons g hs ws _ hws hrest ih =>
    rw [List.flatMap_append, List.nodup_append'] at hnodup
    obtain ⟨-, hnodup, hdisjoint⟩ := hnodup
    -- the first of the handles has nothing in common with the others
    cases i with
    | zero =>
      cases j with
      | zero => rfl
      | succ j =>
        obtain rfl : g = h := Option.some.inj hi
        obtain rfl := Option.some.inj (hws.symm.trans hus)
        exact (hdisjoint hq (hrest.mem_refs hj hus' hq')).elim
    | succ i =>
      cases j with
      | zero =>
        obtain rfl : g = h' := Option.some.inj hj
        obtain rfl := Option.some.inj (hws.symm.trans hus')
        exact (hdisjoint hq' (hrest.mem_refs hi hus hq)).elim
      | succ j => exact congrArg _ (ih hnodup hi hj)

end Shows

theorem ref?_visit (k : NodeKind) (x : Node (Form k)) : (Form.visit k x).ref? = some ⟨k, x.id⟩ := by
  cases k <;> rfl

namespace Store

-- ================================================================= steps

/-- Without steps nothing reads. -/
theorem exists_succ_of_nodes (hvs : h.nodes (st.reader n) = some vs) : ∃ m, n = m + 1 := by
  cases n with
  | zero => cases h <;> exact nomatch hvs
  | succ m => exact ⟨m, rfl⟩

/-- What a handle refers to is there, and what that leads to reads in one
step less. -/
theorem exists_of_nodes (hvs : h.nodes (st.reader (n + 1)) = some vs) :
    ∃ hs ws, st.follow h = some hs ∧ Shows (st.reader n) hs ws ∧
      vs.flatMap Visit.refs = h.ref?.toList ++ ws.flatMap Visit.refs := by
  cases h with
  | node r =>
    obtain ⟨k, i⟩ := r
    obtain ⟨x, hx, rfl⟩ := Option.map_eq_some_iff.mp hvs
    obtain ⟨row, hrow, hx⟩ := Option.bind_eq_some_iff.mp hx
    obtain ⟨span, -, hx⟩ := Option.bind_eq_some_iff.mp hx
    obtain ⟨form, hform, hx⟩ := Option.bind_eq_some_iff.mp hx
    obtain rfl := Option.some.inj hx
    refine ⟨_, _, Option.map_eq_some_iff.mpr ⟨row, hrow, rfl⟩,
      Row.shows (x := ⟨i, span, form⟩) hform, ?_⟩
    rw [List.flatMap_singleton, Visit.refs_children, ref?_visit]
    rfl
  | list k r =>
    obtain ⟨xs, hxs, rfl⟩ := Option.map_eq_some_iff.mp hvs
    obtain ⟨items, hitems, hxs⟩ := Option.bind_eq_some_iff.mp hxs
    exact ⟨_, _, Option.map_eq_some_iff.mpr ⟨items, hitems, rfl⟩,
      .flatMap hxs fun _ _ => Item.shows, rfl⟩
  | text s =>
    obtain ⟨t, ht, rfl⟩ := Option.map_eq_some_iff.mp hvs
    exact ⟨[], [], Option.map_eq_some_iff.mpr ⟨t, ht, rfl⟩, .nil, rfl⟩

theorem inBounds_of_nodes (hvs : h.nodes (st.reader n) = some vs) : st.InBounds h := by
  obtain ⟨m, rfl⟩ := exists_succ_of_nodes hvs
  obtain ⟨hs, -, hfollow, -⟩ := exists_of_nodes hvs
  exact inBounds_iff.mpr (Option.isSome_of_eq_some hfollow)

theorem inBounds_of_shows (hvs : Shows (st.reader n) hs vs) (hh : h ∈ hs) : st.InBounds h := by
  obtain ⟨i, hi⟩ := List.mem_iff_getElem?.mp hh
  obtain ⟨us, hus, -⟩ := hvs.exists_of_getElem? hi
  exact inBounds_of_nodes hus

namespace Sound

variable {k : NodeKind} {kind : ListKind}

/-- What a row refers to is there. -/
theorem inBounds_of_row (hst : st.Sound R) {row : Row k} (hrow : row ∈ (st.table k).rows)
    (hh : h ∈ Row.handles k row) : st.InBounds h := by
  obtain ⟨i, hi⟩ := Array.mem_iff_getElem?.mp hrow
  obtain ⟨x, hx⟩ := hst.rows k i (Array.getElem?_eq_some_iff.mp hi).1
  obtain ⟨-, -, row', hrow', hread⟩ := hst.row hx
  obtain rfl := Option.some.inj (hi.symm.trans hrow')
  obtain ⟨n, rfl⟩ := hst.steps
  exact inBounds_of_shows (Row.shows hread) hh

/-- What an item refers to is there. -/
theorem inBounds_of_item (hst : st.Sound R) {item : Item kind} (hitem : item ∈ st.buffer kind)
    (hh : h ∈ Item.handles kind item) : st.InBounds h := by
  obtain ⟨x, hx⟩ := hst.items kind item hitem
  obtain ⟨n, rfl⟩ := hst.steps
  exact inBounds_of_shows (Item.shows hx) hh

end Sound

-- ================================================================= paths

/-- A path takes a step of reading for each of its own. -/
theorem Path.steps (hp : st.Path h is q) (hvs : h.nodes (st.reader n) = some vs) :
    ∃ m ws, n = m + is.length ∧ (Handle.node q).nodes (st.reader m) = some ws := by
  induction hp generalizing n vs with
  | here r => exact ⟨n, vs, rfl, hvs⟩
  | step hfollow hi _ ih =>
    obtain ⟨n, rfl⟩ := exists_succ_of_nodes hvs
    obtain ⟨hs, ws, hfollow', hws, -⟩ := exists_of_nodes hvs
    obtain rfl := Option.some.inj (hfollow.symm.trans hfollow')
    obtain ⟨us, hus, -⟩ := hws.exists_of_getElem? hi
    obtain ⟨m, ws, rfl, hq⟩ := ih hus
    exact ⟨m, ws, rfl, hq⟩

/-- A node that reads is not below itself. -/
theorem Path.eq_nil (hp : st.Path (.node q) is q)
    (hvs : (Handle.node q).nodes (st.reader n) = some vs) : is = [] := by
  -- going round once more would leave fewer steps to read the same node
  induction n using Nat.strong_induction_on generalizing vs with
  | _ n ih =>
    obtain ⟨m, ws, hn, hws⟩ := hp.steps hvs
    by_contra hne
    exact hne (ih m (by have := List.length_pos_iff.mpr hne; omega) hws)

/-- Where everything reads, no node leads to itself. -/
theorem Sound.acyclic (hst : st.Sound R) (hp : st.Path (.node q) is q) : is = [] := by
  cases hp with
  | here => rfl
  | step hfollow hi hp =>
    have hq : st.InBounds (.node q) := inBounds_iff.mpr (Option.isSome_of_eq_some hfollow)
    obtain ⟨x, hx⟩ := hst.rows q.kind q.number hq
    obtain ⟨n, rfl⟩ := hst.steps
    exact (Path.step hfollow hi hp).eq_nil (Option.map_eq_some_iff.mpr ⟨x, hx, rfl⟩)

theorem Path.mem_refs (hp : st.Path h is q) (hvs : h.nodes (st.reader n) = some vs) :
    q ∈ vs.flatMap Visit.refs := by
  induction hp generalizing n vs with
  | here r =>
    obtain ⟨n, rfl⟩ := exists_succ_of_nodes hvs
    obtain ⟨hs, ws, -, -, hrefs⟩ := exists_of_nodes hvs
    rw [hrefs]
    exact List.mem_append_left _ (List.mem_singleton_self r)
  | step hfollow hi _ ih =>
    obtain ⟨n, rfl⟩ := exists_succ_of_nodes hvs
    obtain ⟨hs, ws, hfollow', hws, hrefs⟩ := exists_of_nodes hvs
    obtain rfl := Option.some.inj (hfollow.symm.trans hfollow')
    obtain ⟨us, hus, -⟩ := hws.exists_of_getElem? hi
    rw [hrefs]
    exact List.mem_append_right _ (hws.mem_refs hi hus (ih hus))

/-- A node that is there once is reached in one way. -/
theorem Path.unique (hp : st.Path h is q) (hp' : st.Path h js q)
    (hvs : h.nodes (st.reader n) = some vs) (hnodup : (vs.flatMap Visit.refs).Nodup) :
    is = js := by
  induction hp generalizing n vs js with
  | here r =>
    cases hp' with
    | here => rfl
    | step hfollow hi hp' =>
      exact absurd (Path.eq_nil (.step hfollow hi hp') hvs) (List.cons_ne_nil _ _)
  | @step h g hs i is r hfollow hi hp ih =>
    cases hp' with
    | here => exact Path.eq_nil (.step hfollow hi hp) hvs
    | @step _ g' _ j js _ hfollow' hj hp' =>
      obtain rfl := Option.some.inj (hfollow.symm.trans hfollow')
      obtain ⟨n, rfl⟩ := exists_succ_of_nodes hvs
      obtain ⟨hs, ws, hfollow', hws, hrefs⟩ := exists_of_nodes hvs
      obtain rfl := Option.some.inj (hfollow.symm.trans hfollow')
      rw [hrefs, List.nodup_append] at hnodup
      obtain ⟨us, hus, hsub⟩ := hws.exists_of_getElem? hi
      obtain ⟨us', hus', -⟩ := hws.exists_of_getElem? hj
      obtain rfl := hws.index_unique hnodup.2.1 hi hj hus hus' (hp.mem_refs hus)
        (hp'.mem_refs hus')
      obtain rfl := Option.some.inj (hi.symm.trans hj)
      rw [ih hp' hus (hnodup.2.1.sublist (hsub.flatMap Visit.refs))]

-- ============================================================== visiting

/-- Visiting what handles lead to, one after the other. -/
theorem mapM_visit (hvs : Shows R hs vs) (hvisit : ∀ h us, h.nodes R = some us →
    st.visit n h = some (us.flatMap Visit.refs)) :
    ∃ rs, hs.mapM (st.visit n) = some rs ∧ rs.flatten = vs.flatMap Visit.refs := by
  induction hvs with
  | nil => exact ⟨[], rfl, rfl⟩
  | @cons h _ us _ hus _ ih =>
    obtain ⟨rs, hrs, hflat⟩ := ih
    refine ⟨us.flatMap Visit.refs :: rs, ?_, ?_⟩
    · rw [List.mapM_cons, hvisit _ _ hus, hrs]
      rfl
    · rw [List.flatten_cons, hflat, List.flatMap_append]

/-- As many steps as are enough to read something are enough to visit it. -/
theorem visit_eq_some (hvs : h.nodes (st.reader n) = some vs) :
    st.visit n h = some (vs.flatMap Visit.refs) := by
  induction n generalizing h vs with
  | zero => exact absurd (exists_succ_of_nodes hvs) nofun
  | succ n ih =>
    obtain ⟨hs, ws, hfollow, hws, hrefs⟩ := exists_of_nodes hvs
    obtain ⟨rs, hrs, hflat⟩ := mapM_visit hws fun _ _ => ih
    rw [hrefs, ← hflat]
    exact Option.bind_eq_some_iff.mpr ⟨hs, hfollow,
      Option.bind_eq_some_iff.mpr ⟨rs, hrs, rfl⟩⟩

end Store

end GoSource.Stored
