/-
One store, many parses.

A store is handed from one parse to the next, whether these succeed or
not, as an arena is (`parseEach`). What the parses return reads as the
trees that are built in an arena from the same inputs, and the store is
sound behind each of them (`Mates.parse`). So whatever has been stored
since the beginning can be looked up, whether a result leads there or not,
and from the results one comes to each node in one way at most
(`parseEach_wellStored`).
-/
import GoSource.Proofs.Arena.Outlined
import GoSource.Proofs.Storage.Declaration
import GoSource.Proofs.Storage.Path
import GoSource.Storage.Parse

namespace GoSource.Stored

variable {R R' : Reader}

-- ================================================================= roots

namespace Root

def handles : Root → List Handle
  | expr x => [.expr x]
  | decls ds => [.list .decls ds]
  | file f => f.handles
  | stmts ss => [.list .stmts ss]
  | stmt s => [.stmt s]

def read (R : Reader) : Root → Option GoSource.Root
  | expr x => do pure (.expr (← R.expr x))
  | decls ds => do pure (.decls (← R.decls ds))
  | file f => do pure (.file (← f.read R))
  | stmts ss => do pure (.stmts (← R.stmts ss))
  | stmt s => do pure (.stmt (← R.stmt s))

/-- The nodes that are visited from a root, each before those it leads
to. -/
def visit (st : Store) (fuel : Nat) (root : Root) : Option (List Ref) := do
  let refs ← root.handles.mapM (st.visit fuel)
  pure refs.flatten

/-- The text that is printed of a root, whatever it leads to being read. -/
def print (st : Store) (fuel : Nat) (root : Root) : Option String :=
  (root.read (st.reader fuel)).map GoSource.Root.text

theorem read_le (h : R.Le R') : (root : Root) → Sub (root.read R) (root.read R')
  | expr _ | stmt _ => (h.node ..).into
  | decls _ | stmts _ => (h.list ..).into
  | file f => (f.read_le h).into

theorem shows {root : Root} {tree : GoSource.Root} (h : root.read R = some tree) :
    Shows R root.handles tree.nodes := by
  cases root with
  | expr x =>
    obtain ⟨x', hx, rfl⟩ := exists_of_into h
    exact .node hx
  | decls ds =>
    obtain ⟨ds', hds, rfl⟩ := exists_of_into h
    simpa [handles, GoSource.Root.nodes, GoSource.Root.parts, Listed.nodes, Part.node?,
      Function.comp_def, ← List.map_eq_flatMap] using Shows.list hds
  | file f =>
    obtain ⟨f', hf, rfl⟩ := exists_of_into h
    exact File.shows hf
  | stmts ss =>
    obtain ⟨ss', hss, rfl⟩ := exists_of_into h
    simpa [handles, GoSource.Root.nodes, GoSource.Root.parts, Listed.nodes, Part.node?,
      Function.comp_def, ← List.map_eq_flatMap] using Shows.list hss
  | stmt s =>
    obtain ⟨s', hs, rfl⟩ := exists_of_into h
    exact .node hs

end Root

/-- Where a root is made of what is parsed. -/
theorem Mimics.root {α β : Type} {p : Parser β} {q : GoSource.Parser α}
    {read : Reader → β → Option α} {f : β → Root} {g : α → GoSource.Root}
    (hp : Mimics R p q read) (h : ∀ R y, (f y).read R = (read R y).bind fun x => some (g x)) :
    Mimics R (f <$> p) (g <$> q) Root.read := by
  refine hp.map fun R' y x _ hx => ?_
  rw [h, hx]
  rfl

theorem entryParser_mimics (entry : Entry) (depth : Nat) :
    Mimics R (entryParser (Grammar.parse depth) entry)
      (entry.parser (GoSource.Grammar.parse depth)) Root.read := by
  have hp := Grammar.parse_mimics depth
  cases entry with
  | expression =>
    refine .root (.bind hp.expression fun R' x x' _ hx => ?_) fun _ _ => rfl
    exact .bind_look fun _ => .bind_look fun _ => .pure hx
  | declarations => exact .root (Grammar.declarations_mimics hp) fun _ _ => rfl
  | file => exact .root hp.file fun _ _ => rfl
  | statements =>
    refine .root (.bind (Grammar.stmtList_mimics hp) fun R' ss ss' _ hss => ?_) fun _ _ => rfl
    exact .bind_look fun _ => .pure hss
  | typeSwitchGuard => exact .root hp.typeSwitchGuard fun _ _ => rfl

/-- A parse into a sound store beside one into an arena with as many nodes
of each kind: what it returns reads as the tree, or both fail with the same
error. The store behind it is sound again. -/
theorem parseStream_mimics {st : Store} {a : Arena} (hst : st.Sound R)
    (hcount : ∀ k, (st.table k).rows.size = a.count k) (stream : Token.Stream) (entry : Entry)
    (maxDepth : Nat) :
    let stored := parseStream stream entry maxDepth st
    let built := GoSource.parseStream stream entry maxDepth a
    ∃ R', R.Le R' ∧ stored.2.Sound R' ∧
      (∀ k, (stored.2.table k).rows.size = built.2.count k) ∧
      match stored.1, built.1 with
      | .ok root, .ok tree => root.read R' = some tree
      | .error fault, .error e => fault = .parse e
      | _, _ => False := by
  have hrun := entryParser_mimics (R := R) entry maxDepth (.start stream a)
    ⟨.start stream .empty, st⟩ ⟨rfl, hcount, hst⟩
  unfold parseStream GoSource.parseStream
  generalize entryParser (Grammar.parse maxDepth) entry ⟨.start stream .empty, st⟩ = o,
    entry.parser (GoSource.Grammar.parse maxDepth) (.start stream a) = o' at hrun
  cases hrun with
  | ok le mates reads => exact ⟨_, le, mates.sound, mates.count, reads⟩
  | error le mates => exact ⟨_, le, mates.sound, mates.count, rfl⟩

-- ========================================================== many parses

/-- What the parses that succeeded have returned and how the others have
failed, each in order, and the store that all of them share. -/
structure Parsed where
  roots : List Root
  faults : List Fault
  store : Store

namespace Parsed

def empty : Parsed := ⟨[], [], .empty⟩

/-- One parse more. -/
def parse (p : Parsed) (request : Request) : Parsed :=
  match parseStream request.stream request.entry request.maxDepth p.store with
  | (.ok root, store) => ⟨p.roots ++ [root], p.faults, store⟩
  | (.error fault, store) => ⟨p.roots, p.faults ++ [fault], store⟩

/-- The handles of all roots. -/
def handles (p : Parsed) : List Handle := p.roots.flatMap Root.handles

/-- Beside what is parsed into an arena: as many nodes of each kind, roots
that read as the trees, and no fault but those of the inputs. -/
structure Mates (R : Reader) (p : Parsed) (t : GoSource.Parsed) : Prop where
  count : ∀ k, (p.store.table k).rows.size = t.arena.count k
  sound : p.store.Sound R
  roots : p.roots.mapM (Root.read R) = some t.roots
  faults : Fault.outOfBounds ∉ p.faults

variable {p : Parsed} {t : GoSource.Parsed}

theorem Mates.parse (h : Mates R p t) (request : Request) :
    ∃ R', Mates R' (p.parse request) (t.parse request) := by
  obtain ⟨R', hle, hsound, hcount, hroot⟩ := parseStream_mimics h.sound h.count request.stream
    request.entry request.maxDepth
  have hroots := Sub.mapM (Root.read_le hle) p.roots h.roots
  unfold Parsed.parse GoSource.Parsed.parse
  generalize parseStream request.stream request.entry request.maxDepth p.store = o,
    GoSource.parseStream request.stream request.entry request.maxDepth t.arena = o'
    at hsound hcount hroot
  refine ⟨R', ?_⟩
  match o, o' with
  | (.ok root, st), (.ok tree, a) =>
    exact ⟨hcount, hsound, mapM_eq_some_iff.mpr (List.rel_append (mapM_eq_some_iff.mp hroots)
      (.cons hroot .nil)), h.faults⟩
  | (.error fault, st), (.error e, a) =>
    refine ⟨hcount, hsound, hroots, ?_⟩
    rw [show fault = .parse e from hroot]
    simpa using h.faults
  | (.ok _, _), (.error _, _) | (.error _, _), (.ok _, _) => exact hroot.elim

end Parsed

/-- Parses one input after the other into one store. -/
def parseEach (requests : List Request) : Parsed := requests.foldl Parsed.parse .empty

theorem parseEach_mates (requests : List Request) :
    ∃ R, (parseEach requests).Mates R (GoSource.parseEach requests) := by
  unfold parseEach GoSource.parseEach
  have hempty : Parsed.empty.Mates (Store.empty.reader 1) GoSource.Parsed.empty :=
    ⟨fun k => by cases k <;> rfl, .empty, rfl, nofun⟩
  generalize Store.empty.reader 1 = R, Parsed.empty = p, GoSource.Parsed.empty = t at hempty
  induction requests generalizing R p t with
  | nil => exact ⟨R, hempty⟩
  | cons request requests ih =>
    obtain ⟨R', h⟩ := hempty.parse request
    exact ih R' _ _ h

-- ============================================================== results

/-- What is visited from a root is what a walk over its tree stops at. -/
theorem Root.visit_eq_some {st : Store} {n : Nat} {root : Root} {tree : GoSource.Root}
    (h : root.read (st.reader n) = some tree) :
    root.visit st n = some (tree.walk.filterMap (·.visit.ref?)) := by
  obtain ⟨refs, hrefs, hflat⟩ := Store.mapM_visit (Root.shows h) fun _ _ => Store.visit_eq_some
  rw [tree.refs_walk, ← hflat]
  exact Option.bind_eq_some_iff.mpr ⟨refs, hrefs, rfl⟩

/-- After any parses into one store, whether they succeeded or failed,
there is a span for each row, and whatever a row or an item refers to is
there, be it reached from a result or not. No node leads to itself, and from
the results one comes to no node in two ways. No parse has looked for
something that was not there. Neither does who reads the results, however
much further than necessary: they read as the trees that are built in an
arena, a visit ends, having been where a walk over these trees stops, and
what is printed is the text of the trees. -/
theorem parseEach_wellStored (requests : List Request) :
    let p := parseEach requests
    let trees := (GoSource.parseEach requests).roots
    (∀ k, (p.store.table k).spans.size = (p.store.table k).rows.size) ∧
    (∀ k, ∀ row ∈ (p.store.table k).rows, ∀ h ∈ Row.handles k row, p.store.InBounds h) ∧
    (∀ k, ∀ item ∈ p.store.buffer k, ∀ h ∈ Item.handles k item, p.store.InBounds h) ∧
    (∀ r is, p.store.Path (.node r) is r → is = []) ∧
    (∀ (i j : Nat) (h g : Handle) (is js : List Nat) (r : Ref), p.handles[i]? = some h →
      p.handles[j]? = some g → p.store.Path h is r → p.store.Path g js r → i = j ∧ is = js) ∧
    Fault.outOfBounds ∉ p.faults ∧
    ∃ n, ∀ m, n ≤ m →
      p.roots.mapM (Root.read (p.store.reader m)) = some trees ∧
      p.roots.mapM (Root.visit p.store m) =
        some (trees.map fun tree => tree.walk.filterMap (·.visit.ref?)) ∧
      p.roots.mapM (Root.print p.store m) = some (trees.map GoSource.Root.text) := by
  intro p trees
  obtain ⟨R, h⟩ := parseEach_mates requests
  obtain ⟨n, rfl⟩ := h.sound.steps
  have hshows : Shows (p.store.reader (n + 1)) p.handles (GoSource.parseEach requests).nodes :=
    .flatMap h.roots fun _ _ => Root.shows
  have hnodup := (GoSource.parseEach_sound requests).nodes.2
  refine ⟨h.sound.spans, fun k row hrow g hg => h.sound.inBounds_of_row hrow hg,
    fun k item hitem g hg => h.sound.inBounds_of_item hitem hg, fun r is => h.sound.acyclic, ?_,
    h.faults, n + 1, fun m hm => ?_⟩
  · intro i j g g' is js r hi hj his hjs
    obtain ⟨us, hus, hsub⟩ := hshows.exists_of_getElem? hi
    obtain ⟨us', hus', -⟩ := hshows.exists_of_getElem? hj
    obtain rfl := hshows.index_unique hnodup hi hj hus hus' (his.mem_refs hus) (hjs.mem_refs hus')
    obtain rfl := Option.some.inj (hi.symm.trans hj)
    exact ⟨rfl, his.unique hjs hus (hnodup.sublist (hsub.flatMap Visit.refs))⟩
  · have hroots := mapM_eq_some_iff.mp (Sub.mapM (Root.read_le (Store.reader_mono hm)) p.roots
      h.roots)
    refine ⟨mapM_eq_some_iff.mpr hroots, mapM_eq_some_iff.mpr ?_, mapM_eq_some_iff.mpr ?_⟩
    · exact List.forall₂_map_right_iff.mpr (hroots.imp fun _ _ => Root.visit_eq_some)
    · refine List.forall₂_map_right_iff.mpr (hroots.imp fun _ tree htree => ?_)
      exact Option.map_eq_some_iff.mpr ⟨tree, htree, rfl⟩

/-- What fails leaves rows behind: the second input adds an expression that
no result leads to. -/
example :
    let p := parseEach [⟨.ofSource "a.b(c)", .expression, 30⟩, ⟨.ofSource "d +", .expression, 30⟩,
      ⟨.ofSource "e", .expression, 30⟩]
    p.store.exprs.rows.size = 6 ∧
      p.roots.mapM (Root.visit p.store 9) = some [
        [⟨.expr, 3⟩, ⟨.expr, 1⟩, ⟨.expr, 0⟩, ⟨.expr, 2⟩], [⟨.expr, 5⟩]] := by
  decide +kernel

end GoSource.Stored
