/-
One arena, many parses.

An arena is handed from one parse to the next, whether these succeed or
not. What each leaves behind is closed and holds all results so far
(`parseEach_sound`), because no parse changes what it finds. So references
can be followed from any result, for as long as the arena is used
(`parseEach_traverse`).

What an arena holds has no influence on a parse but that nodes get higher
numbers. A parse into it is a parse into an empty one, renumbered
(`parseStream_afresh`).
-/
import GoSource.Proofs.Arena.Declaration
import GoSource.Proofs.Arena.Reading
import GoSource.Proofs.Contents.Shown

namespace GoSource

open Renumber

variable {δ : NodeKind → Nat} {a : Arena}

-- ================================================================ roots

namespace Root

/-- What a root consists of; a file is no node. -/
def parts : Root → List Part
  | expr x => [.expr x]
  | decls ds => ds.map .decl
  | file f => f.parts
  | stmts ss => ss.map .stmt
  | stmt s => [.stmt s]

/-- The lists that are part of no node. -/
def lists : Root → List Listing
  | decls ds => [.decls ds]
  | file f => f.lists
  | stmts ss => [.stmts ss]
  | expr _ | stmt _ => []

/-- The nodes that are in no other. -/
def nodes (root : Root) : List Visit := root.parts.filterMap Part.node?

end Root

theorem Entry.parser_builds (entry : Entry) (depth : Nat) :
    Builds δ (root δ) (entry.parser (Grammar.parse depth)) (entry.parser (Grammar.parse depth)) a
      fun root b => Held a b root.parts root.lists := by
  have hp : SubParser.Builds δ (Grammar.parse depth) := Grammar.parse_builds depth
  cases entry with
  | expression =>
    refine .map (.bind hp.expression fun x b hx => ?_) fun x b hx => ⟨hx, rfl⟩
    exact .bind_look fun _ => .bind_look fun _ => .pure hx rfl
  | declarations =>
    exact .map (Grammar.declarations_builds hp) fun ds b hds => ⟨hds, rfl⟩
  | file => exact .map (hp .file (.nil (.refl a))) fun f b hf => ⟨hf, rfl⟩
  | statements =>
    refine .map (.bind (Grammar.stmtList_builds hp) fun ss b hss => ?_) fun ss b hss => ⟨hss, rfl⟩
    exact .bind_look fun _ => .pure hss rfl
  | typeSwitchGuard =>
    exact .map (hp .typeSwitchGuard (.nil (.refl a))) fun s b hs => ⟨hs, rfl⟩

/-- How two parses of one stream end, into arenas of which the second has
more nodes. -/
inductive Parses (δ : NodeKind → Nat) (a : Arena) :
    Except ParseError Root × Arena → Except ParseError Root × Arena → Prop
  | ok {x : Root} {b b' : Arena} (grows : a.GrowsTo b) (closed : b.Closed)
      (held : Held a b x.parts x.lists) : Parses δ a (.ok x, b) (.ok (root δ x), b')
  | error {e : ParseError} {b b' : Arena} (grows : a.GrowsTo b) (closed : b.Closed) :
      Parses δ a (.error e, b) (.error e, b')

namespace Parses

variable {o o' : Except ParseError Root × Arena}

theorem grows (h : Parses δ a o o') : a.GrowsTo o.2 := by
  cases h with
  | ok grows | error grows => exact grows

theorem closed (h : Parses δ a o o') : o.2.Closed := by
  cases h with
  | ok _ closed | error _ closed => exact closed

theorem held (h : Parses δ a o o') {x : Root} (hx : o.1 = .ok x) :
    Held a o.2 x.parts x.lists := by
  cases h with
  | ok _ _ held =>
    cases hx
    exact held
  | error => exact nomatch hx

end Parses

theorem parseStream_parses (ha : a.Closed) {a' : Arena}
    (hcount : ∀ k, a'.count k = a.count k + δ k) (stream : Token.Stream) (entry : Entry)
    (maxDepth : Nat) :
    Parses δ a (parseStream stream entry maxDepth a) (parseStream stream entry maxDepth a') := by
  have hrun := entry.parser_builds (δ := δ) maxDepth (.start stream a) (.start stream a') rfl
    ⟨rfl, hcount⟩ ha
  unfold parseStream
  generalize entry.parser (Grammar.parse maxDepth) (.start stream a) = o,
    entry.parser (Grammar.parse maxDepth) (.start stream a') = o' at hrun
  cases hrun with
  | ok apart grows closed held => exact .ok grows closed held
  | error grows closed => exact .error grows closed

-- ========================================================== many parses

/-- An input with what it is taken for and how deep it may nest. -/
structure Request where
  stream : Token.Stream
  entry : Entry
  maxDepth : Nat

/-- What the parses that succeeded have returned, in order, and the arena
that all of them share with those that failed. -/
structure Parsed where
  roots : List Root
  arena : Arena

namespace Parsed

def empty : Parsed := ⟨[], .empty⟩

/-- One parse more. -/
def parse (p : Parsed) (request : Request) : Parsed :=
  match parseStream request.stream request.entry request.maxDepth p.arena with
  | (.ok root, arena) => ⟨p.roots ++ [root], arena⟩
  | (.error _, arena) => ⟨p.roots, arena⟩

/-- The nodes of all roots that are in no other. -/
def nodes (p : Parsed) : List Visit := p.roots.flatMap Root.nodes

/-- The arena is closed and holds all results. -/
structure Sound (p : Parsed) : Prop where
  closed : p.arena.Closed
  held : Held .empty p.arena (p.roots.flatMap Root.parts) (p.roots.flatMap Root.lists)

theorem Sound.parse {p : Parsed} (h : p.Sound) (request : Request) : (p.parse request).Sound := by
  have hparse := parseStream_parses (δ := fun _ => 0) h.closed (fun _ => rfl) request.stream
    request.entry request.maxDepth
  have hclosed := hparse.closed
  have hgrows := hparse.grows
  unfold Parsed.parse
  split
  · next root arena ho =>
    have hheld := hparse.held (congrArg Prod.fst ho)
    rw [ho] at hclosed hheld
    refine ⟨hclosed, ?_⟩
    rw [List.flatMap_append, List.flatMap_append, List.flatMap_singleton, List.flatMap_singleton]
    exact h.held.append hheld
  · next arena ho =>
    rw [ho] at hclosed hgrows
    exact ⟨hclosed, h.held.mono hgrows⟩

/-- The nodes of all roots can be found, and below them no reference
stands twice. -/
theorem Sound.nodes {p : Parsed} (h : p.Sound) :
    (∀ v ∈ p.nodes, p.arena.Holds v) ∧ (p.nodes.flatMap Visit.refs).Nodup := by
  have hnodes : p.nodes = (p.roots.flatMap Root.parts).filterMap Part.node? :=
    List.filterMap_flatMap.symm
  rw [hnodes]
  refine ⟨fun v hv => ?_, h.held.nodup⟩
  obtain ⟨part, hpart, hv⟩ := List.mem_filterMap.mp hv
  cases part with
  | node w =>
    obtain rfl : w = v := Option.some.inj hv
    exact h.held.keeps.1 _ hpart
  | _ => exact nomatch hv

end Parsed

/-- Parses one input after the other into one arena. -/
def parseEach (requests : List Request) : Parsed := requests.foldl Parsed.parse .empty

theorem parseEach_sound (requests : List Request) : (parseEach requests).Sound := by
  unfold parseEach
  suffices h : ∀ p : Parsed, p.Sound → (requests.foldl Parsed.parse p).Sound from
    h .empty ⟨Arena.closed_empty, .nil (.refl _)⟩
  induction requests with
  | nil => exact fun p hp => hp
  | cons request requests ih => exact fun p hp => ih _ (hp.parse request)

-- ====================================================== walks, outlines

namespace Root

/-- A walk stops at the file, if there is one, and at what is below the
nodes. -/
theorem mem_walk {root : Root} {step : Step} (h : step ∈ root.walk) :
    (∃ f, root = .file f ∧ step.visit = .file f) ∨ ∃ v ∈ root.nodes, step.visit ∈ v.below := by
  obtain ⟨v, hv, hstep⟩ := List.mem_flatMap.mp h
  have hbelow : step.visit ∈ v.below := List.mem_map_of_mem hstep
  have hnode (part : Part) (hpart : part ∈ root.parts) (hv : part.node? = some v) :
      ∃ v ∈ root.nodes, step.visit ∈ v.below :=
    ⟨v, List.mem_filterMap.mpr ⟨part, hpart, hv⟩, hbelow⟩
  cases root with
  | file f =>
    obtain rfl := List.mem_singleton.mp hv
    rw [Visit.below_eq, List.mem_cons, List.mem_flatMap] at hbelow
    exact hbelow.imp (fun hf => ⟨f, rfl, hf⟩) id
  | expr x =>
    obtain rfl := List.mem_singleton.mp hv
    exact .inr (hnode (.expr x) (List.mem_singleton_self _) rfl)
  | stmt s =>
    obtain rfl := List.mem_singleton.mp hv
    exact .inr (hnode (.stmt s) (List.mem_singleton_self _) rfl)
  | decls ds =>
    obtain ⟨d, hd, rfl⟩ := List.mem_map.mp hv
    exact .inr (hnode (.decl d) (List.mem_map_of_mem hd) rfl)
  | stmts ss =>
    obtain ⟨s, hs, rfl⟩ := List.mem_map.mp hv
    exact .inr (hnode (.stmt s) (List.mem_map_of_mem hs) rfl)

/-- A walk stops at the nodes and at those below them; a file has no
reference. -/
theorem refs_walk (root : Root) :
    root.walk.filterMap (·.visit.ref?) = root.nodes.flatMap Visit.refs := by
  have hvisits : root.walk.filterMap (·.visit.ref?) = root.visits.flatMap Visit.refs := by
    rw [walk, List.filterMap_flatMap]
    refine List.flatMap_congr fun v _ => ?_
    rw [Visit.refs, Visit.below, List.filterMap_map]
    rfl
  rw [hvisits]
  cases root with
  | file f =>
    rw [visits, List.flatMap_singleton, Visit.refs_children]
    rfl
  | expr x => rfl
  | stmt s => rfl
  | decls ds => simp [visits, nodes, parts, List.filterMap_map, Part.node?, Function.comp_def]
  | stmts ss => simp [visits, nodes, parts, List.filterMap_map, Part.node?, Function.comp_def]

/-- An outline shows what a walk stops at, in the same order. -/
theorem visits_outline (root : Root) : Outline.visits root.outline = Walk.shown root.walk := by
  cases root with
  | expr x =>
    rw [outline, Outline.visits_expr 0 0]
    simp [walk, visits, Visit.walk]
  | stmt s =>
    rw [outline, Outline.visits_stmt 0 0]
    simp [walk, visits, Visit.walk]
  | file f =>
    rw [outline, Outline.visits_file 0 0]
    simp [walk, visits, Visit.walk]
  | decls ds =>
    rw [outline, Outline.visits_declList 0 0, ← Walk.walks_decls]
    simp [walk, visits, Part.walks, List.filterMap_map, Part.node?, Function.comp_def]
  | stmts ss =>
    rw [outline, Outline.visits_stmtList 0 0, ← Walk.walks_stmts]
    simp [walk, visits, Part.walks, List.filterMap_map, Part.node?, Function.comp_def]

end Root

-- ============================================================== results

/-- Following the references from a result comes to an end and finds
everything, so it leads to what the tree would, such as a walk. -/
theorem parseEach_traverse (requests : List Request) :
    let p := parseEach requests
    ∀ v ∈ p.nodes, ∃ r, v.ref? = some r ∧
      (∀ (β : Type) (f : Visit → List β → β),
        p.arena.traverse f v.below.length r = some (v.fold f)) ∧
      p.arena.traverse Visit.stops v.below.length r = some fun depth => v.walk depth := by
  intro p v hv
  have hsound := parseEach_sound requests
  obtain ⟨r, hr, hlookup⟩ := hsound.nodes.1 v hv
  refine ⟨r, hr, fun β f => hsound.closed.traverse_eq hlookup (Nat.le_refl _), ?_⟩
  rw [← Visit.fold_stops]
  exact hsound.closed.traverse_eq hlookup (Nat.le_refl _)

/-- A parse into an arena that other parses have left behind fails as it
would with an empty one, or returns the same tree but for the numbers of
its nodes: the same text, the same walk, the same spans. What was in the
arena before is where it was, so whatever could be computed from its
references comes out the same. -/
theorem parseStream_afresh (requests : List Request) (stream : Token.Stream) (entry : Entry)
    (maxDepth : Nat) :
    let a := (parseEach requests).arena
    let later := parseStream stream entry maxDepth a
    let fresh := parseStream stream entry maxDepth .empty
    (match later.1, fresh.1 with
      | .error e, .error e' => e = e'
      | .ok tree, .ok tree' => tree = Renumber.root a.count tree' ∧ tree.text = tree'.text ∧
          tree.walk = tree'.walk.map (Renumber.step a.count) ∧
          tree.walk.map (·.visit.span) = tree'.walk.map (·.visit.span)
      | _, _ => False) ∧
    a.GrowsTo later.2 ∧
    ∀ (β : Type) (f : Visit → List β → β) (fuel : Nat) (r : Ref) (x : β),
      a.traverse f fuel r = some x → later.2.traverse f fuel r = some x := by
  intro a later fresh
  have ha : a.Closed := (parseEach_sound requests).closed
  have hgrows : a.GrowsTo later.2 :=
    (parseStream_parses (δ := fun _ => 0) ha (fun _ => rfl) stream entry maxDepth).grows
  refine ⟨?_, hgrows, fun β f fuel r x => hgrows.traverse⟩
  have hcount : ∀ k, a.count k = Arena.empty.count k + a.count k := by
    intro k
    cases k <;> exact (Nat.zero_add _).symm
  have hparse : Parses a.count .empty fresh later :=
    parseStream_parses Arena.closed_empty hcount stream entry maxDepth
  clear_value later fresh
  cases hparse with
  | error => rfl
  | @ok tree =>
    refine ⟨rfl, text_root a.count tree, walk_root a.count tree, ?_⟩
    rw [walk_root, List.map_map]
    exact List.map_congr_left fun step _ => span_visit a.count step.visit

end GoSource
