/-
Spans nest, and what stands side by side does not overlap.

The tokens of a source stand one after the other, and the parts of a node
are held by the tokens of the node, in the same order (`Holds`). So the
parts stand one after the other as well, between the start and the stop of
the node. That this survives parentheses, which belong to the tokens but
not to the node, and the statement that is a point behind a label, is seen
rule by rule (`Holds.placed`); no form of a node is looked at.

Nothing bounds the length of the source: a location that is walked to is
not wrapped.
-/
import GoSource.Proofs.Contents.Leaves

namespace GoSource

-- ================================================================ order

namespace Span

/-- From the start of the first span to the end of the last. -/
def hull (sps : List Span) : Span :=
  ⟨(sps.head?.map (·.start)).getD .nowhere, (sps.getLast?.map (·.stop)).getD .nowhere⟩

theorem contains_iff {a b : Span} :
    a.contains b = true ↔ a.start ≤ b.start ∧ b.stop ≤ a.stop := by
  simp [contains]

namespace InOrder

variable {lo hi : Location} {xs : List Span}

/-- The places between which spans stand can be moved up to them. -/
theorem tighten (h : InOrder lo xs hi) (hne : xs ≠ []) :
    lo ≤ (hull xs).start ∧ InOrder (hull xs).start xs (hull xs).stop ∧ (hull xs).stop ≤ hi := by
  induction xs generalizing lo with
  | nil => exact absurd rfl hne
  | cons sp xs ih =>
    cases xs with
    | nil => exact ⟨h.1, ⟨Location.le_refl _, h.2.1, Location.le_refl _⟩, h.2.2⟩
    | cons b xs =>
      obtain ⟨-, hin, hle⟩ := ih h.2.2 (by simp)
      exact ⟨h.1, ⟨Location.le_refl _, h.2.1, h.2.2.1, hin.2⟩, hle⟩

end InOrder

end Span

theorem extent_eq_hull (ts : List Token) : extent ts = Span.hull (ts.map (·.span)) := by
  simp [extent, Span.hull, List.head?_map, List.getLast?_map, Function.comp_def]

theorem Part.hull_eq (ps : List Part) : hull ps = Span.hull (ps.map Part.span) := by
  simp [hull, Span.hull, List.head?_map, List.getLast?_map, Function.comp_def]

-- ============================================================ placement

/-- Where messages about an expression point; other nodes have no such
place. -/
def Visit.focus? : Visit → Option Location
  | expr x => some x.focus
  | _ => none

/-- What is to hold of the places in a node: they are within its span, and
its children come one after the other. -/
structure Visit.WellPlaced (v : Visit) : Prop where
  start_le_stop : v.span.start ≤ v.span.stop
  contains_children : ∀ c ∈ v.children, v.span.contains c.span = true
  contains_parts : ∀ p ∈ v.parts, v.span.contains p.span = true
  contains_focus : ∀ l ∈ v.focus?, v.span.start ≤ l ∧ l ≤ v.span.stop
  children_inOrder : v.children.Pairwise fun c d => c.span.stop ≤ d.span.start

/-- The parts stand one after the other between two places, and all nodes
in them are well placed. -/
def Placed (lo : Location) (ps : List Part) (hi : Location) : Prop :=
  Span.InOrder lo (ps.map Part.span) hi ∧ ∀ v, .node v ∈ ps → v.Everywhere Visit.WellPlaced

theorem Visit.children_sublist (v : Visit) :
    (v.children.map Visit.span).Sublist (v.parts.map Part.span) := by
  unfold children
  induction v.parts with
  | nil => exact .slnil
  | cons p ps ih =>
    cases p with
    | node w => exact ih.cons_cons w.span
    | name n => exact ih.cons n.span
    | path text sp => exact ih.cons sp
    | mark sp => exact ih.cons sp

/-- A message about an expression points to its beginning or to one of its
marks. -/
theorem Visit.focus_eq {v : Visit} {l : Location} (h : l ∈ v.focus?) :
    l = v.span.start ∨ ∃ sp, .mark sp ∈ v.parts ∧ l = sp.start := by
  cases v with
  | expr x =>
    obtain rfl : x.focus = l := by simpa [focus?] using h
    obtain ⟨i, sp, form⟩ := x
    cases form with
    | binary op opSpan left right => exact .inr ⟨opSpan, by simp [parts, ExprForm.parts], rfl⟩
    | unary op opSpan x => exact .inr ⟨opSpan, by simp [parts, ExprForm.parts], rfl⟩
    | index x lBrack i rBrack => exact .inr ⟨lBrack, by simp [parts, ExprForm.parts], rfl⟩
    | slice x lBrack low high top rBrack =>
      exact .inr ⟨lBrack, by simp [parts, ExprForm.parts], rfl⟩
    | call f lParen args dots rParen => exact .inr ⟨lParen, by simp [parts, ExprForm.parts], rfl⟩
    | _ => exact .inl rfl
  | _ => simp [focus?] at h

theorem Placed.wellPlaced {v : Visit} (h : Placed v.span.start v.parts v.span.stop) :
    v.Everywhere Visit.WellPlaced := by
  obtain ⟨horder, hnodes⟩ := h
  have hparts : ∀ p ∈ v.parts, v.span.contains p.span = true := fun p hp =>
    have hin := horder.of_mem (List.mem_map_of_mem hp)
    Span.contains_iff.mpr ⟨hin.1, hin.2.2⟩
  have hchildren := horder.sublist v.children_sublist
  refine .of_parts ⟨horder.le, fun c hc => ?_, hparts, fun l hl => ?_, ?_⟩ hnodes
  · have hin := hchildren.of_mem (List.mem_map_of_mem hc)
    exact Span.contains_iff.mpr ⟨hin.1, hin.2.2⟩
  · obtain rfl | ⟨sp, hsp, rfl⟩ := Visit.focus_eq hl
    · exact ⟨Location.le_refl _, horder.le⟩
    · have hin := horder.of_mem (List.mem_map_of_mem (f := Part.span) hsp)
      exact ⟨hin.1, Location.le_trans hin.2.1 hin.2.2⟩
  · exact List.pairwise_map.mp hchildren.pairwise

theorem Placed.append {lo mid hi : Location} {ps qs : List Part} (h : Placed lo ps mid)
    (h' : Placed mid qs hi) : Placed lo (ps ++ qs) hi := by
  refine ⟨?_, fun v hv => ?_⟩
  · rw [List.map_append]
    exact h.1.append h'.1
  · obtain hv | hv := List.mem_append.mp hv
    · exact h.2 v hv
    · exact h'.2 v hv

theorem Placed.node {v : Visit} {lo hi : Location} (hlo : lo ≤ v.span.start)
    (hv : Placed v.span.start v.parts v.span.stop) (hhi : v.span.stop ≤ hi) :
    Placed lo [.node v] hi := by
  refine ⟨.singleton hlo hv.1.le hhi, fun w hw => ?_⟩
  obtain rfl : w = v := by simpa using hw
  exact hv.wellPlaced

/-- What is no node has only its own place. -/
theorem Placed.bare {p : Part} {lo hi : Location} (hp : ∀ v, p ≠ .node v)
    (h : Span.InOrder lo [p.span] hi) : Placed lo [p] hi :=
  ⟨h, fun v hv => absurd (List.mem_singleton.mp hv).symm (hp v)⟩

/-- Tokens in order hold parts in order. -/
theorem Holds.placed {ts : List Token} {ps : List Part} (h : Holds ts ps) {lo hi : Location}
    (hts : Span.InOrder lo (ts.map (·.span)) hi) : Placed lo ps hi := by
  induction h generalizing lo hi with
  | nil => exact ⟨hts, by simp⟩
  | append _ _ ih ih' =>
    rw [List.map_append] at hts
    obtain ⟨mid, hts, hus⟩ := hts.split
    exact (ih hts).append (ih' hus)
  | skip => exact ⟨hts.le, by simp⟩
  | mark | name | path => exact .bare nofun hts
  | literal => exact .node hts.1 ⟨hts.2.1, by simp [Visit.parts]⟩ hts.2.2
  | spanned _ hne hspan _ ih =>
    obtain ⟨hlo, hin, hhi⟩ := hts.tighten (by simpa using hne)
    rw [← extent_eq_hull, ← hspan] at hlo hin hhi
    exact .node hlo (ih hin) hhi
  | joined _ hne hspan ih =>
    obtain ⟨hin, hnodes⟩ := ih hts
    obtain ⟨hlo, hin, hhi⟩ := hin.tighten (by simpa using hne)
    rw [← Part.hull_eq, ← hspan] at hlo hin hhi
    exact .node hlo ⟨hin, hnodes⟩ hhi
  | empty =>
    refine .node (Location.le_trans hts.1 hts.2.1) ⟨Location.le_refl _, ?_⟩ hts.2.2
    simp [Visit.parts, StmtForm.parts]

-- ================================================================ roots

/-- A walk over a whole tree. -/
def Root.walk (root : Root) : List Step := root.visits.flatMap (·.walk 0)

/-- In a tree that is parsed from a source every node is well placed, and
so are the trees of a list among themselves. -/
theorem parseSource_wellPlaced {source : String} {entry : Entry} {maxDepth : Nat}
    {arena : Arena} {root : Root}
    (h : (parseSource source entry maxDepth arena).1 = .ok root) :
    (∀ step ∈ root.walk, step.visit.WellPlaced) ∧
      root.visits.Pairwise fun v w => v.span.stop ≤ w.span.start := by
  have hread := parseStream_reads (Token.Stream.ofSource_proper source) h
  obtain ⟨horder, hnodes⟩ := hread.holds.placed (Token.Stream.ofSource_inOrder source)
  refine ⟨fun step hstep => ?_, ?_⟩
  · obtain ⟨v, hv, hstep⟩ := List.mem_flatMap.mp hstep
    exact hnodes v (List.mem_map_of_mem hv) 0 step hstep
  · have hpairs := horder.pairwise
    rwa [List.map_map, List.pairwise_map] at hpairs

/-- A label with nothing behind it, whose statement is a mere point. -/
theorem parseSource_wellPlaced_label :
    ∃ root, (parseSource "x++; L:" .statements 30 .empty).1 = .ok root ∧
      (∀ step ∈ root.walk, step.visit.WellPlaced) ∧
        root.visits.Pairwise fun v w => v.span.stop ≤ w.span.start := by
  have hok : (parseSource "x++; L:" .statements 30 .empty).1.toOption.isSome = true := by
    decide +kernel
  cases h : (parseSource "x++; L:" .statements 30 .empty).1 with
  | error e =>
    rw [h] at hok
    exact nomatch hok
  | ok root => exact ⟨root, rfl, parseSource_wellPlaced h⟩

end GoSource
