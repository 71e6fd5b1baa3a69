/-
The lines that documentation takes.

The comments that document a declaration are on lines without tokens, and
each ends before the line where the next one starts. Another comment may
still be on a line of theirs: one that ends where the first of them starts.
It would have to be among them for whole lines to be taken, and it is not,
because the search backwards goes on with the line before. So it is only
ever the first line that is not taken whole (`parseSource_documented_lines`).
-/
import GoSource.Proofs.Documentation.Attached

namespace GoSource

/-- Some line holds something of both. -/
def Span.SharesLine (a b : Span) : Prop :=
  a.start.line ≤ b.stop.line ∧ b.start.line ≤ a.stop.line

instance (a b : Span) : Decidable (a.SharesLine b) := inferInstanceAs (Decidable (_ ∧ _))

namespace Comment.LeadUp

variable {p : Option Token} {f : Token} {run : List Comment}

/-- Comments that lead up to a token have their own lines, all before the
token. -/
theorem lines_increase (h : LeadUp p f run) (hrun : ∀ c ∈ run, c.span.start < c.span.stop) :
    (∀ c ∈ run, c.span.stop.line < f.span.start.line) ∧
    run.Pairwise fun c d => c.span.stop.line < d.span.start.line := by
  have hchain := h.chain
  have hlast := h.last
  clear h
  induction run with
  | nil => exact ⟨nofun, .nil⟩
  | cons c run ih =>
    rw [List.forall_mem_cons] at hrun
    cases run with
    | nil =>
      have hc := hlast c rfl
      rw [List.forall_mem_singleton]
      exact ⟨by omega, List.pairwise_singleton _ _⟩
    | cons d run =>
      rw [List.isChain_cons_cons] at hchain
      obtain ⟨hbefore, hincrease⟩ := ih hrun.2 hchain.2 hlast
      have hd : d.span.start.line ≤ d.span.stop.line := by
        have := Location.lt_def.mp (hrun.2 d List.mem_cons_self)
        omega
      have hcd : ∀ e ∈ d :: run, c.span.stop.line < e.span.start.line := by
        rw [List.pairwise_cons] at hincrease
        rw [List.forall_mem_cons]
        refine ⟨by omega, fun e he => ?_⟩
        have := hincrease.1 e he
        omega
      have hdf := hbefore d List.mem_cons_self
      exact ⟨List.forall_mem_cons.mpr ⟨by omega, hbefore⟩, List.pairwise_cons.mpr ⟨hcd, hincrease⟩⟩

end Comment.LeadUp

namespace Token.Stream

variable {s : Token.Stream} {d : Decl} {before rest after : List Token} {f : Token}
  {run : List Comment}

/-- The comments of a declaration were delivered with the token at which it
begins. -/
theorem Attaches.lexeme (h : s.Attaches d before f rest after run) (hs : s.Sorted)
    (hwide : ∀ t ∈ s.tokens, t.IsWide) : ∃ pre l post, s.lexemes = pre ++ l :: post ∧
      before = pre.map (·.token) ∧ f = l.token ∧ run <:+ l.comments := by
  obtain ⟨pre, ls, hlexemes, rfl, hls⟩ := List.map_eq_append_iff.mp h.tokens
  obtain ⟨l, post, rfl, rfl, -⟩ := List.map_eq_cons_iff.mp hls
  refine ⟨pre, l, post, hlexemes, rfl, rfl, ?_⟩
  have hsemi := h.begins.kind_ne_semi
  have hmem : l.token ∈ s.tokens := by
    rw [h.tokens]
    exact List.mem_append_right _ List.mem_cons_self
  rw [← hs.between_eq hlexemes hsemi ((hwide _ hmem).resolve_right hsemi), ← List.getLast?_map]
  exact h.longest.suffix

theorem Attaches.wide (h : s.Attaches d before f rest after run) (hs : s.Sorted) :
    ∀ c ∈ run, c.span.start < c.span.stop :=
  fun _ hc => hs.wide_of_mem (List.mem_of_mem_filter (h.longest.suffix.mem hc))

/-- No token is on a line of an attached comment. -/
theorem Attaches.no_token (h : s.Attaches d before f rest after run) (hs : s.Sorted) :
    ∀ c ∈ run, ∀ t ∈ s.tokens, ¬ t.span.SharesLine c.span := by
  intro c hc t ht hshares
  have hlead := h.longest.leadUp
  have hstop := (hlead.lines_increase (h.wide hs)).1 c hc
  obtain ⟨hstart, hpairwise⟩ := hs.tokens_inOrder
  rw [h.tokens] at ht hstart hpairwise
  rw [List.pairwise_append] at hpairwise
  unfold Span.SharesLine at hshares
  rcases List.mem_append.mp ht with ht | ht
  · -- the comment starts on a later line than the one where the last of these tokens ends
    obtain ⟨init, p, rfl⟩ := (List.eq_nil_or_concat' before).resolve_left (List.ne_nil_of_mem ht)
    have hp := hlead.later c hc p (List.getLast?_concat ..)
    have htp : t.span.stop ≤ p.span.stop := by
      rcases List.mem_append.mp ht with ht | ht
      · have hinit := List.pairwise_append.mp hpairwise.1
        have hle : p.span.start ≤ p.span.stop := hstart p (by simp)
        exact Location.le_trans (hinit.2.2 t ht p (List.mem_singleton_self p)) hle
      · rw [List.mem_singleton.mp ht]
        exact Location.le_refl _
    have := Location.le_def.mp htp
    omega
  · have hft : f.span.start ≤ t.span.start := by
      rcases List.mem_cons.mp ht with rfl | ht
      · exact Location.le_refl _
      · have hle : f.span.start ≤ f.span.stop := hstart f (by simp)
        exact Location.le_trans hle ((List.pairwise_cons.mp hpairwise.2.1).1 t ht)
    have := Location.le_def.mp hft
    omega

/-- Another comment is on a line of an attached one only if this is the
first, and then it ends where this one starts. -/
theorem Attaches.others (h : s.Attaches d before f rest after run) (hs : s.Sorted)
    (hwide : ∀ t ∈ s.tokens, t.IsWide) : ∀ c ∈ run, ∀ c' ∈ s.comments, c' ∉ run →
      c'.span.SharesLine c.span → run.head? = some c ∧ c'.span.stop ≤ c.span.start ∧
        c'.span.stop.line = c.span.start.line := by
  intro c hc c' hc' hnot hshares
  obtain ⟨pre, l, post, hlexemes, -, rfl, left, hl⟩ := h.lexeme hs hwide
  obtain ⟨hcomments, hacross, hbehind⟩ := hs.comments_around hlexemes
  obtain ⟨hbefore, hincrease⟩ := h.longest.leadUp.lines_increase (h.wide hs)
  have hordered : l.Ordered :=
    hs.ordered l (hlexemes ▸ List.mem_append_right pre List.mem_cons_self)
  unfold Span.SharesLine at hshares
  by_cases hle : ∀ e ∈ run, c'.span.stop ≤ e.span.start
  · have hstop := Location.le_def.mp (hle c hc)
    refine ⟨?_, hle c hc, by omega⟩
    cases run with
    | nil => exact nomatch hc
    | cons e run =>
      rcases List.mem_cons.mp hc with rfl | hc
      · rfl
      · -- the comment would have to end before an earlier one of these starts
        have hec := (List.pairwise_cons.mp hincrease).1 c hc
        have he := Location.lt_def.mp (h.wide hs e List.mem_cons_self)
        have hc'e := Location.le_def.mp (hle e List.mem_cons_self)
        omega
  · exfalso
    rw [hcomments, ← hl, List.mem_append, List.mem_append, List.mem_append] at hc'
    rcases hc' with hc' | (hc' | hc') | hc'
    · exact hle fun e he => hacross c' hc' e (hl ▸ List.mem_append_right left he)
    · have hinOrder := hordered.inOrder
      rw [← hl, List.pairwise_append] at hinOrder
      exact hle (hinOrder.2.2 c' hc')
    · exact hnot hc'
    · have hl' := Location.le_def.mp (Location.le_trans hordered.token (hbehind c' hc'))
      have := hbefore c hc
      omega

end Token.Stream

-- ================================================================ sources

/-- Whatever else is on a line of a comment attached to a declaration is
attached too. -/
def Root.WholeLines (s : Token.Stream) (root : Root) : Prop :=
  ∀ d, .decl d ∈ root.reached → ∃ before f rest after run,
    s.Attaches d before f rest after run ∧
    ∀ c ∈ run, ∀ c' ∈ s.comments, c'.span.SharesLine c.span → c' ∈ run

/-- The comments attached to a declaration are on lines without tokens and,
but for what ends on the first of these lines before them, without other
comments. -/
theorem parseSource_documented_lines {source : String} {entry : Entry} {maxDepth : Nat} {a : Arena}
    {root : Root} (h : (parseSource source entry maxDepth a).1 = .ok root) :
    ∀ d, .decl d ∈ root.reached → ∃ before f rest after run,
      (Token.Stream.ofSource source).Attaches d before f rest after run ∧
      (∀ c ∈ run, ∀ t ∈ (Token.Stream.ofSource source).tokens, ¬ t.span.SharesLine c.span) ∧
      ∀ c ∈ run, ∀ c' ∈ (Token.Stream.ofSource source).comments, c' ∉ run →
        c'.span.SharesLine c.span → run.head? = some c ∧ c'.span.stop ≤ c.span.start ∧
          c'.span.stop.line = c.span.start.line := by
  intro d hd
  obtain ⟨before, f, rest, after, run, hrun⟩ := parseSource_attaches h hd
  have hs := Token.Stream.ofSource_sorted source
  exact ⟨before, f, rest, after, run, hrun, hrun.no_token hs,
    hrun.others hs (Token.Stream.ofSource_wide source)⟩

/-- A comment on one line before a comment over two. -/
theorem parseSource_documented_lines_block :
    ∃ root d, (parseSource "// a\n/* b\n*/\nfunc f()" .declarations 20 .empty).1 = .ok root ∧
      .decl d ∈ root.reached ∧ d.form.doc = ["// a", "/* b", "*/"] ∧
      ∃ before f rest after run,
      (Token.Stream.ofSource "// a\n/* b\n*/\nfunc f()").Attaches d before f rest after run ∧
      (∀ c ∈ run, ∀ t ∈ (Token.Stream.ofSource "// a\n/* b\n*/\nfunc f()").tokens,
        ¬ t.span.SharesLine c.span) ∧
      ∀ c ∈ run, ∀ c' ∈ (Token.Stream.ofSource "// a\n/* b\n*/\nfunc f()").comments, c' ∉ run →
        c'.span.SharesLine c.span → run.head? = some c ∧ c'.span.stop ≤ c.span.start ∧
          c'.span.stop.line = c.span.start.line := by
  have hok : ((parseSource "// a\n/* b\n*/\nfunc f()" .declarations 20
      .empty).1.toOption.any fun root =>
        root.reached.any (·.doc = ["// a", "/* b", "*/"])) = true := by
    decide +kernel
  obtain ⟨root, d, h, hd, hdoc⟩ := Root.exists_decl_of_doc (List.cons_ne_nil _ _) hok
  exact ⟨root, d, h, hd, hdoc, parseSource_documented_lines h d hd⟩

/-- Of two comments on one line only the second is attached. -/
theorem parseSource_documented_lines_split :
    ∃ root, (parseSource "/* a */ // b\nvar x int" .declarations 20 .empty).1 = .ok root ∧
      ¬ root.WholeLines (.ofSource "/* a */ // b\nvar x int") := by
  have hok : ((parseSource "/* a */ // b\nvar x int" .declarations 20
      .empty).1.toOption.any fun root => root.reached.any (·.doc = ["// b"])) = true := by
    decide +kernel
  have hfirst : ((Token.Stream.ofSource "/* a */ // b\nvar x int").comments.any fun c' =>
      c'.lines = ["/* a */"] ∧ (Token.Stream.ofSource "/* a */ // b\nvar x int").comments.all
        (c'.span.SharesLine ·.span)) = true := by
    decide +kernel
  obtain ⟨root, d, h, hd, hdoc⟩ := Root.exists_decl_of_doc (List.cons_ne_nil _ _) hok
  obtain ⟨c', hc', hfirst⟩ := List.any_eq_true.mp hfirst
  obtain ⟨hlines, hshares⟩ := of_decide_eq_true hfirst
  refine ⟨root, h, fun hwhole => ?_⟩
  obtain ⟨before, f, rest, after, run, hrun, htaken⟩ := hwhole d hd
  have hrun' : run.flatMap (·.lines) = ["// b"] := hrun.doc.symm.trans hdoc
  obtain ⟨c, hc, -⟩ := List.mem_flatMap.mp (hrun' ▸ List.mem_singleton_self "// b")
  have hcomment := List.mem_of_mem_filter (hrun.longest.suffix.mem hc)
  have hboth := htaken c hc c' hc' (of_decide_eq_true (List.all_eq_true.mp hshares c hcomment))
  have hmem : "/* a */" ∈ run.flatMap (·.lines) :=
    List.mem_flatMap.mpr ⟨c', hboth, hlines ▸ List.mem_singleton_self _⟩
  rw [hrun'] at hmem
  exact absurd hmem (by decide)

end GoSource
