/-
Which comments document a declaration.

They are found from the last one back, line by line: each must end where the
next one wants it to. What is found is the longest run of comments that
leads up to the declaration line by line (`documenting_longest`), and it
never goes back beyond the token before. Comments that were passed earlier
start on the line where that token ended, or before it, so it does not
matter that they still wait.
-/
import GoSource.Parsing.State
import Mathlib.Data.List.Chain

namespace GoSource

/-- Comments that lead up to a token line by line, all of them on later lines
than the one where the token before ends. -/
structure Comment.LeadUp (p : Option Token) (f : Token) (cs : List Comment) : Prop where
  chain : cs.IsChain fun c d => c.span.stop.line + 1 = d.span.start.line
  last : ∀ c ∈ cs.getLast?, c.span.stop.line + 1 = f.span.start.line
  later : ∀ c ∈ cs, ∀ t ∈ p, t.span.stop.line < c.span.start.line

namespace Parser

variable {start previousEnd : Location} {lo line : Nat} {cs rs rest : List Comment}

-- ============================================================= backwards

/-- Comments, the last one first, each of which ends on the line before the
next one starts. -/
def Descends (lo : Nat) : (line : Nat) → List Comment → Prop
  | _, [] => True
  | line, c :: rs =>
    c.span.stop.line + 1 = line ∧ lo < c.span.start.line ∧ Descends lo c.span.start.line rs

theorem descends_iff : Descends lo line rs ↔
    rs.IsChain (fun c d => d.span.stop.line + 1 = c.span.start.line) ∧
    (∀ c ∈ rs.head?, c.span.stop.line + 1 = line) ∧ ∀ c ∈ rs, lo < c.span.start.line := by
  induction rs generalizing line with
  | nil => simp [Descends]
  | cons c rs ih =>
    rw [Descends, ih, List.isChain_cons, List.forall_mem_cons]
    simp only [List.head?_cons, Option.mem_some_iff, forall_eq']
    tauto

/-- The search backwards takes as much as it can. -/
theorem documenting_descends (h : ∀ c ∈ rs, ¬ start ≤ c.span.start ∧ 0 < c.span.stop.line) :
    documenting start previousEnd (line - 1) rs <+: rs ∧
    Descends previousEnd.line line (documenting start previousEnd (line - 1) rs) ∧
    ∀ cs, cs <+: rs → Descends previousEnd.line line cs →
      cs <+: documenting start previousEnd (line - 1) rs := by
  induction rs generalizing line with
  | nil => exact ⟨List.prefix_refl _, trivial, fun cs hcs _ => hcs⟩
  | cons c rs ih =>
    rw [List.forall_mem_cons] at h
    obtain ⟨⟨hstart, hpos⟩, hrest⟩ := h
    rw [documenting, if_neg hstart]
    by_cases hc : c.span.stop.line + 1 = line ∧ previousEnd.line < c.span.start.line
    · have hgo : (line - 1 = 0 || c.span.stop.line ≠ line - 1 ||
          c.span.start.line ≤ previousEnd.line) = false := by
        simp only [Bool.or_eq_false_iff, decide_eq_false_iff_not]
        omega
      obtain ⟨htaken, hdescends, hlongest⟩ := @ih c.span.start.line hrest
      rw [hgo, if_neg Bool.false_ne_true]
      refine ⟨?_, ⟨hc.1, hc.2, hdescends⟩, fun cs hcs hd => ?_⟩
      · exact (List.cons_prefix_cons).mpr ⟨rfl, htaken⟩
      · cases cs with
        | nil => exact List.nil_prefix
        | cons d cs =>
          obtain ⟨rfl, htail⟩ := List.cons_prefix_cons.mp hcs
          exact List.cons_prefix_cons.mpr ⟨rfl, hlongest cs htail hd.2.2⟩
    · have hstop : (line - 1 = 0 || c.span.stop.line ≠ line - 1 ||
          c.span.start.line ≤ previousEnd.line) = true := by
        simp only [Bool.or_eq_true, decide_eq_true_eq]
        omega
      rw [hstop, if_pos rfl]
      refine ⟨List.nil_prefix, trivial, fun cs hcs hd => ?_⟩
      cases cs with
      | nil => exact List.prefix_refl _
      | cons d cs =>
        obtain ⟨rfl, -⟩ := List.cons_prefix_cons.mp hcs
        exact absurd ⟨hd.1, hd.2.1⟩ hc

/-- Comments that start too early are as good as none. -/
theorem documenting_append
    (h : ∀ c ∈ rest, ¬ start ≤ c.span.start ∧ c.span.start.line ≤ previousEnd.line) :
    documenting start previousEnd line (rs ++ rest) = documenting start previousEnd line rs := by
  induction rs generalizing line with
  | nil =>
    cases rest with
    | nil => rfl
    | cons c rest =>
      rw [List.forall_mem_cons] at h
      simp [documenting, h.1.1, h.1.2]
  | cons c rs ih => rw [List.cons_append, documenting, ih, ih, documenting]

-- =============================================================== forwards

variable {p : Option Token} {f : Token}

theorem leadUp_iff (hp : previousEnd.line = (p.map (·.span.stop.line)).getD 0)
    (hcs : ∀ c ∈ cs, 0 < c.span.start.line) :
    Comment.LeadUp p f cs ↔ Descends previousEnd.line f.span.start.line cs.reverse := by
  have hlater : (∀ c ∈ cs, ∀ t ∈ p, t.span.stop.line < c.span.start.line) ↔
      ∀ c ∈ cs.reverse, previousEnd.line < c.span.start.line := by
    rw [hp]
    cases p with
    | none => simpa using hcs
    | some t => simp
  rw [descends_iff, ← hlater, List.isChain_reverse, List.head?_reverse]
  exact ⟨fun h => ⟨h.chain, h.last, h.later⟩, fun h => ⟨h.1, h.2.1, h.2.2⟩⟩

/-- Of the comments between two tokens, and others that start too early, the
longest run is found that leads up to the second token. -/
theorem documenting_longest (hp : previousEnd.line = (p.map (·.span.stop.line)).getD 0)
    (hcs : ∀ c ∈ cs, ¬ f.span.start ≤ c.span.start ∧ 0 < c.span.start.line ∧ 0 < c.span.stop.line)
    (hrest : ∀ c ∈ rest, ¬ f.span.start ≤ c.span.start ∧
      c.span.start.line ≤ previousEnd.line) {run : List Comment}
    (hrun : run = (documenting f.span.start previousEnd (f.span.start.line - 1)
      (cs.reverse ++ rest)).reverse) :
    run <:+ cs ∧ Comment.LeadUp p f run ∧
      ∀ others, others <:+ cs → Comment.LeadUp p f others → others <:+ run := by
  rw [documenting_append hrest] at hrun
  have hsearched : ∀ c ∈ cs.reverse, ¬ f.span.start ≤ c.span.start ∧ 0 < c.span.stop.line :=
    fun c hc => ⟨(hcs c (List.mem_reverse.mp hc)).1, (hcs c (List.mem_reverse.mp hc)).2.2⟩
  obtain ⟨htaken, hdescends, hlongest⟩ :=
    @documenting_descends _ previousEnd f.span.start.line _ hsearched
  have hreverse := congrArg List.reverse hrun
  rw [List.reverse_reverse] at hreverse
  rw [← hreverse] at htaken hdescends hlongest
  have positive {ds : List Comment} (hds : ds <:+ cs) : ∀ c ∈ ds, 0 < c.span.start.line :=
    fun c hc => (hcs c (hds.mem hc)).2.1
  have hsuffix : run <:+ cs := List.reverse_prefix.mp htaken
  refine ⟨hsuffix, (leadUp_iff hp (positive hsuffix)).mpr hdescends, fun others ho hlead => ?_⟩
  refine List.reverse_prefix.mp (hlongest _ (List.reverse_prefix.mpr ho) ?_)
  exact (leadUp_iff hp (positive ho)).mp hlead

end Parser

end GoSource
