/-
Without comments, nothing is seen too early.

The productions that ask for comments see what has been passed over, and
there two runs that part may differ. Where there are no comments, they find
none, and so all productions are nearsighted.
-/
import GoSource.Proofs.Running.Documenting
import GoSource.Proofs.Running.Nearsighted

namespace GoSource

open GoSource.Parser

variable {α : Type} {f : Fork} {parse : SubParser}

-- ============================================================= comments

/-- Where no comments wait, none document anything. -/
theorem Parsing.Silent.docLines {s : Parsing} (h : s.Silent) (start : Location) :
    Parser.docLines start s = .ok [] s := by
  obtain ⟨current, ahead, taken, previousEnd, comments, trace, inHeader, guard, turns, arena⟩ := s
  obtain ⟨rfl, -⟩ := h
  rfl

theorem Parser.Nearsighted.docLines (hf : f.silent = true) (start : Location) :
    (Parser.docLines start).Nearsighted f := by
  refine .of_still (g := fun s => { s with comments := [] }) (fun _ => rfl) fun u us s t h => ?_
  obtain ⟨hs, ht⟩ := h.silent hf
  refine ⟨?_, { h with silent := fun _ => ⟨⟨rfl, hs.2⟩, rfl, ht.2⟩ }⟩
  rw [hs.1, ht.1]
  rfl

theorem Parser.Nearsighted.doc (hf : f.silent = true) (start : Location) :
    (Parser.doc start).Nearsighted f :=
  .bind (.docLines hf start) fun _ => .bind .recording fun _ => .pure _

-- ================================================================ woven

theorem Woven.nearsighted {p : Parser α} (hsound : parse.Sound)
    (hparse : ∀ {α : Type} (p : Production α), (parse p).Nearsighted f) (hp : Woven parse p) :
    p.Nearsighted f := by
  induction hp with
  | composed hp => exact hp.nearsighted hsound fun p _ => hparse p
  | bind _ _ ihp ihu => exact .bind ihp ihu
  | unrestricted _ ih => exact .unrestricted ih
  | asHeader _ ih => exact .asHeader ih
  | repeating loop _ x ih => exact .repeating (loop.advances hsound) ih x
  | production p _ => exact hparse p

-- ========================================================== productions

theorem Documenting.nearsighted {p : Parser α} (hf : f.silent = true) (hsound : parse.Sound)
    (hnear : ∀ {α : Type} {p : Parser α}, Woven parse p → p.Nearsighted f)
    (hp : Documenting parse p) : p.Nearsighted f := by
  induction hp with
  | woven hp => exact hnear hp
  | docLines start => exact .docLines hf start
  | newDecl form sp => exact .building
  | bind _ _ ihp ihu => exact .bind ihp ihu
  | unrestricted _ ih => exact .unrestricted ih
  | repeating loop _ x ih => exact .repeating (loop.advances hsound) ih x

/-- Without comments all productions are nearsighted. -/
theorem Grammar.parse_nearsighted_of_silent (hf : f.silent = true) (p : Production α)
    (depth : Nat) : (Grammar.parse depth p).Nearsighted f := by
  induction depth generalizing α with
  | zero => exact .of_fails fun _ _ _ h => nomatch h
  | succ depth ih =>
    have hnear {α : Type} {p : Parser α} (hp : Woven (Grammar.parse depth) p) : p.Nearsighted f :=
      hp.nearsighted (parse_sound depth) ih
    rw [Grammar.parse_succ]
    refine .during ?_
    by_cases hp : p.documents = false
    · exact Production.body_cases hp hnear fun hrest =>
        .bind (.allowGuard true) fun _ => hnear hrest
    · have hgrants : p.grants = false := by cases p <;> first | rfl | exact absurd rfl hp
      exact (Production.body_documenting hgrants).nearsighted hf (parse_sound depth) hnear

end GoSource
