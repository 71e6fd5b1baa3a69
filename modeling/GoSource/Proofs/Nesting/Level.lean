/-
How deep a node lies.

A binary expression continues its left operand, and what is attached to an
operand continues it as well: the text goes on to the right, and the tree
grows upwards. A step from such an expression to its operand
(`Visit.operand`) leads down the tree and yet into nothing; every other
step from a node to one of its children (`Visit.attached`) leads into
something. `Visit.Chain v n w` is a way down from `v` to `w` with `n` steps
of the latter kind, and `v.Nests n` says that there are at most `n` of them
on each way down from `v`.
-/
import GoSource.Proofs.Contents.Part

namespace GoSource

-- ================================================================ steps

/-- The operand that the expression continues. -/
def ExprForm.operand : ExprForm → Option Expr
  | binary _ _ left _ => some left
  | index x _ _ _ | slice x _ _ _ _ _ | typeAssert x _ _ | selector x _ | call x _ _ _ _ => some x
  | ident _ | literal _ | composite _ _ _ _ | unary _ _ _ | type _ => none

namespace Visit

def operand : Visit → Option Visit
  | expr x => x.form.operand.map .expr
  | _ => none

/-- The other nodes directly below a node. -/
def attached (v : Visit) : List Visit :=
  match v.operand with
  | some _ => v.children.tail
  | none => v.children

/-- The operand comes first. -/
theorem children_eq (v : Visit) : v.children = v.operand.toList ++ v.attached := by
  cases hop : v.operand with
  | none => simp [attached, hop]
  | some w =>
    have hchildren : ∃ rest, v.children = w :: rest := by
      cases v with
      | expr x =>
        obtain ⟨i, sp, form⟩ := x
        cases form <;> cases hop <;> exact ⟨_, rfl⟩
      | _ => exact nomatch hop
    obtain ⟨rest, hrest⟩ := hchildren
    simp [attached, hop, hrest]

/-- A way down the tree; the steps are counted that are none to the
operand. -/
inductive Chain : Visit → Nat → Visit → Prop where
  | here (v : Visit) : Chain v 0 v
  | operand {v x w : Visit} {n : Nat} (hx : v.operand = some x) (h : Chain x n w) : Chain v n w
  | attached {v c w : Visit} {n : Nat} (hc : c ∈ v.attached) (h : Chain c n w) : Chain v (n + 1) w

/-- On no way down are there more steps than that. -/
def Nests (v : Visit) (n : Nat) : Prop := ∀ k w, v.Chain k w → k ≤ n

namespace Nests

variable {v x c : Visit} {n m : Nat}

theorem mono (h : v.Nests n) (hnm : n ≤ m) : v.Nests m :=
  fun k w hk => Nat.le_trans (h k w hk) hnm

theorem intro (hop : ∀ x, v.operand = some x → x.Nests (n + 1))
    (hat : ∀ c ∈ v.attached, c.Nests n) :
    v.Nests (n + 1) := by
  intro k w hk
  cases hk with
  | here => exact Nat.zero_le _
  | operand hx h => exact hop _ hx _ _ h
  | attached hc h => exact Nat.succ_le_succ (hat _ hc _ _ h)

theorem leaf (h : v.children = []) : v.Nests n := by
  obtain ⟨hop, hat⟩ := List.append_eq_nil_iff.mp (v.children_eq.symm.trans h)
  intro k w hk
  cases hk with
  | here => exact Nat.zero_le _
  | operand hx _ =>
    rw [hx] at hop
    exact nomatch hop
  | attached hc _ =>
    rw [hat] at hc
    exact nomatch hc

theorem of_attached (h : v.Nests (n + 1)) (hc : c ∈ v.attached) : c.Nests n :=
  fun k w hk => Nat.le_of_succ_le_succ (h (k + 1) w (.attached hc hk))

end Nests

end Visit

-- ================================================================ parts

namespace Part

/-- The same of all nodes among some parts. -/
def Nest (n : Nat) (ps : List Part) : Prop := ∀ v, .node v ∈ ps → v.Nests n

variable {n m : Nat} {ps qs : List Part}

theorem Nest.mono (h : Nest n ps) (hnm : n ≤ m) : Nest m ps :=
  fun v hv => (h v hv).mono hnm

theorem Nest.of_mem (h : Nest n ps) {v : Visit} (hv : v ∈ ps.filterMap node?) : v.Nests n := by
  obtain ⟨p, hp, hnode⟩ := List.mem_filterMap.mp hv
  cases p with
  | node w => exact Option.some.inj hnode ▸ h w hp
  | name i => exact nomatch hnode
  | path text sp => exact nomatch hnode
  | mark sp => exact nomatch hnode

@[simp] theorem nest_nil : Nest n [] := nofun

@[simp] theorem nest_node {v : Visit} : Nest n (.node v :: ps) ↔ v.Nests n ∧ Nest n ps := by
  simp only [Nest, List.mem_cons, node.injEq]
  grind

@[simp] theorem nest_name {i : Ident} : Nest n (.name i :: ps) ↔ Nest n ps := by
  simp [Nest]

@[simp] theorem nest_path {text : String} {sp : Span} :
    Nest n (.path text sp :: ps) ↔ Nest n ps := by
  simp [Nest]

@[simp] theorem nest_mark {sp : Span} : Nest n (.mark sp :: ps) ↔ Nest n ps := by
  simp [Nest]

@[simp] theorem nest_append : Nest n (ps ++ qs) ↔ Nest n ps ∧ Nest n qs := by
  simp only [Nest, List.mem_append]
  grind

@[simp] theorem nest_reverse : Nest n ps.reverse ↔ Nest n ps := by
  simp [Nest]

@[simp] theorem nest_map {α : Type} {f : α → Part} {xs : List α} :
    Nest n (xs.map f) ↔ ∀ x ∈ xs, Nest n [f x] := by
  simp only [Nest, List.mem_map, List.mem_singleton]
  grind

@[simp] theorem nest_flatMap {α : Type} {f : α → List Part} {xs : List α} :
    Nest n (xs.flatMap f) ↔ ∀ x ∈ xs, Nest n (f x) := by
  simp only [Nest, List.mem_flatMap]
  grind

end Part

namespace Visit.Nests

variable {v x : Visit} {n : Nat} {ps : List Part}

/-- A node that continues nothing lies one level above its parts. -/
theorem of_parts (h : Part.Nest n v.parts) (hop : v.operand = none) : v.Nests (n + 1) := by
  refine intro (fun x hx => ?_) fun c hc => ?_
  · rw [hop] at hx
    exact nomatch hx
  · have hattached : v.attached = v.parts.filterMap Part.node? := by
      simp [attached, hop, children]
    exact h.of_mem (hattached ▸ hc)

/-- An expression lies one level above what it attaches to its operand. -/
theorem of_operand (hparts : v.parts = .node x :: ps) (hop : v.operand = some x)
    (hx : x.Nests (n + 1)) (hps : Part.Nest n ps) : v.Nests (n + 1) := by
  refine intro (fun y hy => ?_) fun c hc => ?_
  · rw [hop] at hy
    exact Option.some.inj hy ▸ hx
  · have hattached : v.attached = ps.filterMap Part.node? := by
      simp [attached, hop, children, hparts, Part.node?]
    exact hps.of_mem (hattached ▸ hc)

end Visit.Nests

end GoSource
