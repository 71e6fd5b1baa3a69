/-
Operators without parentheses, grouped by how tightly they bind.

A `Chain` is a text without parentheses: operands with binary operators
between them, each operand a name or a literal behind a run of unary
operators. An `Operation` is a tree over operands, and a chain when it is
read from left to right (`Operation.inOrder`). Many trees have the same
chain; one of them is `Grouped`: an operator has on its left none that
binds less tightly than itself, and on its right only such as bind more
tightly.

# One tree

A chain is grouped by adding one operator after the other on the right
(`Operation.snoc`). Reading a grouped tree from left to right and grouping
what was read gives the tree back (`group_inOrder`), so there is no other.

# Climbing

The left operands of a grouped tree, from its first leaf up to the tree
itself, are what the parser holds on the way, one after each turn of its
repetition. A right operand is a grouped tree with operators that bind
more tightly, and there are only so many levels; the induction is on the
level, and within a level on the tree.
-/
import Mathlib.Data.List.MinMax
import GoSource.Proofs.Rendering.Parse

namespace GoSource

open GoSource.Parser

-- =============================================================== chains

/-- A name or a literal. -/
inductive Atom where
  | name (text : String)
  | literal (value : Literal)

/-- An atom with the unary operators before it, the outermost first. -/
structure Operand where
  ops : List UnaryOp
  atom : Atom

/-- Operands with binary operators between them. -/
structure Chain where
  first : Operand
  rest : List (BinaryOp × Operand)

namespace Atom

def slot : Atom → Slot
  | name text => .name text
  | literal value => .literal value

def expr : Atom → Expr
  | name text => ⟨0, .nowhere, .ident ⟨text, .nowhere⟩⟩
  | literal value => ⟨0, .nowhere, .literal ⟨0, .nowhere, value⟩⟩

end Atom

namespace Operand

def slots (u : Operand) : List Slot := u.ops.map (.kind ·.kind) ++ [u.atom.slot]

/-- The operators apply to the atom, and to nothing else. -/
def expr (u : Operand) : Expr :=
  u.ops.foldr (fun op x => ⟨0, .nowhere, .unary op .nowhere x⟩) u.atom.expr

end Operand

namespace Chain

def operands (c : Chain) : List Operand := c.first :: c.rest.map (·.2)

/-- The length of the longest run of unary operators. -/
def longestRun (c : Chain) : Nat := (c.operands.map (·.ops.length)).foldr max 0

def slots (c : Chain) : List Slot :=
  c.first.slots ++ c.rest.flatMap fun (op, u) => .kind op.kind :: u.slots

end Chain

-- ================================================================ trees

/-- Binary operators applied to operands. -/
inductive Operation where
  | operand (u : Operand)
  | binary (op : BinaryOp) (left right : Operation)

namespace Operation

def expr : Operation → Expr
  | operand u => u.expr
  | binary op l r => ⟨0, .nowhere, .binary op .nowhere l.expr r.expr⟩

/-- What the tree reads from left to right. -/
def inOrder : Operation → Chain
  | operand u => ⟨u, []⟩
  | binary op l r => ⟨l.inOrder.first, l.inOrder.rest ++ (op, r.inOrder.first) :: r.inOrder.rest⟩

/-- An operator on top has at least the given precedence. -/
def AtLeast (least : Nat) : Operation → Prop
  | operand _ => True
  | binary op _ _ => least ≤ op.precedence

/-- Operators are grouped by precedence, those of the same precedence to
the left. -/
def Grouped : Operation → Prop
  | operand _ => True
  | binary op l r =>
    l.AtLeast op.precedence ∧ r.AtLeast (op.precedence + 1) ∧ l.Grouped ∧ r.Grouped

-- ============================================================= grouping

/-- One more operator with an operand on the right. It goes below the
operators that bind less tightly. -/
def snoc : Operation → BinaryOp × Operand → Operation
  | operand u, (op, v) => binary op (operand u) (operand v)
  | binary op l r, (op', v) =>
    if op.precedence < op'.precedence then binary op l (r.snoc (op', v))
    else binary op' (binary op l r) (operand v)

def group (c : Chain) : Operation := c.rest.foldl snoc (operand c.first)

variable {t : Operation} {least : Nat}

theorem inOrder_snoc (t : Operation) (p : BinaryOp × Operand) :
    (t.snoc p).inOrder = ⟨t.inOrder.first, t.inOrder.rest ++ [p]⟩ := by
  induction t with
  | operand u => rfl
  | binary op l r _ ihr =>
    unfold snoc
    split
    · simp [inOrder, ihr]
    · rfl

theorem AtLeast.snoc {p : BinaryOp × Operand} (h : t.AtLeast least)
    (hp : least ≤ p.1.precedence) : (t.snoc p).AtLeast least := by
  cases t with
  | operand u => exact hp
  | binary op l r =>
    unfold Operation.snoc
    split
    · exact h
    · exact hp

theorem Grouped.snoc (h : t.Grouped) (p : BinaryOp × Operand) : (t.snoc p).Grouped := by
  induction t with
  | operand u => exact ⟨trivial, trivial, trivial, trivial⟩
  | binary op l r _ ihr =>
    obtain ⟨hl, hr, hgl, hgr⟩ := h
    unfold Operation.snoc
    split
    · next hlt => exact ⟨hl, hr.snoc hlt, hgl, ihr hgr⟩
    · next hlt => exact ⟨Nat.le_of_not_lt hlt, trivial, ⟨hl, hr, hgl, hgr⟩, trivial⟩

theorem inOrder_foldl (ps : List (BinaryOp × Operand)) (t : Operation) :
    (ps.foldl snoc t).inOrder = ⟨t.inOrder.first, t.inOrder.rest ++ ps⟩ := by
  induction ps generalizing t with
  | nil => rw [List.append_nil]; rfl
  | cons p ps ih => rw [List.foldl_cons, ih, inOrder_snoc, List.append_assoc]; rfl

/-- Grouping a chain changes nothing of it. -/
theorem inOrder_group (c : Chain) : (group c).inOrder = c :=
  inOrder_foldl c.rest (operand c.first)

theorem grouped_group (c : Chain) : (group c).Grouped := by
  have hfold : ∀ (ps : List (BinaryOp × Operand)) (t : Operation), t.Grouped →
      (ps.foldl snoc t).Grouped := by
    intro ps
    induction ps with
    | nil => exact fun t h => h
    | cons p ps ih => exact fun t h => ih _ (h.snoc p)
  exact hfold c.rest (operand c.first) trivial

-- =========================================================== uniqueness

/-- The operator on top of a grouped tree binds least tightly. -/
theorem Grouped.le_precedence (h : t.Grouped) (hleast : t.AtLeast least) :
    ∀ p ∈ t.inOrder.rest, least ≤ p.1.precedence := by
  induction t generalizing least with
  | operand u => exact fun p hp => absurd hp List.not_mem_nil
  | binary op l r ihl ihr =>
    obtain ⟨hl, hr, hgl, hgr⟩ := h
    have hop : least ≤ op.precedence := hleast
    intro p hp
    rcases List.mem_append.mp hp with hp | hp
    · exact Nat.le_trans hop (ihl hgl hl p hp)
    · rcases List.mem_cons.mp hp with rfl | hp
      · exact hop
      · have := ihr hgr hr p hp
        omega

theorem snoc_of_atLeast {op : BinaryOp} (u : Operand) (h : t.AtLeast op.precedence) :
    t.snoc (op, u) = binary op t (operand u) := by
  cases t with
  | operand v => rfl
  | binary op' l r => exact if_neg (Nat.not_lt_of_le h)

/-- Operators that bind more tightly all go to the right. -/
theorem foldl_snoc_binary {op : BinaryOp} (l : Operation) {ps : List (BinaryOp × Operand)}
    (hps : ∀ p ∈ ps, op.precedence < p.1.precedence) (r : Operation) :
    ps.foldl snoc (binary op l r) = binary op l (ps.foldl snoc r) := by
  induction ps generalizing r with
  | nil => rfl
  | cons p ps ih =>
    obtain ⟨hp, hps⟩ := List.forall_mem_cons.mp hps
    rw [List.foldl_cons, List.foldl_cons, ← ih hps, snoc, if_pos hp]

/-- A grouped tree is what its chain is grouped to. -/
theorem Grouped.group_inOrder (h : t.Grouped) : group t.inOrder = t := by
  induction t with
  | operand u => rfl
  | binary op l r ihl ihr =>
    obtain ⟨hl, hr, hgl, hgr⟩ := h
    calc group (binary op l r).inOrder
      _ = r.inOrder.rest.foldl Operation.snoc ((group l.inOrder).snoc (op, r.inOrder.first)) := by
          rw [group, inOrder, List.foldl_append]
          rfl
      _ = r.inOrder.rest.foldl Operation.snoc (binary op l (operand r.inOrder.first)) := by
          rw [ihl hgl, snoc_of_atLeast _ hl]
      _ = binary op l (group r.inOrder) := foldl_snoc_binary l (hgr.le_precedence hr) _
      _ = binary op l r := by rw [ihr hgr]

/-- A chain has one tree that is grouped. -/
theorem Grouped.eq_group {c : Chain} (h : t.Grouped) (hc : t.inOrder = c) : t = group c := by
  rw [← hc, h.group_inOrder]

/-- `a - b * c - d` -/
example (a b c d : Operand) :
    group ⟨a, [(.sub, b), (.mul, c), (.sub, d)]⟩ =
      binary .sub (binary .sub (operand a) (binary .mul (operand b) (operand c))) (operand d) :=
  rfl

-- ================================================================ parts

theorem operands_binary (op : BinaryOp) (l r : Operation) :
    (binary op l r).inOrder.operands = l.inOrder.operands ++ r.inOrder.operands := by
  simp [inOrder, Chain.operands]

theorem slots_binary (op : BinaryOp) (l r : Operation) :
    (binary op l r).inOrder.slots = l.inOrder.slots ++ .kind op.kind :: r.inOrder.slots := by
  simp [inOrder, Chain.slots]

end Operation

-- ============================================================== operands

/-- Nothing that is attached to a name or a literal. -/
structure Loose (t : Token) : Prop where
  dot : t.kind ≠ .dot
  lBrack : t.kind ≠ .lBrack
  lParen : t.kind ≠ .lParen
  lBrace : t.kind ≠ .lBrace

/-- And no operator that has at least the given precedence. -/
structure Below (least : Nat) (t : Token) : Prop extends Loose t where
  lt : ∀ op, BinaryOp.ofKind t.kind = some op → op.precedence < least

theorem Loose.detached {h : Bool} {x : Expr} {t : Token} (ht : Loose t) : Detached h x t :=
  ⟨ht.dot, ht.lBrack, ht.lParen, fun hk => absurd hk ht.lBrace⟩

theorem Below.of_eof {least : Nat} {tok : Token} (htok : tok.kind = .eof) : Below least tok := by
  refine ⟨⟨?_, ?_, ?_, ?_⟩, ?_⟩
  all_goals
    rw [htok]
    first | decide | exact nofun

/-- What may follow a tree that becomes a left operand. -/
structure MayFollow (t : Operation) (tok : Token) : Prop extends Loose tok where
  atLeast : ∀ op, BinaryOp.ofKind tok.kind = some op → t.AtLeast op.precedence

theorem Operation.AtLeast.mono {t : Operation} {least least' : Nat} (h : t.AtLeast least)
    (hle : least' ≤ least) : t.AtLeast least' := by
  cases t with
  | operand u => trivial
  | binary op l r => exact Nat.le_trans hle h

theorem Below.mayFollow {t : Operation} {least : Nat} {tok : Token} (htok : Below least tok)
    (ht : t.AtLeast least) : MayFollow t tok :=
  ⟨htok.toLoose, fun op hop => ht.mono (Nat.le_of_lt (htok.lt op hop))⟩

/-- An operator follows what does not bind less tightly. -/
theorem MayFollow.of_kind {op : BinaryOp} {t : Operation} {tok : Token} (htok : tok.kind = op.kind)
    (ht : t.AtLeast op.precedence) : MayFollow t tok := by
  refine ⟨⟨?_, ?_, ?_, ?_⟩, fun op' hop => ?_⟩
  iterate 4
    rw [htok]
    cases op <;> decide
  rw [htok, op.ofKind_kind] at hop
  rwa [← Option.some.inj hop]

theorem MayFollow.below {op : BinaryOp} {l r : Operation} {tok : Token}
    (htok : MayFollow (.binary op l r) tok) : Below (op.precedence + 1) tok :=
  ⟨htok.toLoose, fun op' hop => Nat.lt_succ_of_le (htok.atLeast op' hop)⟩

namespace Grammar

variable {parse : SubParser} {h : Bool} {F : Token → Prop}

theorem operand_atom (a : Atom) : (operand parse).Rereads h [a.slot] F (SameExpr a.expr) := by
  cases a with
  | name text => exact operand_ident (n := ⟨text, .nowhere⟩)
  | literal value =>
    let lit : Lit := ⟨0, .nowhere, value⟩
    show (operand parse).Rereads h [.literal lit.form] F (SameExpr ⟨0, .nowhere, .literal lit⟩)
    exact operand_literal

theorem leads_atom {a : Atom} {t : Token} (ht : Leads [a.slot] F t) :
    UnaryOp.ofKind t.kind = none ∧ t.kind ≠ .kwChan := by
  cases a with
  | name text =>
    rw [show t.kind = .ident from ht.2.1]
    exact ⟨rfl, by decide⟩
  | literal value =>
    have hkind := Rereads.isKind_of_decode ht.2
    cases hk : t.kind <;> rw [hk] at hkind <;> first | exact ⟨rfl, by decide⟩ | exact nomatch hkind

/-- An atom is three productions deep, and each operator is one more. -/
theorem unaryExpr_operand (u : Operand) {depth : Nat} (hdepth : u.ops.length + 3 ≤ depth) :
    (Grammar.parse depth .unaryExpr).Rereads h u.slots Loose (SameExpr u.expr) := by
  obtain ⟨ops, a⟩ := u
  induction ops generalizing depth with
  | nil =>
    obtain ⟨depth, rfl⟩ : ∃ n, depth = n + 3 := ⟨depth - 3, by simp at hdepth; omega⟩
    have hoperand : (Grammar.parse (depth + 1) .operand).Rereads h [a.slot] Loose
        (SameExpr a.expr) := .production (operand_atom a)
    have hprimary : (Grammar.parse (depth + 2) .primaryExpr).Rereads h [a.slot] Loose
        (SameExpr a.expr) :=
      .production (primaryExpr_rereads hoperand fun _ _ _ ht => ht.detached)
    exact .production (unaryExpr_rereads hprimary fun _ ht => (leads_atom ht).1)
  | cons op ops ih =>
    obtain ⟨depth, rfl⟩ : ∃ n, depth = n + 1 := ⟨depth - 1, by simp at hdepth; omega⟩
    refine .production (unaryExpr_unary (fun t ht => ?_) (ih (by simpa using hdepth)))
    cases ops with
    | nil => exact (leads_atom ht).2
    | cons op' ops =>
      rw [show t.kind = op'.kind from ht.2]
      cases op' <;> decide

-- ============================================================= climbing

variable {least n : Nat} {t : Operation} {right : Nat → Parser Expr}

/-- The parser reads what a tree on the left reads, and goes on with the
tree as its left operand. -/
theorem climb_left
    (hunary : ∀ u : Operand, u.ops.length ≤ n →
      (parse .unaryExpr).Rereads h u.slots Loose (SameExpr u.expr))
    (hright : ∀ least' (r : Operation), least < least' → r.Grouped → r.AtLeast least' →
      (∀ u ∈ r.inOrder.operands, u.ops.length ≤ n) →
      (right least').Rereads h r.inOrder.slots (Below least') (SameExpr r.expr))
    (hgrouped : t.Grouped) (hleast : t.AtLeast least)
    (hrun : ∀ u ∈ t.inOrder.operands, u.ops.length ≤ n) {us : List Slot} {R : Expr → Prop}
    (link : ∀ tok, Leads us F tok → MayFollow t tok)
    (hloops : ∀ y, SameExpr t.expr y → Rereads.Loops (nextOperator right least) y h us F R) :
    (parse .unaryExpr >>= repeating (nextOperator right least)).Rereads h
      (t.inOrder.slots ++ us) F R := by
  induction t generalizing us with
  | operand u =>
    have hslots : (Operation.operand u).inOrder.slots = u.slots := List.append_nil _
    rw [hslots]
    exact .bind (hunary u (hrun u List.mem_cons_self)) (fun tok ht => (link tok ht).toLoose)
      fun y hy => .repeating (hloops y hy)
  | binary op l r ihl ihr =>
    obtain ⟨hl, hr, hgl, hgr⟩ := hgrouped
    rw [Operation.operands_binary, List.forall_mem_append] at hrun
    rw [Operation.slots_binary, List.append_assoc]
    refine ihl hgl (hl.mono hleast) hrun.1 (fun tok ht => .of_kind ht.2 hl) fun y hy => ?_
    have hturn : (nextOperator right least y).Rereads h (.kind op.kind :: r.inOrder.slots)
        (Below (op.precedence + 1)) (Rereads.GoesOn (SameExpr (Operation.binary op l r).expr)) :=
      nextOperator_rereads hleast hy (hright _ r (Nat.lt_succ_of_le hleast) hgr hr hrun.2)
    exact .again hturn (List.cons_ne_nil _ _) (fun tok ht => (link tok ht).below) hloops

/-- Climbing reads a grouped tree, with nothing behind it that the level
would take. -/
theorem binaryExpr_grouped
    (hunary : ∀ u : Operand, u.ops.length ≤ n →
      (parse .unaryExpr).Rereads h u.slots Loose (SameExpr u.expr))
    (levels : Nat) (hlevels : BinaryOp.levels < levels + least) (hgrouped : t.Grouped)
    (hleast : t.AtLeast least) (hrun : ∀ u ∈ t.inOrder.operands, u.ops.length ≤ n) :
    (binaryExpr parse levels least).Rereads h t.inOrder.slots (Below least) (SameExpr t.expr) := by
  induction levels generalizing least t with
  | zero =>
    cases t with
    | operand u =>
      have hslots : (Operation.operand u).inOrder.slots = u.slots := List.append_nil _
      rw [hslots]
      exact (hunary u (hrun u List.mem_cons_self)).before fun _ ht => ht.toLoose
    | binary op l r =>
      have hop : least ≤ op.precedence := hleast
      have hle := op.precedence_le
      omega
  | succ levels ih =>
    rw [← List.append_nil t.inOrder.slots]
    refine climb_left hunary (fun least' r hlt => ih (by omega)) hgrouped hleast hrun
      (fun tok ht => ht.mayFollow hleast) fun y hy => ?_
    exact .stop (nextOperator_stops (fun tok ht => ht.lt) hy)

end Grammar

-- =============================================================== parsing

/-- No run is longer than the longest. -/
theorem Chain.le_longestRun {c : Chain} {u : Operand} (hu : u ∈ c.operands) :
    u.ops.length ≤ c.longestRun :=
  List.le_max_of_le' 0 (List.mem_map_of_mem hu) (Nat.le_refl _)

/-- All operators have at least the lowest precedence. -/
theorem Operation.atLeast_one (t : Operation) : t.AtLeast 1 := by
  cases t with
  | operand u => trivial
  | binary op l r =>
    show 1 ≤ op.precedence
    cases op <;> decide

/-- Any tokens that fit a chain are parsed into a grouped tree that reads
the chain from left to right, and there is no other such tree. Each run of
unary operators stays with the atom behind it. Four productions more than
the longest of the runs has operators need to be active at once. -/
theorem parseTokens_operators (c : Chain) {tokens : List Token} {maxDepth : Nat} (arena : Arena)
    (htokens : List.Forall₂ Slot.Accepts c.slots tokens) (hdepth : 4 + c.longestRun ≤ maxDepth) :
    ∃ (t : Operation) (y : Expr), t.inOrder = c ∧ t.Grouped ∧
      (∀ t' : Operation, t'.inOrder = c → t'.Grouped → t' = t) ∧
      (parseTokens tokens .expression maxDepth arena).1 = .ok (.expr y) ∧
      Bare.expr y = Bare.expr t.expr := by
  obtain ⟨depth, rfl⟩ : ∃ n, maxDepth = n + 1 := ⟨maxDepth - 1, by omega⟩
  let t := Operation.group c
  have hc : t.inOrder = c := Operation.inOrder_group c
  have hgrouped : t.Grouped := Operation.grouped_group c
  have hrun : ∀ u ∈ t.inOrder.operands, u.ops.length ≤ c.longestRun := by
    rw [hc]
    exact fun u => Chain.le_longestRun
  have hread : (Grammar.parse (depth + 1) .expression).Rereads false c.slots (·.kind = .eof)
      (SameExpr t.expr) := by
    rw [← hc]
    refine .production (.before (Grammar.binaryExpr_grouped (n := c.longestRun)
      (fun u hu => Grammar.unaryExpr_operand u (by omega)) _ (by decide) hgrouped t.atLeast_one
      hrun) fun tok ht => .of_eof ht)
  obtain ⟨y, s, hy, heof, hsame⟩ := hread.tokens arena htokens
  exact ⟨t, y, hc, hgrouped, fun t' ht' hgrouped' => hgrouped'.eq_group ht',
    parseStream_of_ok (Entry.expression_of_eof hy heof), hsame⟩

/-- The tokens of `-a - &b * 1 - c`, under the least limit that will do. -/
theorem parseTokens_operators_differences :
    let c : Chain := ⟨⟨[.negate], .name "a"⟩, [(.sub, ⟨[.address], .name "b"⟩),
      (.mul, ⟨[], .literal (.integer 1)⟩), (.sub, ⟨[], .name "c"⟩)]⟩
    let tokens : List Token := [⟨.minus, "-", .nowhere⟩, ⟨.ident, "a", .nowhere⟩,
      ⟨.minus, "-", .nowhere⟩, ⟨.amp, "&", .nowhere⟩, ⟨.ident, "b", .nowhere⟩,
      ⟨.star, "*", .nowhere⟩, ⟨.intLit, "1", .nowhere⟩, ⟨.minus, "-", .nowhere⟩,
      ⟨.ident, "c", .nowhere⟩]
    List.Forall₂ Slot.Accepts c.slots tokens ∧ 4 + c.longestRun ≤ 5 ∧
      ∃ (t : Operation) (y : Expr), t.inOrder = c ∧ t.Grouped ∧
        (∀ t' : Operation, t'.inOrder = c → t'.Grouped → t' = t) ∧
        (parseTokens tokens .expression 5 .empty).1 = .ok (.expr y) ∧
        Bare.expr y = Bare.expr t.expr := by
  intro c tokens
  have hslot : ∀ {k : Token.Kind} {text : String}, k ≠ .eof →
      Slot.Accepts (.kind k) ⟨k, text, .nowhere⟩ := fun hk => ⟨hk, rfl⟩
  have hname : ∀ text : String, Slot.Accepts (.name text) ⟨.ident, text, .nowhere⟩ :=
    fun _ => ⟨nofun, rfl, rfl⟩
  have hvalue : Literal.decode .intLit "1" = some (.integer 1) := by decide +kernel
  have hone : Slot.Accepts (.literal (.integer 1)) ⟨.intLit, "1", .nowhere⟩ := ⟨nofun, hvalue⟩
  have htokens : List.Forall₂ Slot.Accepts c.slots tokens :=
    .cons (hslot (by decide)) <| .cons (hname _) <| .cons (hslot (by decide)) <|
    .cons (hslot (by decide)) <| .cons (hname _) <| .cons (hslot (by decide)) <|
    .cons hone <| .cons (hslot (by decide)) <| .cons (hname _) .nil
  exact ⟨htokens, by decide, parseTokens_operators c .empty htokens (by decide)⟩

end GoSource
