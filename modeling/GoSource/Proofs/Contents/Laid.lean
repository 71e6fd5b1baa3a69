/-
Brackets, braces and modes in a tree.

`Laid m e ts vs` says that the tokens `ts`, read in the mode `m`, hold the
nodes `vs`, and shows where the brackets are: whatever is in brackets was
read in the mode for the inside, a header in the mode for headers, and the
rest in the mode of its surroundings. Like `Holds` it forgets which phrase
was read, so that what is said of brackets and modes has to be shown for a
few rules only. That everything derivable is laid out in this way is shown
apart from this (`Derives.lies`).

# Braces

A brace may follow a name in three places: behind the type of a composite
literal, behind the header of an `if` or `for`, and behind the signature
of a function. There the brace belongs to the node (`braced`). Elsewhere
no brace may follow a name, which is what the edge of a stretch of tokens
is about: at a `firm` edge anything may follow, at a `typed` one the last
token may be a name that belongs to a type, and at a `loose` one it may
also be an operand.
-/
import GoSource.Proofs.Contents.Origin
import GoSource.Proofs.Contents.Shape

namespace GoSource

-- ============================================================= brackets

namespace Token.Kind

def isBracket : Kind → Bool
  | lParen | rParen | lBrack | rBrack | lBrace | rBrace => true
  | _ => false

/-- Neither a bracket nor a name. -/
def isPlain : Kind → Bool
  | ident => false
  | k => !k.isBracket

theorem ne_ident_of_isPlain {k : Kind} (h : k.isPlain = true) : k ≠ ident := by
  rintro rfl
  exact Bool.false_ne_true h

theorem isBracket_of_isPlain {k : Kind} (h : k.isPlain = true) : k.isBracket = false := by
  cases k <;> first | rfl | cases h

theorem ne_lBrace_of_isPlain {k : Kind} (h : k.isPlain = true) : k ≠ lBrace := by
  rintro rfl
  exact Bool.false_ne_true h

/-- An opening bracket and the one that closes it. -/
inductive Matches : Kind → Kind → Prop where
  | parens : Matches lParen rParen
  | brackets : Matches lBrack rBrack
  | braces : Matches lBrace rBrace

end Token.Kind

/-- What a brace may not follow. -/
inductive Edge where
  | firm
  | typed
  | loose
deriving DecidableEq

namespace Edge

def rank : Edge → Nat
  | firm => 0
  | typed => 1
  | loose => 2

instance : LE Edge := ⟨fun e f => e.rank ≤ f.rank⟩

instance (e f : Edge) : Decidable (e ≤ f) := inferInstanceAs (Decidable (e.rank ≤ f.rank))

theorem le_refl (e : Edge) : e ≤ e := Nat.le_refl _

theorem le_trans {e f g : Edge} (h : e ≤ f) (h' : f ≤ g) : e ≤ g := Nat.le_trans h h'

theorem firm_le (e : Edge) : firm ≤ e := Nat.zero_le _

theorem le_loose (e : Edge) : e ≤ loose := by cases e <;> decide

theorem eq_firm {e : Edge} (h : e ≤ firm) : e = firm := by
  cases e with
  | firm => rfl
  | typed | loose => exact absurd h (by decide)

theorem eq_loose {e : Edge} (h : loose ≤ e) : e = loose := by
  cases e with
  | loose => rfl
  | firm | typed => exact absurd h (by decide)

/-- Tokens with the edge `e` may stand before others that have the edge
`f`. -/
def Before (e f : Edge) : List Token → Prop
  | [] => e ≤ f
  | t :: _ => t.kind = .lBrace → e = firm

end Edge

-- ================================================================ nodes

/-- The nodes among some parts. -/
def Part.nodes (ps : List Part) : List Visit := ps.filterMap node?

namespace Part

variable {ps qs : List Part}

@[simp] theorem nodes_nil : nodes [] = [] := rfl

@[simp] theorem nodes_node (v : Visit) : nodes (.node v :: ps) = v :: nodes ps := rfl

@[simp] theorem nodes_name (n : Ident) : nodes (.name n :: ps) = nodes ps := rfl

@[simp] theorem nodes_path (text : String) (sp : Span) : nodes (.path text sp :: ps) = nodes ps :=
  rfl

@[simp] theorem nodes_mark (sp : Span) : nodes (.mark sp :: ps) = nodes ps := rfl

@[simp] theorem nodes_append : nodes (ps ++ qs) = nodes ps ++ nodes qs :=
  List.filterMap_append

@[simp] theorem nodes_flatMap {α : Type} {f : α → List Part} {xs : List α} :
    nodes (xs.flatMap f) = xs.flatMap fun x => nodes (f x) := by
  induction xs with
  | nil => rfl
  | cons x xs ih => rw [List.flatMap_cons, nodes_append, ih, List.flatMap_cons]

@[simp] theorem nodes_names (ns : List Ident) : nodes (ns.map .name) = [] := by
  induction ns with
  | nil => rfl
  | cons n ns ih => simpa using ih

@[simp] theorem nodes_marks (sps : List Span) : nodes (sps.map .mark) = [] := by
  induction sps with
  | nil => rfl
  | cons sp sps ih => simpa using ih

theorem nodes_map {α : Type} (f : α → Visit) (xs : List α) :
    nodes (xs.map fun x => .node (f x)) = xs.map f := by
  induction xs with
  | nil => rfl
  | cons x xs ih => simp [ih]

@[simp] theorem nodes_exprs (xs : List Expr) : nodes (xs.map .expr) = xs.map .expr := nodes_map _ xs

@[simp] theorem nodes_types (ts : List TypeExpr) : nodes (ts.map .type) = ts.map .type :=
  nodes_map _ ts

@[simp] theorem nodes_stmts (ss : List Stmt) : nodes (ss.map .stmt) = ss.map .stmt := nodes_map _ ss

@[simp] theorem nodes_decls (ds : List Decl) : nodes (ds.map .decl) = ds.map .decl := nodes_map _ ds

@[simp] theorem nodes_fields (fs : List Field) : nodes (fs.map .field) = fs.map .field :=
  nodes_map _ fs

@[simp] theorem nodes_params (ps : List Param) : nodes (ps.map .param) = ps.map .param :=
  nodes_map _ ps

@[simp] theorem nodes_literals (ls : List Lit) : nodes (ls.map .literal) = ls.map .literal :=
  nodes_map _ ls

end Part

theorem Visit.children_eq_nodes (v : Visit) : v.children = Part.nodes v.parts := rfl

/-- An operand that is a name, qualified or not. -/
def ExprForm.operandName? : ExprForm → Option Ident
  | ident n => some n
  | selector ⟨_, _, .ident _⟩ n => some n
  | _ => none

namespace Visit

/-- Statements that have a header. -/
def isHeaded : Visit → Bool
  | stmt ⟨_, _, .ifStmt _ _ _ _⟩ | stmt ⟨_, _, .forStmt _ _⟩ => true
  | _ => false

/-- Composite literals whose type is a name, qualified or not. -/
def isNamedLiteral : Visit → Bool
  | expr ⟨_, _, .composite (some ⟨_, _, .name _ _⟩) _ _ _⟩ => true
  | _ => false

def isExpr : Visit → Bool
  | expr _ => true
  | _ => false

/-- Where the brace of a node is that may follow a name: that of a
composite literal with a type, or that of the body of an `if`, a `for` or
a function. -/
def brace? : Visit → Option Location
  | expr ⟨_, _, .composite (some _) _ lBrace _⟩ => some lBrace.start
  | stmt ⟨_, _, .ifStmt _ _ body _⟩ | stmt ⟨_, _, .forStmt _ body⟩ => some body.span.start
  | decl ⟨_, _, .func f⟩ => f.body.map (·.span.start)
  | decl ⟨_, _, .method f⟩ => f.body.map (·.span.start)
  | _ => none

theorem brace_of_headed {v : Visit} (h : v.isHeaded = true) : ∃ l, v.brace? = some l := by
  unfold isHeaded at h
  split at h
  · exact ⟨_, rfl⟩
  · exact ⟨_, rfl⟩
  · exact nomatch h

theorem brace_of_literal {v : Visit} (h : v.isNamedLiteral = true) : ∃ l, v.brace? = some l := by
  unfold isNamedLiteral at h
  split at h
  · exact ⟨_, rfl⟩
  · exact nomatch h

theorem not_headed_of_literal {v : Visit} (h : v.isNamedLiteral = true) :
    ¬ v.isHeaded = true := by
  unfold isNamedLiteral at h
  split at h
  · exact nofun
  · exact nomatch h

/-- What stands before this brace; in a statement this is the header. -/
def lead : Visit → List Part
  | expr ⟨_, _, .composite t _ _ _⟩ => t.toList.map .type
  | stmt ⟨_, _, .ifStmt init x _ _⟩ => init.toList.map .stmt ++ [.expr x]
  | stmt ⟨_, _, .forStmt header _⟩ => header.parts
  | decl ⟨_, _, .func f⟩ => f.signature.parts
  | decl ⟨_, _, .method f⟩ => f.receiver.parts ++ f.signature.parts
  | _ => []

/-- What stands between this brace and the one that closes it. -/
def inner : Visit → List Part
  | expr ⟨_, _, .composite _ elements _ _⟩ => elements.flatMap Element.parts
  | stmt ⟨_, _, .ifStmt _ _ body _⟩ | stmt ⟨_, _, .forStmt _ body⟩ => body.parts
  | decl ⟨_, _, .func f⟩ => f.body.toList.flatMap Block.parts
  | decl ⟨_, _, .method f⟩ => f.body.toList.flatMap Block.parts
  | _ => []

/-- What stands after the braces. -/
def rest : Visit → List Part
  | stmt ⟨_, _, .ifStmt _ _ _ other⟩ => other.toList.map .stmt
  | _ => []

/-- A node with such a brace consists of the three. -/
theorem children_of_brace {v : Visit} {l : Location} (h : v.brace? = some l) :
    v.children = Part.nodes v.lead ++ (Part.nodes v.inner ++ Part.nodes v.rest) := by
  rw [children_eq_nodes, ← Part.nodes_append, ← Part.nodes_append]
  unfold brace? at h
  split at h
  · simp [lead, inner, rest, parts, ExprForm.parts]
  · simp [lead, inner, rest, parts, StmtForm.parts]
  · simp [lead, inner, rest, parts, StmtForm.parts]
  · simp [lead, inner, rest, parts, DeclForm.parts]
  · simp [lead, inner, rest, parts, DeclForm.parts]
  · cases h

/-- The mode in which a node that is met in the mode `m` is read up to its
brace. -/
def leadMode (v : Visit) (m : Mode) : Mode := if v.isHeaded then m.header else m

def leadEdge (v : Visit) : Edge := if v.isHeaded then .loose else .typed

end Visit

-- ================================================================ rules

/-- The tokens, read in the mode, hold the nodes, and end in the edge. -/
inductive Laid : Mode → Edge → List Token → List Visit → Prop where
  | nil : Laid m e [] []
  | token : t.kind.isBracket = false → (t.kind = .ident → e ≠ .firm) → Laid m e [t] []
  | append : Laid m e ts vs → Laid m f us ws → e.Before f us → Laid m f (ts ++ us) (vs ++ ws)
  | brackets {l r : Token} {ts : List Token} : l.kind.Matches r.kind → Laid .inside f ts vs →
      Laid m e (l :: (ts ++ [r])) vs
  | node : Laid m e ts v.children → v.ReadFrom m ts → v.brace? = none →
      (∀ x n, v = .expr x → x.form.operandName? = some n → e = .loose) → Laid m e ts [v]
  | braced {v : Visit} {l r : Token} {hs bs es : List Token} :
      v.brace? = some l.span.start → l.kind = .lBrace → r.kind = .rBrace →
      Laid (v.leadMode m) v.leadEdge hs (Part.nodes v.lead) →
      Laid .inside f bs (Part.nodes v.inner) → Laid m e es (Part.nodes v.rest) →
      v.ReadFrom m (hs ++ l :: (bs ++ r :: es)) →
      (v.isNamedLiteral = true → m.inHeader = false) →
      (v.isHeaded = true → v.span.start = (extent hs).start ∧ hs ≠ []) →
      Laid m e (hs ++ l :: (bs ++ r :: es)) [v]

namespace Laid

variable {m : Mode} {e f : Edge} {ts us : List Token} {vs ws : List Visit} {t l r : Token}
  {k : Token.Kind}

/-- A firm edge is as good as any other. -/
theorem mono (h : Laid m e ts vs) (hef : e ≤ f) : Laid m f ts vs := by
  induction h generalizing f with
  | nil => exact .nil
  | token hk hident =>
    refine .token hk fun hk hf => hident hk ?_
    subst hf
    exact Edge.eq_firm hef
  | @append m e ts vs e' us ws h _ hbefore ih ih' =>
    cases us with
    | nil => exact .append h (ih' hef) (Edge.le_trans hbefore hef)
    | cons t us => exact .append h (ih' hef) hbefore
  | brackets hlr h => exact .brackets hlr h
  | node _ hread hbrace hname ih =>
    refine .node (ih hef) hread hbrace fun x n hv hx => ?_
    obtain rfl := hname x n hv hx
    exact Edge.eq_loose hef
  | braced hbrace hl hr hlead hinner _ hread hliteral hheaded _ _ ih =>
    exact .braced hbrace hl hr hlead hinner (ih hef) hread hliteral hheaded

theorem loosen (h : Laid m e ts vs) : Laid m .loose ts vs := h.mono (Edge.le_loose e)

/-- A plain token in front. -/
theorem cons (ht : t.kind = k) (hk : k.isPlain = true) (h : Laid m e us ws) :
    Laid m e (t :: us) ws := by
  have hident := Token.Kind.ne_ident_of_isPlain hk
  have hbracket := Token.Kind.isBracket_of_isPlain hk
  refine append (e := .firm) (.token (ht ▸ hbracket) fun h => absurd (ht ▸ h) hident) h ?_
  cases us with
  | nil => exact Edge.firm_le e
  | cons u us => exact fun _ => rfl

/-- Something more that does not start with a brace. -/
theorem andThen (h : Laid m e ts vs) (ht : t.kind = k) (hk : k ≠ .lBrace)
    (h' : Laid m f (t :: us) ws) : Laid m f (ts ++ t :: us) (vs ++ ws) :=
  append h h' fun hbrace => absurd (ht ▸ hbrace) hk

/-- Something more after a plain token. -/
theorem separated (h : Laid m e ts vs) (ht : t.kind = k) (hk : k.isPlain = true)
    (h' : Laid m f us ws) : Laid m f (ts ++ t :: us) (vs ++ ws) :=
  h.andThen ht (Token.Kind.ne_lBrace_of_isPlain hk) (.cons ht hk h')

/-- Something more after a firm edge. -/
theorem after (h : Laid m .firm ts vs) (h' : Laid m f us ws) : Laid m f (ts ++ us) (vs ++ ws) := by
  refine append h h' ?_
  cases us with
  | nil => exact Edge.firm_le f
  | cons u us => exact fun _ => rfl

/-- Something more that does not start with a brace, if there is more. -/
theorem join (h : Laid m e ts vs) (hef : e ≤ f) (hus : ∀ u ∈ us.head?, u.kind ≠ .lBrace)
    (h' : Laid m f us ws) : Laid m f (ts ++ us) (vs ++ ws) := by
  refine append h h' ?_
  cases us with
  | nil => exact hef
  | cons u us => exact fun hbrace => absurd hbrace (hus u rfl)

theorem single (ht : t.kind = k) (hk : k.isPlain = true) : Laid m e [t] [] := cons ht hk .nil

theorem parens (hl : l.kind = .lParen) (h : Laid .inside f ts vs) (hr : r.kind = .rParen) :
    Laid m e (l :: (ts ++ [r])) vs :=
  brackets (by rw [hl, hr]; exact .parens) h

theorem square (hl : l.kind = .lBrack) (h : Laid .inside f ts vs) (hr : r.kind = .rBrack) :
    Laid m e (l :: (ts ++ [r])) vs :=
  brackets (by rw [hl, hr]; exact .brackets) h

theorem braces (hl : l.kind = .lBrace) (h : Laid .inside f ts vs) (hr : r.kind = .rBrace) :
    Laid m e (l :: (ts ++ [r])) vs :=
  brackets (by rw [hl, hr]; exact .braces) h

theorem possibly {sep : Token.Kind} (h : Possibly sep ts) (hsep : sep.isPlain = true) :
    Laid m e ts [] := by
  obtain rfl | ⟨t, ht, rfl⟩ := h
  · exact nil
  · exact single ht hsep

/-- A node that is no expression. -/
theorem nonExpr {v : Visit} (h : Laid m e ts v.children) (hread : v.ReadFrom m ts)
    (hbrace : v.brace? = none) (hv : v.isExpr = false) : Laid m e ts [v] := by
  refine .node h hread hbrace fun x n hx => ?_
  subst hx
  exact absurd hv Bool.false_ne_true.symm

/-- A name is no node, wherever it was read. -/
theorem wrapped {n : Ident} (h : Wrapped ts n) : Laid m .typed ts [] := by
  induction h generalizing m with
  | bare ht => exact .token (by rw [ht]; rfl) fun _ => by decide
  | parens hl _ hr ih => exact .parens hl (ih (m := .inside)) hr

theorem nameRow {names : List Ident} (h : NameRow ts names) : Laid m .typed ts [] := by
  induction h with
  | one h => exact .wrapped h
  | more _ hc h ih => exact ih.separated hc rfl (.wrapped h)

end Laid

end GoSource
