/-
Where nodes come from.

A tree keeps neither parentheses nor the mode in which something was read.
`Visit.ReadFrom m ts v` says that the node `v` was read from the tokens
`ts` in the mode `m`, with the derivation of the node itself: what a node
is made of can then be compared with what is written there.

# Names that were expressions

A label and what is declared by `:=` are read as expressions first. Of an
expression that has turned out to be an identifier the tokens are known up
to parentheses (`Wrapped`).
-/
import Mathlib.Data.List.Induction
import GoSource.Proofs.Contents.Placement

namespace GoSource

-- ================================================================ names

/-- An identifier in any number of parentheses. -/
inductive Wrapped : List Token → Ident → Prop where
  | bare : t.kind = .ident → Wrapped [t] ⟨t.text, t.span⟩
  | parens : l.kind = .lParen → Wrapped ts n → r.kind = .rParen → Wrapped (l :: (ts ++ [r])) n

/-- Such identifiers with commas between them. -/
inductive NameRow : List Token → List Ident → Prop where
  | one : Wrapped ts n → NameRow ts [n]
  | more : NameRow ts names → c.kind = .comma → Wrapped us n →
      NameRow (ts ++ c :: us) (names ++ [n])

/-- The tokens of an expression that is an identifier. -/
def Phrase.Wraps : (p : Phrase) → List Token → p.Result → Prop
  | .expr _, ts, x => ∀ n, x.form = .ident n → Wrapped ts n
  | .name, ts, n => Wrapped ts n
  | _, _, _ => True

theorem Derives.wraps {p : Phrase} {ts : List Token} {a : p.Result} (h : Derives p ts a) :
    p.Wraps ts a := by
  induction h with
  | name ht => exact .bare ht
  | identExpr _ ih =>
    rintro n ⟨⟩
    exact ih
  | parenExpr hl _ hr ih => exact fun n hn => .parens hl (ih n hn) hr
  | literalExpr | typeExpr | selector | typeAssert | typeGuard | index | slice | fullSlice | call
  | composite | unary | binary =>
    rintro n ⟨⟩
  | _ => trivial

section

variable {m : Mode} {ts : List Token}

theorem Derives.wrapped {x : Expr} {n : Ident} (h : Derives (.expr m) ts x)
    (hx : x.form = .ident n) : Wrapped ts n :=
  h.wraps n hx

theorem areNames_append_singleton {xs : List Expr} {x : Expr} {names : List Ident}
    (h : AreNames (xs ++ [x]) names) :
    ∃ front n, names = front ++ [n] ∧ AreNames xs front ∧ x.form = .ident n := by
  unfold AreNames at h
  rw [List.map_append, List.map_singleton] at h
  obtain ⟨front, last, rfl, hfront, hlast⟩ := List.append_eq_map_iff.mp h
  obtain ⟨n, rfl, hn⟩ := List.map_eq_singleton_iff.mp hlast
  exact ⟨front, n, rfl, hfront.symm, hn.symm⟩

/-- Names with a comma after each: none, or a row and one comma more. -/
theorem Derives.nameRow_ended {xs : List Expr} {names : List Ident}
    (h : Derives (.terminated .comma (.expr m)) ts xs) (hnames : AreNames xs names) :
    ts = [] ∧ names = [] ∨ ∃ us c, ts = us ++ [c] ∧ c.kind = .comma ∧ NameRow us names := by
  induction xs using List.reverseRecOn generalizing ts names with
  | nil =>
    obtain ⟨rfl, -⟩ | ⟨_, _, _, _, _, -, hxs, -⟩ := h.terminated_cases
    · exact .inl ⟨rfl, by simpa [AreNames, eq_comm] using hnames⟩
    · simp at hxs
  | append_singleton xs x ih =>
    obtain ⟨-, hxs⟩ | ⟨us, ys, vs, y, c, rfl, hxs, hys, hy, hc, -⟩ := h.terminated_cases
    · simp at hxs
    obtain ⟨rfl, hlast⟩ := List.append_inj' hxs rfl
    obtain rfl : x = y := by simpa using hlast
    obtain ⟨front, n, rfl, hfront, hn⟩ := areNames_append_singleton hnames
    refine .inr ?_
    obtain ⟨rfl, rfl⟩ | ⟨us, d, rfl, hd, hrow⟩ := ih hys hfront
    · exact ⟨vs, c, rfl, hc, .one (hy.wrapped hn)⟩
    · exact ⟨us ++ d :: vs, c, by simp, hc, .more hrow hd (hy.wrapped hn)⟩

theorem Derives.nameRow {xs : List Expr} {names : List Ident} (h : Derives (.exprs m) ts xs)
    (hnames : AreNames xs names) : NameRow ts names := by
  obtain ⟨us, ys, vs, y, rfl, rfl, hys, hy⟩ := h.separated_cases
  obtain ⟨front, n, rfl, hfront, hn⟩ := areNames_append_singleton hnames
  obtain ⟨rfl, rfl⟩ | ⟨us, c, rfl, hc, hrow⟩ := hys.nameRow_ended hfront
  · exact .one (hy.wrapped hn)
  · rw [List.append_assoc]
    exact .more hrow hc (hy.wrapped hn)

/-- Where no parenthesis stands, an identifier is one token. -/
theorem Wrapped.eq_singleton {n : Ident} (h : Wrapped ts n) (hts : ∀ t ∈ ts, t.kind ≠ .lParen) :
    ∃ t, ts = [t] ∧ t.kind = .ident ∧ n = ⟨t.text, t.span⟩ := by
  cases h with
  | bare ht => exact ⟨_, rfl, ht, rfl⟩
  | parens hl => exact absurd hl (hts _ (by simp))

end

-- =============================================================== nodes

/-- The node was read from the tokens. A specification may have had a
keyword in front of it, and the type of a composite literal was read as
the operand that names it. -/
inductive Visit.ReadFrom : Mode → List Token → Visit → Prop where
  | file : Derives .file ts f → ReadFrom m ts (.file f)
  | spec : Derives (.spec k m) us form → ReadFrom m ts (.decl ⟨i, sp, form⟩)
  | function : Derives .function ts d → ReadFrom m ts (.decl d)
  | imports : Derives .importDecl ts d → ReadFrom m ts (.decl d)
  | stmt : Derives (.stmt m) ts s → ReadFrom m ts (.stmt s)
  | simple : Derives (.simple sm m) ts ⟨form, sp⟩ → ReadFrom m ts (.stmt ⟨i, sp, form⟩)
  | block : Derives .block ts b → ReadFrom m ts (.stmt ⟨i, b.span, .block b⟩)
  | nothing : ReadFrom m ts (.stmt ⟨i, sp, .empty⟩)
  | expr : Derives (.expr m) ts x → ReadFrom m ts (.expr x)
  | elided : Derives .part ts ⟨i, sp, .composite none elements l r⟩ →
      ReadFrom m ts (.expr ⟨i, sp, .composite none elements l r⟩)
  | type : Derives .type ts t → ReadFrom m ts (.type t)
  | embedded : Derives .embedded ts t → ReadFrom m ts (.type t)
  | named : Derives (.expr m) ts x → NamesType x t → ReadFrom m ts (.type t)
  | field : Derives .field ts f → ReadFrom m ts (.field f)
  | param : Derives (.param named) ts p → ReadFrom m ts (.param p)
  | literal : ReadFrom m ts (.literal lit)

end GoSource
