/-
What stands before `:=` and before the colon of a label.

The left side is read as a list of expressions, and only then looked at:
each must be an identifier. Parentheses have left no trace by then, so
what is written there is an identifier in any number of them
(`parseSource_declared`); where there are none, it is the names that the
statement declares and the commas between them.
-/
import Mathlib.Data.List.Chain
import GoSource.Proofs.Contents.Site

namespace GoSource

/-- Statements that declare names, or a label, by a token behind them. -/
def StmtForm.declares : StmtForm → Bool
  | .shortVar _ _ _ | .range _ true _ | .labeled _ _ => true
  | _ => false

/-- The token behind the names, and the names. -/
inductive StmtForm.Declares : StmtForm → Token → List Ident → Prop where
  | shortVar : d.kind = .define → Declares (.shortVar names d.span values) d names
  | range : d.kind = .define → AreNames left names → Declares (.range left true x) d names
  | labeled : d.kind = .colon → Declares (.labeled label s) d [label]

theorem StmtForm.Declares.kind {form : StmtForm} {d : Token} {names : List Ident}
    (h : form.Declares d names) : d.kind = .define ∨ d.kind = .colon := by
  cases h with
  | shortVar hd | range hd => exact .inl hd
  | labeled hd => exact .inr hd

/-- Every statement that declares something starts with names, as `R`
says, and the token behind them. -/
def Root.Declared (R : List Token → List Ident → Prop) (tokens : List Token) (root : Root) :
    Prop :=
  ∀ s, .stmt s ∈ root.reached → s.form.declares = true →
    ∃ pre ls d rest post names, tokens = pre ++ (ls ++ d :: rest ++ post) ∧
      s.span = extent (ls ++ d :: rest) ∧ s.form.Declares d names ∧ R ls names

-- ================================================================= rows

/-- Names without parentheses. -/
theorem NameRow.names {ts : List Token} {names : List Ident} (h : NameRow ts names)
    (hts : ∀ t ∈ ts, t.kind ≠ .lParen) : Derives .names ts names := by
  induction h with
  | one hn =>
    obtain ⟨t, rfl, ht, rfl⟩ := hn.eq_singleton hts
    exact .separated .terminatedNil (.name ht)
  | more _ hc hn ih =>
    obtain ⟨t, rfl, ht, rfl⟩ := hn.eq_singleton fun t ht => hts t (by simp [ht])
    exact Grammar.separated_snoc (ih fun t ht => hts t (by simp [ht])) hc rfl (.name ht)

theorem nameRow_label {m : Mode} {ts : List Token} {left : List Expr} {label : Ident}
    (h : Derives (.exprs m) ts left) (hlabel : Grammar.asLabel left = some label) :
    NameRow ts [label] := by
  unfold Grammar.asLabel at hlabel
  split at hlabel
  · cases hlabel
    exact h.nameRow rfl
  · exact nomatch hlabel

-- =========================================================== statements

/-- A statement that declares something was read as a simple one. -/
theorem Visit.ReadFrom.declaring {m : Mode} {ts : List Token} {s : Stmt}
    (h : Visit.ReadFrom m ts (.stmt s)) (hs : s.form.declares = true) :
    ∃ sm, Derives (.simple sm m) ts ⟨s.form, s.span⟩ := by
  cases h with
  | stmt h =>
    cases h with
    | simpleStmt h => exact ⟨_, h⟩
    | ifStmt h =>
      cases h with
      | conditional => exact nomatch hs
    | forStmt h =>
      cases h with
      | loop => exact nomatch hs
    | _ => exact nomatch hs
  | simple h => exact ⟨_, h⟩
  | block | nothing => exact nomatch hs

theorem Derives.declared {sm : SimpleMode} {m : Mode} {ts : List Token} {form : StmtForm}
    {sp : Span} (h : Derives (.simple sm m) ts ⟨form, sp⟩) (hs : form.declares = true) :
    ∃ ls d rest names, ts = ls ++ d :: rest ∧ sp = extent ts ∧ form.Declares d names ∧
      NameRow ls names := by
  cases h with
  | shortVar hleft hnames hd =>
    exact ⟨_, _, _, _, rfl, rfl, .shortVar hd, hleft.nameRow hnames⟩
  | defineRange _ hleft hnames hd =>
    exact ⟨_, _, _, _, rfl, rfl, .range hd hnames, hleft.nameRow hnames⟩
  | labeled _ hleft hlabel hc =>
    exact ⟨_, _, _, _, rfl, rfl, .labeled hc, nameRow_label hleft hlabel⟩
  | labeledEmpty _ hleft hlabel hc =>
    exact ⟨_, _, _, _, rfl, rfl, .labeled hc, nameRow_label hleft hlabel⟩
  | _ => exact nomatch hs

/-- What is declared in a source, and the labels, are identifiers in
parentheses or without. -/
theorem parseSource_declared {source : String} {entry : Entry} {maxDepth : Nat} {arena : Arena}
    {root : Root} (h : (parseSource source entry maxDepth arena).1 = .ok root) :
    root.Declared (fun ls names => NameRow ls names ∧
      ((∀ t ∈ ls, t.kind ≠ .lParen) → Derives .names ls names))
      (Token.Stream.ofSource source).tokens := by
  have hlaid := (parseStream_reads (Token.Stream.ofSource_proper source) h).laid
  intro s hs hdeclares
  rw [Root.reached_eq] at hs
  obtain ⟨m, e, pre, us, post, htokens, hsite⟩ := hlaid.site hs
  obtain ⟨sm, hsimple⟩ := hsite.stop.readFrom.declaring hdeclares
  obtain ⟨ls, d, rest, names, rfl, hspan, hd, hrow⟩ := hsimple.declared hdeclares
  exact ⟨pre, ls, d, rest, post, names, htokens, hspan, hd, hrow, hrow.names⟩

/-- A loop, a label and a definition, one of its names in parentheses. -/
theorem parseSource_declared_loop :
    ∃ root, (parseSource "l: for i, (j) := range x \x7b k := j \x7d" .statements 40
        .empty).1 = .ok root ∧
      root.Declared (fun ls names => NameRow ls names ∧
        ((∀ t ∈ ls, t.kind ≠ .lParen) → Derives .names ls names))
        (Token.Stream.ofSource "l: for i, (j) := range x \x7b k := j \x7d").tokens := by
  have hok : (parseSource "l: for i, (j) := range x \x7b k := j \x7d" .statements 40
      .empty).1.toOption.isSome = true := by
    decide +kernel
  cases h : (parseSource "l: for i, (j) := range x \x7b k := j \x7d" .statements 40 .empty).1 with
  | error e =>
    rw [h] at hok
    exact nomatch hok
  | ok root => exact ⟨root, rfl, parseSource_declared h⟩

-- ========================================================= parentheses

/-- Names alone leave a name right before the token behind them. -/
theorem Root.Declared.adjacent {tokens : List Token} {root : Root}
    (h : root.Declared (Derives .names) tokens) {s : Stmt} (hs : .stmt s ∈ root.reached)
    (hdeclares : s.form.declares = true) :
    ∃ as t d bs, tokens = as ++ t :: d :: bs ∧ t.kind = .ident ∧
      (d.kind = .define ∨ d.kind = .colon) := by
  obtain ⟨pre, ls, d, rest, post, names, rfl, -, hd, hnames⟩ := h s hs hdeclares
  obtain ⟨us, _, _, _, rfl, -, -, hn⟩ := hnames.separated_cases
  cases hn with
  | @name t ht =>
    exact ⟨pre ++ us, t, d, rest ++ post, by simp, ht, hd.kind⟩

def Visit.declares : Visit → Bool
  | .stmt s => s.form.declares
  | _ => false

/-- A name in parentheses is declared, and what is written there is not
the name alone. -/
theorem parseSource_declared_parens :
    ∃ root, (parseSource "(x) := 1" .statements 20 .empty).1 = .ok root ∧
      ¬ root.Declared (Derives .names) (Token.Stream.ofSource "(x) := 1").tokens := by
  have hchain : (Token.Stream.ofSource "(x) := 1").tokens.IsChain fun t d =>
      d.kind = .define ∨ d.kind = .colon → t.kind ≠ .ident := by
    decide +kernel
  have hok : ((parseSource "(x) := 1" .statements 20 .empty).1.toOption.any fun root =>
      root.reached.any Visit.declares) = true := by
    decide +kernel
  cases h : (parseSource "(x) := 1" .statements 20 .empty).1 with
  | error e =>
    rw [h] at hok
    exact nomatch hok
  | ok root =>
    rw [h] at hok
    obtain ⟨v, hv, hdeclares⟩ := List.any_eq_true.mp hok
    refine ⟨root, rfl, fun hnames => ?_⟩
    cases v with
    | stmt s =>
      obtain ⟨as, t, d, bs, htokens, ht, hd⟩ := hnames.adjacent hv hdeclares
      exact List.isChain_iff_forall_rel_of_append_cons_cons.mp hchain htokens hd ht
    | _ => exact nomatch hdeclares

end GoSource
