/-
Braces after names.

A name followed by a brace is ambiguous: it may be the type of a composite
literal, or the end of what stands before a block. How this is settled
shows in the finished tree (`Root.Braced`). In a header the brace of a
literal whose type is a name stands within brackets, so that any other
brace opens the body; and an operand that has remained a name has no brace
behind it except at the end of a header.

A token of a source is found by its place, since no two that were written
have the same (`Token.Stream.ofSource_place`).
-/
import Mathlib.Data.List.Chain
import GoSource.Proofs.Contents.Site
import GoSource.Proofs.Lexing.Width

namespace GoSource

-- =========================================================== adjacency

/-- If a name is followed by a brace, the brace is one of those given. -/
def OpensOne (S : Location → Prop) (t c : Token) : Prop :=
  t.kind = .ident → c.kind = .lBrace → S c.span.start

theorem isChain_brackets {S : Location → Prop} {l r : Token} {ts : List Token}
    (hlr : l.kind.Matches r.kind) (h : ts.IsChain (OpensOne S)) :
    (l :: (ts ++ [r])).IsChain (OpensOne S) := by
  rw [← List.singleton_append, List.isChain_append]
  refine ⟨.singleton l, List.isChain_append.mpr ⟨h, .singleton r, ?_⟩, ?_⟩
  · rintro t - c hc - hbrace
    obtain rfl : r = c := by simpa using hc
    exact absurd hbrace hlr.ne_lBrace
  · rintro t ht c - hident
    obtain rfl : l = t := by simpa using ht
    exact absurd hident hlr.ne_ident.1

theorem getLast?_brackets (l r : Token) (ts : List Token) :
    (l :: (ts ++ [r])).getLast? = some r := by
  rw [← List.cons_append, List.getLast?_concat]

-- ============================================================ operands

/-- The identifier with which an operand that is a name ends: what follows
it there are parentheses. -/
def Phrase.EndsNamed : (p : Phrase) → List Token → p.Result → Prop
  | .name, ts, n => ∃ t, ts = [t] ∧ t.kind = .ident ∧ t.span = n.span
  | .expr _, ts, x => ∀ n, x.form.operandName? = some n →
    ∃ before t after, ts = before ++ t :: after ∧ t.kind = .ident ∧ t.span = n.span ∧
      ∀ r ∈ after.head?, r.kind = .rParen
  | _, _, _ => True

theorem Derives.endsNamed {p : Phrase} {ts : List Token} {a : p.Result} (h : Derives p ts a) :
    p.EndsNamed ts a := by
  induction h with
  | name ht => exact ⟨_, rfl, ht, rfl⟩
  | identExpr _ ih =>
    rintro n hn
    obtain ⟨t, rfl, ht, hspan⟩ := ih
    cases hn
    exact ⟨[], t, [], rfl, ht, hspan, by simp⟩
  | @selector m xs x ns n d i _ _ _ _ ih =>
    rintro n' hn
    obtain ⟨t, rfl, ht, hspan⟩ := ih
    obtain rfl : n = n' := by
      unfold ExprForm.operandName? at hn
      split at hn <;> simp_all
    exact ⟨xs ++ [d], t, [], by simp, ht, hspan, by simp⟩
  | @parenExpr ts x m l r _ _ hr ih =>
    rintro n hn
    obtain ⟨before, t, after, rfl, ht, hspan, hafter⟩ := ih n hn
    refine ⟨l :: before, t, after ++ [r], by simp, ht, hspan, ?_⟩
    cases after with
    | nil => simpa using hr
    | cons b bs => simpa using hafter
  | literalExpr | typeExpr | typeAssert | typeGuard | index | slice | fullSlice | call | composite
  | unary | binary =>
    rintro n hn
    exact nomatch hn
  | _ => trivial

namespace Laid

variable {m : Mode} {e : Edge} {ts : List Token} {vs : List Visit}

/-- A brace that follows a name belongs to a node, and a firm edge is no
name. -/
theorem opensOne (h : Laid m e ts vs) {S : Location → Prop}
    (hS : ∀ v ∈ Visit.reached vs, ∀ l, v.brace? = some l → S l) :
    ts.IsChain (OpensOne S) ∧ (e = .firm → ∀ t ∈ ts.getLast?, t.kind ≠ .ident) := by
  induction h with
  | nil => exact ⟨.nil, by simp⟩
  | token _ hident =>
    refine ⟨.singleton _, ?_⟩
    rintro rfl t ht hk
    obtain rfl : _ = t := by simpa using ht
    exact hident hk rfl
  | @append m e ts vs f us ws _ _ hbefore ih ih' =>
    rw [Visit.reached_append] at hS
    have hts := ih fun v hv => hS v (List.mem_append_left _ hv)
    have hus := ih' fun v hv => hS v (List.mem_append_right _ hv)
    refine ⟨List.isChain_append.mpr ⟨hts.1, hus.1, fun t ht c hc hident hbrace => ?_⟩, ?_⟩
    · cases us with
      | nil => simp at hc
      | cons u us =>
        obtain rfl : u = c := by simpa using hc
        exact absurd hident (hts.2 (hbefore hbrace) t ht)
    · rintro rfl t ht
      cases us with
      | nil => exact hts.2 (Edge.eq_firm hbefore) t (by simpa using ht)
      | cons u us => exact hus.2 rfl t (by simpa using ht)
  | brackets hlr _ ih =>
    refine ⟨isChain_brackets hlr (ih hS).1, ?_⟩
    rintro - t ht
    rw [getLast?_brackets] at ht
    cases ht
    exact hlr.ne_ident.2
  | node _ _ _ _ ih =>
    exact ih fun u hu => hS u (Visit.mem_reached_singleton.mpr (.inr hu))
  | @braced m f e v l r hs bs es hbrace hl hr _ _ _ _ _ _ ih ih' ih'' =>
    have hlr := Token.Kind.matches_braces hl hr
    have hself : v ∈ Visit.reached [v] := Visit.mem_reached_singleton.mpr (.inl rfl)
    have hhs := ih fun u hu => hS u (Visit.reached_of_brace hbrace (.inl hu))
    have hbs := ih' fun u hu => hS u (Visit.reached_of_brace hbrace (.inr (.inl hu)))
    have hes := ih'' fun u hu => hS u (Visit.reached_of_brace hbrace (.inr (.inr hu)))
    have heq : hs ++ l :: (bs ++ r :: es) = hs ++ l :: (bs ++ [r]) ++ es := by simp
    have hbraces : (hs ++ l :: (bs ++ [r])).IsChain (OpensOne S) := by
      refine List.isChain_append.mpr ⟨hhs.1, isChain_brackets hlr hbs.1, ?_⟩
      rintro t - c hc - -
      obtain rfl : l = c := by simpa using hc
      exact hS v hself _ hbrace
    have hlast : (hs ++ l :: (bs ++ [r])).getLast? = some r := by
      rw [List.getLast?_append_of_ne_nil _ (by simp), getLast?_brackets]
    rw [heq]
    refine ⟨List.isChain_append.mpr ⟨hbraces, hes.1, ?_⟩, ?_⟩
    · rintro t ht c - hident
      rw [hlast] at ht
      cases ht
      exact absurd hident hlr.ne_ident.2
    · rintro rfl t ht
      cases es with
      | nil =>
        rw [List.append_nil, hlast] at ht
        cases ht
        exact hlr.ne_ident.2
      | cons u us =>
        rw [List.getLast?_append_of_ne_nil _ (by simp)] at ht
        exact hes.2 rfl t ht

/-- The header of a statement, and the literals in it whose type is a
name: brackets within the header enclose the brace of each. -/
theorem header (h : Laid m e ts vs) {v : Visit} (hv : v ∈ Visit.reached vs)
    (hheaded : v.isHeaded = true) :
    ∃ pre hs l post, ts = pre ++ (hs ++ l :: post) ∧ l.kind = .lBrace ∧
      v.brace? = some l.span.start ∧ v.span.start = (extent hs).start ∧
      ∀ w ∈ Visit.reached (Part.nodes v.lead), w.isNamedLiteral = true →
        ∃ before c after, hs = before ++ c :: after ∧ c.kind = .lBrace ∧
          w.brace? = some c.span.start ∧ Bracketed before [c] after := by
  obtain ⟨m', e', pre, us, post, rfl, hsite⟩ := h.site hv
  obtain ⟨start, hbrace⟩ := Visit.brace_of_headed hheaded
  obtain ⟨hs, l, rest, rfl, hl, rfl, hlead, -, hstart⟩ := hsite.stop.before_brace hbrace
  refine ⟨pre, hs, l, rest ++ post, by simp, hl, hbrace, hstart hheaded, fun w hw hliteral => ?_⟩
  have hmode : (v.leadMode m').inHeader = true := by
    rw [Visit.leadMode, if_pos hheaded]
    rfl
  obtain ⟨m₁, e₁, before, us, after, rfl, hinner⟩ := hlead.site hw
  obtain ⟨start, hopen⟩ := Visit.brace_of_literal hliteral
  obtain ⟨ls, c, rest', rfl, hc, rfl, -, hmode', -⟩ := hinner.stop.before_brace hopen
  have hin := (hinner.inHeader hmode).resolve_left (by simp [hmode' hliteral])
  refine ⟨before ++ ls, c, rest' ++ after, by simp, hc, hopen, ?_⟩
  rw [← List.singleton_append] at hin
  exact hin.narrow

/-- An operand that is a name, and what a brace behind it means. -/
theorem operand (h : Laid m e ts vs) {x : Expr} {n : Ident} (hx : .expr x ∈ Visit.reached vs)
    (hn : x.form.operandName? = some n) :
    ∃ pre t post, ts = pre ++ t :: post ∧ t.kind = .ident ∧ t.span = n.span ∧
      ∀ c rest, post = c :: rest → c.kind = .lBrace →
        ∃ v ∈ Visit.reached vs, v.isHeaded = true ∧ v.brace? = some c.span.start ∧
          .expr x ∈ Visit.reached (Part.nodes v.lead) := by
  obtain ⟨m', e', pre, us, post, rfl, hsite⟩ := h.site hx
  obtain ⟨hread, hedge⟩ := hsite.stop.of_name hn
  obtain ⟨before, t, after, rfl, ht, hspan, hafter⟩ := hread.endsNamed n hn
  refine ⟨pre ++ before, t, after ++ post, by simp, ht, hspan, fun c rest hpost hc => ?_⟩
  cases after with
  | nil => exact hsite.brace c rest hpost hc hedge
  | cons b bs =>
    obtain ⟨rfl, -⟩ := List.cons_eq_cons.mp hpost
    have hk : b.kind = .rParen := hafter b rfl
    exact nomatch hk.symm.trans hc

end Laid

-- ============================================================= sources

/-- Where elements come one after the other and two of them do not, they
are at the same place. -/
theorem pairwise_same_place {α : Type} {R : α → α → Prop} {as bs cs ds : List α} {t u : α}
    (h : (as ++ t :: bs).Pairwise R) (heq : as ++ t :: bs = cs ++ u :: ds) (htu : ¬ R t u)
    (hut : ¬ R u t) : as = cs ∧ t = u ∧ bs = ds := by
  have hpair : ∀ {xs ys zs : List α} {x y : α},
      (xs ++ x :: (ys ++ y :: zs)).Pairwise R → R x y := by
    intro xs ys zs x y h
    exact (List.pairwise_cons.mp (List.pairwise_append.mp h).2.1).1 y (by simp)
  obtain ⟨mid, rfl, hrest⟩ | ⟨mid, rfl, hrest⟩ := List.append_eq_append_iff.mp heq
  · cases mid with
    | nil => simpa using hrest
    | cons x mid =>
      obtain ⟨rfl, rfl⟩ := List.cons_eq_cons.mp hrest
      exact absurd (hpair h) htu
  · cases mid with
    | nil => simpa [eq_comm] using hrest
    | cons x mid =>
      obtain ⟨rfl, rfl⟩ := List.cons_eq_cons.mp hrest
      rw [List.append_assoc, List.cons_append] at h
      exact absurd (hpair h) hut

/-- A token of a source that was written is the only one at its place. -/
theorem Token.Stream.ofSource_place {source : String} {as bs cs ds : List Token} {t u : Token}
    (h : (ofSource source).tokens = as ++ t :: bs) (h' : (ofSource source).tokens = cs ++ u :: ds)
    (ht : t.kind ≠ .semi) (hspan : t.span = u.span) : as = cs ∧ t = u ∧ bs = ds := by
  have hwide : t.span.start < t.span.stop :=
    (ofSource_wide source t (by rw [h]; simp)).resolve_right ht
  have hnot : ¬ t.span.stop ≤ t.span.start := fun hle =>
    Location.not_lt_self _ (Location.lt_of_lt_of_le hwide hle)
  have hpairs := List.pairwise_map.mp (ofSource_inOrder source).pairwise
  rw [h] at hpairs
  exact pairwise_same_place hpairs (h.symm.trans h') (by rwa [← hspan]) (by rwa [← hspan])

/-- What braces mean in the tree of some tokens. -/
structure Root.Braced (tokens : List Token) (root : Root) : Prop where
  /-- The tokens `hs` of an `if` or a `for` up to the brace of its body: a
  literal in them whose type is a name has its brace within brackets. -/
  header : ∀ v ∈ root.reached, v.isHeaded = true →
    ∃ pre hs l post, tokens = pre ++ (hs ++ l :: post) ∧ l.kind = .lBrace ∧
      v.brace? = some l.span.start ∧ v.span.start = (extent hs).start ∧
      ∀ w ∈ Visit.reached (Part.nodes v.lead), w.isNamedLiteral = true →
        ∃ before c after, hs = before ++ c :: after ∧ c.kind = .lBrace ∧
          w.brace? = some c.span.start ∧ Bracketed before [c] after
  /-- An operand that is a name, if a brace follows it, ends a header, and
  the brace opens the body. -/
  operand : ∀ x n, .expr x ∈ root.reached → x.form.operandName? = some n →
    ∀ pre t c post, tokens = pre ++ t :: c :: post → t.span = n.span → c.kind = .lBrace →
      ∃ v ∈ root.reached, v.isHeaded = true ∧ v.brace? = some c.span.start ∧
        .expr x ∈ Visit.reached (Part.nodes v.lead)
  /-- A brace that follows a name opens a composite literal, the body of an
  `if` or `for`, or that of a function. -/
  name : ∀ pre t c post, tokens = pre ++ t :: c :: post → t.kind = .ident → c.kind = .lBrace →
    ∃ v ∈ root.reached, v.brace? = some c.span.start

/-- In a tree that is parsed from a source, braces after headers open
bodies, and elsewhere a brace that follows an operand that is a name makes
it the type of a composite literal. -/
theorem parseSource_braced {source : String} {entry : Entry} {maxDepth : Nat} {arena : Arena}
    {root : Root} (h : (parseSource source entry maxDepth arena).1 = .ok root) :
    root.Braced (Token.Stream.ofSource source).tokens := by
  have hlaid := (parseStream_reads (Token.Stream.ofSource_proper source) h).laid
  refine ⟨fun v hv hheaded => ?_, fun x n hx hn pre t c post htokens hspan hc => ?_, ?_⟩
  · rw [Root.reached_eq] at hv
    exact hlaid.header hv hheaded
  · rw [Root.reached_eq] at hx ⊢
    obtain ⟨pre', t', post', htokens', hident, hspan', hbrace⟩ := hlaid.operand hx hn
    obtain ⟨rfl, rfl, rfl⟩ := Token.Stream.ofSource_place htokens' htokens
      (by rw [hident]; nofun) (hspan'.trans hspan.symm)
    exact hbrace c post rfl hc
  · have hchain := (hlaid.opensOne (S := fun l => ∃ v ∈ root.reached, v.brace? = some l)
      fun v hv l hl => ⟨v, by rwa [Root.reached_eq], hl⟩).1
    exact fun pre t c post htokens =>
      List.isChain_iff_forall_rel_of_append_cons_cons.mp hchain htokens

/-- A header with literals in parentheses, and a literal in the body. -/
theorem parseSource_braced_nested :
    ∃ root, (parseSource "for i := (T\x7b1\x7d); f(p.T\x7b\x7d); \x7b x = T\x7b\x7d \x7d"
        .statements 60 .empty).1 = .ok root ∧
      root.Braced (Token.Stream.ofSource
        "for i := (T\x7b1\x7d); f(p.T\x7b\x7d); \x7b x = T\x7b\x7d \x7d").tokens := by
  have hok : (parseSource "for i := (T\x7b1\x7d); f(p.T\x7b\x7d); \x7b x = T\x7b\x7d \x7d"
      .statements 60 .empty).1.toOption.isSome = true := by
    decide +kernel
  cases h : (parseSource "for i := (T\x7b1\x7d); f(p.T\x7b\x7d); \x7b x = T\x7b\x7d \x7d"
      .statements 60 .empty).1 with
  | error e =>
    rw [h] at hok
    exact nomatch hok
  | ok root => exact ⟨root, rfl, parseSource_braced h⟩

end GoSource
