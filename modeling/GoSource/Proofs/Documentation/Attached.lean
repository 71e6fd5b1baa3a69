/-
The comments that a declaration is documented by.

Whatever declaration a walk reaches was recorded by the parse, and so it is
known at which token it begins and which comments it was given there
(`Token.Stream.Documents`). Those delivered with this token are the ones
between it and the token before; those that had been left over from earlier
do not count. Of the former it has the longest run that leads up to the
token (`Token.Stream.LongestRun`).

A comment is between the tokens of one place only. In front of the keyword
of a parenthesized group no declaration begins, and so the comments there
document none.
-/
import GoSource.Proofs.Arena.Parse
import GoSource.Proofs.Contents.Site
import GoSource.Proofs.Documentation.Documented
import GoSource.Proofs.Documentation.Run
import GoSource.Proofs.Lexing.Comments

namespace GoSource

open GoSource.Parser

-- ================================================================ tokens

/-- The keyword of a declaration, or of the group in which it may stand. -/
def DeclForm.keyword : DeclForm → Token.Kind
  | imports _ => .kwImport
  | const _ => .kwConst
  | var _ => .kwVar
  | type _ => .kwType
  | func _ | method _ => .kwFunc

/-- The tokens begin with the first of the declared names. -/
def DeclForm.NameFirst (form : DeclForm) (ts : List Token) : Prop :=
  ∃ n rest, ts = n :: rest ∧ n.kind = .ident ∧ form.names.head? = some ⟨n.text, n.span⟩

/-- The tokens of a declaration begin with its keyword, which other
declarations can be listed behind only in parentheses, or else it is one of
those and begins with its first name. -/
inductive DeclForm.Begins (form : DeclForm) : List Token → Prop where
  | keyword : w.kind = form.keyword → (GroupKind.ofKind w.kind ≠ none → form.NameFirst ts) →
      form.Begins (w :: ts)
  | listed : form.NameFirst ts → form.Begins ts

namespace DeclForm

variable {form : DeclForm} {ts : List Token}

theorem begins_spec {k : GroupKind} {m : Mode} (h : Derives (.spec k m) ts form) :
    form.keyword = k.keyword ∧ form.NameFirst ts := by
  cases h with
  | constSpec hnames | varSpec hnames =>
    obtain ⟨n, us, rest, rfl, hn, rfl⟩ := Grammar.names_head hnames
    exact ⟨rfl, n, _, List.cons_append, hn, rfl⟩
  | typeSpec hname =>
    cases hname with
    | @name n hn => exact ⟨rfl, n, _, rfl, hn, rfl⟩

/-- A declaration begins with no semicolon. -/
theorem Begins.kind_ne_semi {f : Token} (h : form.Begins (f :: ts)) : f.kind ≠ .semi := by
  cases h with
  | keyword hw =>
    rw [hw]
    cases form <;> exact nofun
  | listed h =>
    obtain ⟨n, rest, hts, hn, -⟩ := h
    obtain ⟨rfl, -⟩ := List.cons_eq_cons.mp hts
    rw [hn]
    exact nofun

/-- Behind the keyword of a group, the tokens of a declaration go on with a
name, and so with no parenthesis. -/
theorem Begins.name_behind {w : Token} (h : form.Begins (w :: ts))
    (hw : GroupKind.ofKind w.kind ≠ none) : ∃ n rest, ts = n :: rest ∧ n.kind = .ident := by
  cases h with
  | keyword _ hname =>
    obtain ⟨n, rest, hts, hn, -⟩ := hname hw
    exact ⟨n, rest, hts, hn⟩
  | listed h =>
    obtain ⟨n, rest, hts, hn, -⟩ := h
    obtain ⟨rfl, -⟩ := List.cons_eq_cons.mp hts
    rw [hn] at hw
    exact absurd rfl hw

end DeclForm

theorem Decl.Written.begins {ts : List Token} {d : Decl} (h : Decl.Written ts d) :
    d.form.Begins ts ∧ d.span = extent ts := by
  cases h with
  | imports h =>
    cases h with
    | loneImport hw | importGroup hw =>
      exact ⟨.keyword hw fun hgroup => absurd (by rw [hw]; rfl) hgroup, rfl⟩
  | function h =>
    cases h with
    | func hw | method hw =>
      exact ⟨.keyword hw fun hgroup => absurd (by rw [hw]; rfl) hgroup, rfl⟩
  | lone hw h =>
    obtain ⟨hkeyword, hname⟩ := DeclForm.begins_spec h
    exact ⟨.keyword (hw.trans hkeyword.symm) fun _ => hname, rfl⟩
  | listed h =>
    cases h with
    | specDecl h => exact ⟨.listed (DeclForm.begins_spec h).2, rfl⟩

-- ================================================================== runs

namespace Token.Stream

/-- Of the comments between two tokens, the longest run that leads up to the
second one. -/
structure LongestRun (s : Token.Stream) (p : Option Token) (f : Token) (run : List Comment) :
    Prop where
  suffix : run <:+ s.between p f
  leadUp : Comment.LeadUp p f run
  longest : ∀ others, others <:+ s.between p f → Comment.LeadUp p f others →
    others.length ≤ run.length

/-- The declaration begins at the token `f`, and its documentation are the
lines of the comments in `run`. -/
structure Attaches (s : Token.Stream) (d : Decl) (before : List Token) (f : Token)
    (rest after : List Token) (run : List Comment) : Prop where
  tokens : s.tokens = before ++ (f :: rest ++ after)
  span : d.span = extent (f :: rest)
  begins : d.form.Begins (f :: rest)
  longest : s.LongestRun before.getLast? f run
  doc : d.form.doc = run.flatMap (·.lines)

variable {s : Token.Stream} {k : Nat}

theorem lexemes_eq (h : k < s.lexemes.length) :
    s.lexemes = s.lexemes.take k ++ s.call k :: s.lexemes.drop (k + 1) := by
  rw [← getElem_lexemes h, ← List.drop_eq_getElem_cons h, List.take_append_drop]

/-- The end of the token before a call, if there is one. -/
theorem endBefore_eq (h : k ≤ s.lexemes.length) :
    (s.endBefore k).line = ((s.tokens.take k).getLast?.map (·.span.stop.line)).getD 0 := by
  cases k with
  | zero => rfl
  | succ k =>
    have htokens : k < s.tokens.length := by rwa [tokens, List.length_map]
    rw [List.take_add_one, List.getElem?_eq_getElem htokens, Option.toList_some,
      List.getLast?_concat]
    simp only [tokens, List.getElem_map, getElem_lexemes h]
    rfl

/-- Comments delivered before a call start before the last of the tokens
ends that were delivered. -/
theorem Sorted.start_lt_endBefore (hs : s.Sorted) (hk : k ≤ s.lexemes.length) {j : Nat} (hj : j < k)
    {c : Comment} (hc : c ∈ (s.call j).comments) : c.span.start < s.endBefore k := by
  cases k with
  | zero => exact absurd hj (Nat.not_lt_zero j)
  | succ k =>
    refine hs.start_lt (lexemes_eq hk) (List.mem_flatMap.mpr ⟨s.call j, ?_, hc⟩)
    rw [← getElem_lexemes hk, List.take_append_getElem hk, ← getElem_lexemes (by omega)]
    exact List.mem_take_iff_getElem.mpr ⟨j, by omega, rfl⟩

theorem Sorted.endBefore_le (hs : s.Sorted) (hk : k < s.lexemes.length) :
    s.endBefore k ≤ (s.call k).token.span.start := by
  cases k with
  | zero =>
    show 0 < _ ∨ 0 = _ ∧ 0 ≤ _
    omega
  | succ k =>
    obtain ⟨a, hbefore, hbehind⟩ := List.pairwise_iff_getElem.mp hs.pairwise k (k + 1) (by omega) hk
      (Nat.lt_succ_self k)
    rw [getElem_lexemes] at hbefore hbehind
    exact Location.le_trans hbefore.token hbehind.token

/-- What is between a token and the one before it is delivered with it, but
for a semicolon. -/
theorem Sorted.between_call (hs : s.Sorted) (hwide : ∀ t ∈ s.tokens, t.IsWide)
    (hk : k < s.lexemes.length) (hsemi : (s.call k).token.kind ≠ .semi) :
    s.between (s.tokens.take k).getLast? (s.call k).token = (s.call k).comments := by
  have htoken := (hwide _ (List.mem_map_of_mem (call_mem hk))).resolve_right hsemi
  rw [← hs.between_eq (lexemes_eq hk) hsemi htoken, tokens, ← List.map_take, List.getLast?_map]

/-- The comments found where a declaration is written are the longest run
before it, whatever has been left over from earlier. -/
theorem Documents.attaches (hs : s.Sorted) (hwide : ∀ t ∈ s.tokens, t.IsWide) {d : Decl}
    (h : s.Documents d) : ∃ before f rest after run, s.Attaches d before f rest after run := by
  obtain ⟨k, ts, cs, hwritten, hne, ⟨after, hts⟩, ⟨left, rfl, hleft⟩, hdoc⟩ := h
  obtain ⟨hbegins, hspan⟩ := hwritten.begins
  have hk : k < s.lexemes.length := by
    by_contra hk
    rw [List.drop_eq_nil_of_le (by rw [tokens, List.length_map]; omega)] at hts
    exact hne (List.append_eq_nil_iff.mp hts).1
  have htokens : s.tokens = s.tokens.take k ++ (ts ++ after) := by
    rw [hts, List.take_append_drop]
  obtain ⟨f, rest, rfl⟩ := List.exists_cons_of_ne_nil hne
  obtain ⟨rfl, -⟩ := List.cons_eq_cons.mp (hts.trans (drop_tokens hk))
  have hordered := hs.ordered _ (call_mem hk)
  have hnew : ∀ c ∈ (s.call k).comments, ¬ (s.call k).token.span.start ≤ c.span.start ∧
      0 < c.span.start.line ∧ 0 < c.span.stop.line := by
    intro c hc
    have hfirst := Location.le_def.mp (hordered.first_le c hc)
    have hc' := Location.lt_def.mp (hordered.wide c hc)
    have hstart := Location.lt_def.mp (hordered.starts c hc)
    rw [Location.le_def]
    simp only [Location.first] at hfirst
    omega
  have hold : ∀ c ∈ left, ¬ (s.call k).token.span.start ≤ c.span.start ∧
      c.span.start.line ≤ (s.endBefore k).line := by
    intro c hc
    obtain ⟨j, hj, hc⟩ := hleft c hc
    have hlt := Location.lt_def.mp (hs.start_lt_endBefore (Nat.le_of_lt hk) hj hc)
    have hle := Location.le_def.mp (hs.endBefore_le hk)
    rw [Location.le_def]
    omega
  obtain ⟨hsuffix, hlead, hlongest⟩ :=
    documenting_longest (endBefore_eq (Nat.le_of_lt hk)) hnew hold rfl
  have hbetween := hs.between_call hwide hk hbegins.kind_ne_semi
  refine ⟨s.tokens.take k, (s.call k).token, rest, after, _, htokens, hspan, hbegins, ?_, hdoc⟩
  refine ⟨?_, hlead, ?_⟩
  · rwa [hbetween]
  · intro others ho hlead
    rw [hbetween] at ho
    exact (hlongest others ho hlead).length_le

end Token.Stream

-- ================================================================ results

namespace Renumber

variable (δ : NodeKind → Nat)

@[simp] theorem keyword_declForm (form : DeclForm) : (declForm δ form).keyword = form.keyword := by
  cases form <;> rfl

theorem begins_declForm {form : DeclForm} {ts : List Token} (h : form.Begins ts) :
    (declForm δ form).Begins ts := by
  have hname {us : List Token} (h : form.NameFirst us) : (declForm δ form).NameFirst us := by
    unfold DeclForm.NameFirst
    rwa [names_declForm]
  cases h with
  | keyword hw h => exact .keyword (hw.trans (keyword_declForm δ form).symm) fun hk => hname (h hk)
  | listed h => exact .listed (hname h)

end Renumber

open Renumber in
/-- A declaration is documented in the same way when nodes have other
numbers. -/
theorem Token.Stream.Attaches.renumber {s : Token.Stream} {d : Decl}
    {before rest after : List Token} {f : Token} {run : List Comment}
    (h : s.Attaches d before f rest after run) (δ : NodeKind → Nat) :
    s.Attaches (decl δ d) before f rest after run := by
  obtain ⟨i, sp, form⟩ := d
  exact ⟨h.tokens, h.span, begins_declForm δ h.begins, h.longest,
    (doc_declForm δ form).trans h.doc⟩

/-- The declarations that a walk stops at have been recorded. -/
theorem Arena.Closed.mem_entries {a₀ a : Arena} (ha : a.Closed) {root : Root}
    (hroot : Held a₀ a root.parts root.lists) {depth : Nat} {d : Decl}
    (hd : ⟨depth, .decl d⟩ ∈ root.walk) : .decl d ∈ a.entries .decl := by
  rcases Root.mem_walk hd with ⟨f, -, hf⟩ | ⟨v, hv, hbelow⟩
  · exact nomatch hf
  · obtain ⟨part, hpart, hv⟩ := List.mem_filterMap.mp hv
    cases part with
    | node w =>
      obtain rfl : w = v := Option.some.inj hv
      obtain ⟨r, hr, hlookup⟩ := ha.below (hroot.keeps.1 _ hpart) hbelow
      cases hr
      exact List.mem_of_getElem? hlookup
    | _ => exact nomatch hv

/-- Every declaration in the tree of a source is documented by the longest
run of comments in front of it. -/
theorem parseSource_attaches {source : String} {entry : Entry} {maxDepth : Nat} {a : Arena}
    {root : Root} (h : (parseSource source entry maxDepth a).1 = .ok root) {d : Decl}
    (hd : .decl d ∈ root.reached) : ∃ before f rest after run,
      (Token.Stream.ofSource source).Attaches d before f rest after run := by
  have hcount : ∀ k, a.count k = Arena.empty.count k + a.count k := by
    intro k
    cases k <;> exact (Nat.zero_add _).symm
  have hparses : Parses a.count .empty
      (parseStream (Token.Stream.ofSource source) entry maxDepth .empty)
      (parseStream (Token.Stream.ofSource source) entry maxDepth a) :=
    parseStream_parses Arena.closed_empty hcount _ _ _
  have hdocuments {root : Root} {b : Arena}
      (h : parseStream (Token.Stream.ofSource source) entry maxDepth .empty = (.ok root, b)) :=
    parseStream_documents (Token.Stream.ofSource_proper source) h
  change (parseStream (Token.Stream.ofSource source) entry maxDepth a).1 = _ at h
  generalize parseStream (Token.Stream.ofSource source) entry maxDepth .empty = o,
    parseStream (Token.Stream.ofSource source) entry maxDepth a = o' at hparses hdocuments h
  cases hparses with
  | error => cases h
  | @ok fresh b b' _ hclosed hheld =>
    cases h
    rw [Root.reached, Renumber.walk_root, List.map_map] at hd
    obtain ⟨step, hstep, hvisit⟩ := List.mem_map.mp hd
    obtain ⟨depth, v⟩ := step
    cases v with
    | decl d₀ =>
      cases hvisit
      have hentry : .decl d₀ ∈ b.entries .decl := hclosed.mem_entries hheld hstep
      obtain ⟨before, f, rest, after, run, hd₀⟩ := Token.Stream.Documents.attaches
        (Token.Stream.ofSource_sorted source) (Token.Stream.ofSource_wide source)
        (hdocuments rfl d₀ hentry)
      exact ⟨before, f, rest, after, run, hd₀.renumber a.count⟩
    | _ => cases hvisit

/-- Every declaration is documented by the lines of the longest run of
comments that leads up to it, and those before the keyword of a group are in
no such run. -/
theorem parseSource_documented {source : String} {entry : Entry} {maxDepth : Nat} {a : Arena}
    {root : Root} (h : (parseSource source entry maxDepth a).1 = .ok root) :
    ∀ d, .decl d ∈ root.reached → ∃ before f rest after run,
      (Token.Stream.ofSource source).Attaches d before f rest after run ∧
      ∀ earlier w l later, (Token.Stream.ofSource source).tokens = earlier ++ w :: l :: later →
        GroupKind.ofKind w.kind ≠ none → l.kind = .lParen →
        ∀ c ∈ (Token.Stream.ofSource source).between earlier.getLast? w, c ∉ run := by
  intro d hd
  obtain ⟨before, f, rest, after, run, hrun⟩ := parseSource_attaches h hd
  refine ⟨before, f, rest, after, run, hrun, fun earlier w l later htokens hw hl c hc hmem => ?_⟩
  have hc' := hrun.longest.suffix.mem hmem
  obtain rfl : earlier = before := (Token.Stream.ofSource_sorted source).between_unique htokens
    hrun.tokens hc hc'
  obtain ⟨rfl, hrest⟩ := List.cons_eq_cons.mp
    (List.append_cancel_left (htokens.symm.trans hrun.tokens))
  obtain ⟨n, names, rfl, hn⟩ := hrun.begins.name_behind hw
  obtain ⟨rfl, -⟩ := List.cons_eq_cons.mp hrest
  exact nomatch hl.symm.trans hn

/-- The documentation of a declaration that a walk stops at. -/
def Visit.doc : Visit → List String
  | .decl d => d.form.doc
  | _ => []

theorem Root.exists_decl_of_doc {o : Except ParseError Root} {lines : List String}
    (hlines : lines ≠ [])
    (h : (o.toOption.any fun root => root.reached.any (·.doc = lines)) = true) :
    ∃ root d, o = .ok root ∧ .decl d ∈ root.reached ∧ d.form.doc = lines := by
  cases o with
  | error e => exact nomatch h
  | ok root =>
    obtain ⟨v, hv, hdoc⟩ := List.any_eq_true.mp h
    have hdoc : v.doc = lines := of_decide_eq_true hdoc
    cases v with
    | decl d => exact ⟨root, d, rfl, hv, hdoc⟩
    | _ => exact absurd hdoc.symm hlines

/-- A spec in a group with comments of its own, and another comment before
the keyword. -/
theorem parseSource_documented_group :
    ∃ root d, (parseSource "// a\nvar (\n// b\n// c\nx int\n)" .declarations 40 .empty).1 =
        .ok root ∧
      .decl d ∈ root.reached ∧ d.form.doc = ["// b", "// c"] ∧ ∃ before f rest after run,
      (Token.Stream.ofSource "// a\nvar (\n// b\n// c\nx int\n)").Attaches d before f rest after
        run ∧
      ∀ earlier w l later, (Token.Stream.ofSource "// a\nvar (\n// b\n// c\nx int\n)").tokens =
          earlier ++ w :: l :: later → GroupKind.ofKind w.kind ≠ none → l.kind = .lParen →
        ∀ c ∈ (Token.Stream.ofSource "// a\nvar (\n// b\n// c\nx int\n)").between
          earlier.getLast? w, c ∉ run := by
  have hok : ((parseSource "// a\nvar (\n// b\n// c\nx int\n)" .declarations 40
      .empty).1.toOption.any fun root => root.reached.any (·.doc = ["// b", "// c"])) = true := by
    decide +kernel
  obtain ⟨root, d, h, hd, hdoc⟩ := Root.exists_decl_of_doc (List.cons_ne_nil _ _) hok
  exact ⟨root, d, h, hd, hdoc, parseSource_documented h d hd⟩

end GoSource
