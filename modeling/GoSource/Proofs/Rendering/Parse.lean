/-
What a source is parsed into is parsed again from its rendering.

Any list of tokens that fits the rendering will do, however its literals
are spelled and wherever its tokens stand, and there is such a list.

# Limits

The limit under which the source was parsed need not do for the rendering,
which has more parentheses. There is one that does, and all above it do as
well.

# Ends

A rendering goes up to the end of the input. Behind an expression there is
no semicolon then; behind the last of the statements and declarations
there is one, as behind the others.
-/
import GoSource.Proofs.Derivation.Parse
import GoSource.Proofs.Rendering.Derivation
import GoSource.Proofs.Rendering.Written
import GoSource.Proofs.Running.Parse

namespace GoSource

open GoSource.Parser

-- ========================================================= whole inputs

/-- A parser that reads slots up to the end reads the tokens that fit
them. -/
theorem Parser.Rereads.tokens {α : Type} {p : Parser α} {ss : List Slot} {R : α → Prop}
    (hp : p.Rereads false ss (·.kind = .eof) R) {tokens : List Token} (arena : Arena)
    (htokens : List.Forall₂ Slot.Accepts ss tokens) :
    ∃ a s, p (.start (.ofTokens tokens) arena) = .ok a s ∧ s.current.kind = .eof ∧ R a := by
  let stream := Token.Stream.ofTokens tokens
  have hlexemes : stream.lexemes = tokens.map (⟨[], ·⟩) ++ [] := (List.append_nil _).symm
  have hslots : List.Forall₂ (fun slot l => slot.Accepts l.token) ss
      (tokens.map (⟨[], ·⟩ : Token → Lexeme)) := List.forall₂_map_right_iff.mpr htokens
  obtain ⟨l, hshows⟩ := Cursor.shows_before .nowhere hlexemes hslots
  have hs : (Parsing.start stream arena).At false (Cursor.before stream .nowhere) :=
    ⟨rfl, rfl, ready_start.fueled⟩
  obtain ⟨a, s, ha, hs', hR⟩ := hp _ _ _ hs hshows rfl
  refine ⟨a, s, ha, ?_, hR⟩
  rw [← Parsing.cursor_current, hs'.cursor]
  rfl

/-- An expression up to the end is all there is. -/
theorem Entry.expression_of_eof {parse : SubParser} {s s' : Parsing} {y : Expr}
    (hy : parse .expression s = .ok y s') (heof : s'.current.kind = .eof) :
    Entry.expression.parser parse s = .ok (.expr y) s'.next := by
  have hsemi : s'.current.kind ≠ .semi := by
    rw [heof]
    decide
  refine map_eq_ok.mpr ⟨y, ?_, rfl⟩
  refine bind_eq_ok.mpr ⟨y, s', hy, bind_eq_ok.mpr ⟨none, s', eat_not_at hsemi, ?_⟩⟩
  exact bind_eq_ok.mpr ⟨_, _, expect_at heof, rfl⟩

/-- The rendering of a tree is parsed into one that is equal to it. -/
def Entry.Rereads (entry : Entry) (parse : SubParser) (root : Root) : Prop :=
  ∀ tokens arena, List.Forall₂ Slot.Accepts root.render tokens →
    ∃ root' s, entry.parser parse (.start (.ofTokens tokens) arena) = .ok root' s ∧
      root'.bare = root.bare

namespace ReadAs

variable {entry : Entry} {ts : List Token} {root : Root}

theorem rereads (h : ReadAs entry ts root) (hentry : entry ≠ .typeSwitchGuard) :
    Always (entry.Rereads · root) := by
  cases h with
  | expression hx =>
    refine (hx.comesBack rfl).rereads.imp fun _ hx tokens arena htokens => ?_
    obtain ⟨y, s, hy, heof, hsame⟩ := (hx.before fun _ ht => .inr ht).tokens arena htokens
    exact ⟨.expr y, s.next, Entry.expression_of_eof hy heof, congrArg Root.expr hsame⟩
  | declarations hds =>
    refine (Always.declarations hds.comesBack).imp fun _ hds tokens arena htokens => ?_
    obtain ⟨ds, s, hrun, -, hsame⟩ := hds.tokens arena htokens
    exact ⟨.decls ds, s, map_eq_ok.mpr ⟨ds, hrun, rfl⟩, congrArg Root.decls hsame⟩
  | file hf =>
    obtain ⟨himports, hdecls⟩ := hf.comesBack
    refine (Always.file himports hdecls).imp fun _ hf tokens arena htokens => ?_
    obtain ⟨f, s, hrun, -, hsame⟩ := hf.tokens arena htokens
    exact ⟨.file f, s, map_eq_ok.mpr ⟨f, hrun, rfl⟩, congrArg Root.file hsame⟩
  | statements hss =>
    have hreturns := hss.comesBack rfl
    refine (Always.all fun s hs => (hreturns s hs).rereads).imp fun _ hss tokens arena htokens => ?_
    have hlist := Grammar.stmtList_rereads (F := (·.kind = .eof)) hss
      (fun s hs => (hreturns s hs).begins) fun _ ht => .inr ht
    obtain ⟨ss, s, hrun, heof, hsame⟩ := hlist.tokens arena htokens
    refine ⟨.stmts ss, s.next, map_eq_ok.mpr ⟨ss, ?_, rfl⟩, congrArg Root.stmts hsame⟩
    exact bind_eq_ok.mpr ⟨ss, s, hrun, bind_eq_ok.mpr ⟨_, _, expect_at heof, rfl⟩⟩
  | typeSwitchGuard => exact absurd rfl hentry

theorem written (h : ReadAs entry ts root) : Written root.render := by
  cases h with
  | expression hx => exact hx.written
  | declarations hds => exact written_decls (written_flatMap.mp hds.written)
  | file hf => exact hf.written
  | statements hss =>
    rw [Root.render, written_ended (by decide), Render.stmtList_eq]
    intro slots hslots
    obtain ⟨s, hs, rfl⟩ := List.mem_map.mp hslots
    exact written_flatMap.mp hss.written s hs
  | typeSwitchGuard hform => exact hform.written

end ReadAs

-- ============================================================== sources

variable {source : String} {entry : Entry} {maxDepth : Nat} {arena : Arena} {root : Root}

theorem parseSource_rereads (h : (parseSource source entry maxDepth arena).1 = .ok root)
    (hentry : entry ≠ .typeSwitchGuard) :
    (∃ tokens, List.Forall₂ Slot.Accepts root.render tokens) ∧
      ∃ least, ∀ maxDepth' ≥ least, ∀ tokens arena', List.Forall₂ Slot.Accepts root.render tokens →
        ∃ root', (parseTokens tokens entry maxDepth' arena').1 = .ok root' ∧
          root'.bare = root.bare := by
  have hread := parseStream_reads (Token.Stream.ofSource_proper source) h
  refine ⟨hread.written.exists_tokens, ?_⟩
  obtain ⟨least, hleast⟩ := Filter.eventually_atTop.mp (hread.rereads hentry)
  refine ⟨least, fun maxDepth' hdepth tokens arena' htokens => ?_⟩
  obtain ⟨root', s, hrun, hsame⟩ := hleast maxDepth' hdepth tokens arena' htokens
  exact ⟨root', parseStream_of_ok hrun, hsame⟩

/-- The expression that a source is parsed into has a rendering, and every
rendering of it is parsed into it again, up to spans and numbers. -/
theorem rendered_expression_parses
    (h : (parseSource source .expression maxDepth arena).1 = .ok root) :
    ∃ x, root = .expr x ∧ (∃ tokens, List.Forall₂ Slot.Accepts (Render.expr x) tokens) ∧
      ∃ least, ∀ maxDepth' ≥ least, ∀ tokens arena',
        List.Forall₂ Slot.Accepts (Render.expr x) tokens →
          ∃ y, (parseTokens tokens .expression maxDepth' arena').1 = .ok (.expr y) ∧
            Bare.expr y = Bare.expr x := by
  obtain ⟨htokens, least, hleast⟩ := parseSource_rereads h nofun
  obtain ⟨x, -, rfl⟩ := map_eq_ok.mp (parseStream_ok h).choose_spec
  refine ⟨x, rfl, htokens, least, fun maxDepth' hdepth tokens arena' hrender => ?_⟩
  obtain ⟨root', hrun, hsame⟩ := hleast maxDepth' hdepth tokens arena' hrender
  cases root' with
  | expr y => exact ⟨y, hrun, Root.expr.inj hsame⟩
  | _ => exact nomatch hsame

/-- Elements with and without types, one of them a slice and one an
operation. -/
theorem rendered_expression_parses_composite :
    ∃ root, (parseSource "p.T\x7b1: \x7bx[2:]\x7d, y: <-c\x7d" .expression 40 .empty).1 = .ok root ∧
      ∃ x, root = .expr x ∧ (∃ tokens, List.Forall₂ Slot.Accepts (Render.expr x) tokens) ∧
        ∃ least, ∀ maxDepth' ≥ least, ∀ tokens arena',
          List.Forall₂ Slot.Accepts (Render.expr x) tokens →
            ∃ y, (parseTokens tokens .expression maxDepth' arena').1 = .ok (.expr y) ∧
              Bare.expr y = Bare.expr x := by
  have hok : (parseSource "p.T\x7b1: \x7bx[2:]\x7d, y: <-c\x7d" .expression 40
      .empty).1.toOption.isSome = true := by
    decide +kernel
  cases h : (parseSource "p.T\x7b1: \x7bx[2:]\x7d, y: <-c\x7d" .expression 40 .empty).1 with
  | error e =>
    rw [h] at hok
    exact nomatch hok
  | ok root => exact ⟨root, rfl, rendered_expression_parses h⟩

/-- Statements, declarations and files have renderings, and each of them
is parsed into the same tree again, up to spans, numbers and comments. -/
theorem rendered_code_parses
    (hentry : entry = .statements ∨ entry = .declarations ∨ entry = .file)
    (h : (parseSource source entry maxDepth arena).1 = .ok root) :
    (∃ tokens, List.Forall₂ Slot.Accepts root.render tokens) ∧
      ∃ least, ∀ maxDepth' ≥ least, ∀ tokens arena', List.Forall₂ Slot.Accepts root.render tokens →
        ∃ root', (parseTokens tokens entry maxDepth' arena').1 = .ok root' ∧
          root'.bare = root.bare := by
  refine parseSource_rereads h ?_
  obtain rfl | rfl | rfl := hentry <;> exact nofun

/-- A group of constants of which the second repeats the first, and a
function with a condition and a loop. -/
theorem rendered_code_parses_file :
    ∃ root, (parseSource "package p; const (a = 1; b); func f() \x7b if x \x7b for \x7b\x7d\x7d\x7d"
        .file 60 .empty).1 = .ok root ∧
      (∃ tokens, List.Forall₂ Slot.Accepts root.render tokens) ∧
        ∃ least, ∀ maxDepth' ≥ least, ∀ tokens arena',
          List.Forall₂ Slot.Accepts root.render tokens →
            ∃ root', (parseTokens tokens .file maxDepth' arena').1 = .ok root' ∧
              root'.bare = root.bare := by
  have hok : (parseSource
      "package p; const (a = 1; b); func f() \x7b if x \x7b for \x7b\x7d\x7d\x7d"
      .file 60 .empty).1.toOption.isSome = true := by
    decide +kernel
  cases h : (parseSource
      "package p; const (a = 1; b); func f() \x7b if x \x7b for \x7b\x7d\x7d\x7d"
      .file 60 .empty).1 with
  | error e =>
    rw [h] at hok
    exact nomatch hok
  | ok root => exact ⟨root, rfl, rendered_code_parses (.inr (.inr rfl)) h⟩

end GoSource
