/-
A final semicolon is optional.

Prepared tokens are accepted with a semicolon behind them and without, and
what is returned is the same, but for the place where a file ends
(`parseTokens_finalSemi`). Two inputs are compared, one of which has the
semicolon more, and either may be the one that is known to be accepted; so
there are two forks, which differ in where the first run ends.

# The exception

If the last token is `return` and the input is statements, the semicolon is
needed: what follows `return` is taken for results unless it is a semicolon
or a brace. `parseTokens_finalSemi_return` is the input that shows it.
-/
import GoSource.Proofs.Parting.Input

namespace GoSource

open GoSource.Parser

variable {f : Fork} {s s' t : Parsing} {ts us vs : List Token} {entry : Entry} {x : Root}
  {depth : Nat} {arena : Arena}

-- ================================================================ roots

/-- The same root, as if a file ended at a place. -/
def Root.endingAt (l : Location) : Root → Root
  | .file x => .file { x with span.stop := l }
  | x => x

/-- The same, but for where a file ends. -/
def Root.SameButEnd (x y : Root) : Prop := ∀ l, x.endingAt l = y.endingAt l

theorem Root.SameButEnd.refl (x : Root) : x.SameButEnd x := fun _ => rfl

theorem Root.SameButEnd.symm {x y : Root} (h : x.SameButEnd y) : y.SameButEnd x :=
  fun l => (h l).symm

-- ============================================================== endings

namespace Grammar

open Joins

variable {parse : SubParser} (hf : f.Closes) (hsound : parse.Sound)
  (hparse : ∀ {α : Type} (p : Production α), p.comesLast = true → ∀ s t, Unswayed f s t (parse p))

/-- What is still read behind the tokens in common is the end. -/
theorem expectEof_joins {α : Type} {y z : α} (h : s.InStep f t)
    (hs : (expect .eof >>= fun _ => (Pure.pure y : Parser α)) s = .ok z s') :
    ∃ t', (expect .eof >>= fun _ => (Pure.pure y : Parser α)) t = .ok z t' ∧
      t'.arena = s'.arena := by
  obtain ⟨sp, s₁, hsp, hs⟩ := bind_eq_ok.mp hs
  have heof := expect_eq_ok hsp
  rcases h with ⟨u, us, h⟩ | h
  · exact absurd heof h.current_ne_eof
  · rw [Parsing.eq_at heof] at hsp
    cases hsp
    cases hs
    refine ⟨t.next, ?_, h.arena⟩
    rw [Parsing.eq_at h.second.1]
    rfl

include hf

theorem eatSemi_joins (h : s.Beside f ts t) :
    Joins f s t (eat .semi >>= fun _ => (Pure.pure () : Parser Unit)) := by
  cases ts with
  | nil => exact of_closing hf h (fun _ _ _ => rfl) fun _ _ _ => rfl
  | cons u us =>
    refine bind_eat h (fun hk _ => .pure (h.next_inStep hf hk)) ?_
    exact .pure (.inl ⟨u, us, h⟩)

include hsound hparse

theorem file_joins {file : File} (h : s.Beside f ts t) (hs : Grammar.file parse s = .ok file s') :
    ∃ l t', Grammar.file parse t = .ok { file with span.stop := l } t' ∧ t'.arena = s'.arena := by
  have hstart : ¬ f.ends s.cursor := by
    intro hends
    obtain ⟨start, _, hstart, hs⟩ := bind_eq_ok.mp hs
    cases hstart
    exact Stuck.bind (.expect rfl) s hends file s' hs
  obtain ⟨u, us, rfl⟩ := List.exists_cons_of_ne_nil (h.ne_nil hstart)
  obtain ⟨start, _, hhere, hs⟩ := bind_eq_ok.mp hs
  cases hhere
  obtain ⟨packageSpan, s₁, hpackage, hs⟩ := bind_eq_ok.mp hs
  obtain ⟨name, s₂, hname, hs⟩ := bind_eq_ok.mp hs
  obtain ⟨_, s₃, hsemi, hs⟩ := bind_eq_ok.mp hs
  obtain ⟨imports, s₄, himports, hs⟩ := bind_eq_ok.mp hs
  obtain ⟨decls, s₅, hdecls, hs⟩ := bind_eq_ok.mp hs
  cases hs
  obtain ⟨vs, t₁, ht₁, h₁⟩ := Unswayed.expect rfl _ h _ _ hpackage
  obtain ⟨vs, t₂, ht₂, h₂⟩ := Unswayed.ident _ h₁ _ _ hname
  obtain ⟨t₃, ht₃, h₃⟩ := expectSemi_joins hf h₂ _ _ hsemi
  obtain ⟨t₄, ht₄, h₄⟩ := imports_joins hsound hparse hf h₃ _ _ himports
  obtain ⟨t₅, ht₅, h₅⟩ := declsWith_joins hsound hf .decls rfl
    (fun _ _ => topLevelDecl_unswayed hf.isEnd hparse) h₄ _ _ hdecls
  refine ⟨t₅.previousEnd, t₅, ?_, h₅.arena⟩
  refine bind_eq_ok.mpr ⟨s.current.span.start, t, ?_, ?_⟩
  · rw [← h.current_eq]
    rfl
  · exact bind_eq_ok.mpr ⟨_, _, ht₁, bind_eq_ok.mpr ⟨_, _, ht₂, bind_eq_ok.mpr ⟨_, _, ht₃,
      bind_eq_ok.mpr ⟨_, _, ht₄, bind_eq_ok.mpr ⟨_, _, ht₅, rfl⟩⟩⟩⟩⟩

end Grammar

-- ============================================================== entries

theorem Parser.during_eq_ok {α : Type} {name : String} {p : Parser α} {y : α} :
    during name p s = .ok y s' ↔ ∃ s₁, p { s with trace := name :: s.trace } = .ok y s₁ ∧
      { s₁ with trace := s.trace } = s' := by
  unfold Parser.during
  cases p { s with trace := name :: s.trace } with
  | ok z s₁ => simp
  | error e s₁ => simp

/-- What an entry returns does not depend on a final semicolon. -/
theorem Entry.parser_joins (hf : f.Closes) (hentry : entry ≠ .typeSwitchGuard)
    (hreturns : entry = .statements → f.Returns) (h : s.Beside f ts t) (hts : ts ≠ [])
    (hs : entry.parser (Grammar.parse depth) s = .ok x s') :
    ∃ y t', entry.parser (Grammar.parse depth) t = .ok y t' ∧ x.SameButEnd y ∧
      t'.arena = s'.arena := by
  obtain ⟨u, us, rfl⟩ := List.exists_cons_of_ne_nil hts
  have hsound : SubParser.Sound (Grammar.parse depth) := parse_sound depth
  have hparse (n : Nat) {α : Type} (p : Production α) (hp : p.comesLast = true) (s t : Parsing) :
      Unswayed f s t (Grammar.parse n p) :=
    Grammar.parse_parting hf.isEnd hf.silent hp n s t
  have hstep : s.InStep f t := .inl ⟨u, us, h⟩
  cases entry with
  | expression =>
    obtain ⟨e, hwhole, rfl⟩ := map_eq_ok.mp hs
    obtain ⟨e', s₁, hexpr, hwhole⟩ := bind_eq_ok.mp hwhole
    obtain ⟨o, s₂, hsemi, hwhole⟩ := bind_eq_ok.mp hwhole
    obtain ⟨vs, t₁, ht₁, h₁⟩ := hparse depth .expression rfl s t _ h _ _ hexpr
    obtain ⟨t₂, ht₂, h₂⟩ := Grammar.eatSemi_joins hf h₁ _ _ (bind_eq_ok.mpr ⟨o, s₂, hsemi, rfl⟩)
    obtain ⟨o', _, hsemi', ht₂⟩ := bind_eq_ok.mp ht₂
    cases ht₂
    obtain ⟨t', ht', harena⟩ := Grammar.expectEof_joins h₂ hwhole
    exact ⟨.expr e, t', map_eq_ok.mpr ⟨e, bind_eq_ok.mpr ⟨_, _, ht₁, bind_eq_ok.mpr
      ⟨_, _, hsemi', ht'⟩⟩, rfl⟩, .refl _, harena⟩
  | declarations =>
    obtain ⟨ds, hdecls, rfl⟩ := map_eq_ok.mp hs
    obtain ⟨t', ht', h'⟩ := Grammar.declsWith_joins hsound hf .anyDecls rfl
      (fun _ _ => Grammar.anyDecl_unswayed hf.isEnd (hparse depth)) hstep _ _ hdecls
    exact ⟨_, t', map_eq_ok.mpr ⟨ds, ht', rfl⟩, .refl _, h'.arena⟩
  | file =>
    obtain ⟨file, hfile, rfl⟩ := map_eq_ok.mp hs
    cases depth with
    | zero => exact nomatch hfile
    | succ depth =>
      have hfile : Grammar.parse (depth + 1) .file s = .ok file s' := hfile
      rw [Grammar.parse_succ] at hfile
      obtain ⟨s₁, hbody, rfl⟩ := during_eq_ok.mp hfile
      have hinside : Parsing.Beside f (u :: us) { s with trace := Production.file.name :: s.trace }
          { t with trace := Production.file.name :: t.trace } := { h with }
      obtain ⟨l, t₁, ht₁, harena⟩ :=
        Grammar.file_joins hf (parse_sound depth) (hparse depth) hinside hbody
      refine ⟨.file { file with span.stop := l }, { t₁ with trace := t.trace },
        map_eq_ok.mpr ⟨_, ?_, rfl⟩, fun _ => rfl, harena⟩
      show Grammar.parse (depth + 1) .file t = _
      rw [Grammar.parse_succ]
      exact during_eq_ok.mpr ⟨t₁, ht₁, rfl⟩
  | statements =>
    obtain ⟨ss, hwhole, rfl⟩ := map_eq_ok.mp hs
    obtain ⟨ss', s₁, hstmts, hwhole⟩ := bind_eq_ok.mp hwhole
    obtain ⟨t₁, ht₁, h₁⟩ := Grammar.stmtList_joins hsound hf
      (fun s t => (Grammar.parse_statement_parting hf.isEnd hf.silent (hreturns rfl) depth s t).1)
      hstep _ _ hstmts
    obtain ⟨t', ht', harena⟩ := Grammar.expectEof_joins h₁ hwhole
    exact ⟨.stmts ss, t', map_eq_ok.mpr ⟨ss, bind_eq_ok.mpr ⟨_, _, ht₁, ht'⟩, rfl⟩, .refl _, harena⟩
  | typeSwitchGuard => exact absurd rfl hentry

-- ================================================================ forks

theorem Cursor.Spent.isEnd {c : Cursor} (h : c.Spent) : c.current.kind.isEnd = true :=
  Cursor.Closing.isEnd (.inl h)

/-- The second input has a semicolon where the first one ends. -/
def Fork.lacking (k : Token.Kind) (d : Cursor) : Fork where
  ends := Cursor.Spent
  second := d
  last := (· = k)
  silent := true
  ends_next := Cursor.Spent.next
  ends_kind := Cursor.Spent.isEnd

/-- The first input has a semicolon where the second one ends. -/
def Fork.having (k : Token.Kind) (d : Cursor) : Fork where
  ends := Cursor.Closing
  second := d
  last := (· = k)
  silent := true
  ends_next := Cursor.Closing.next
  ends_kind := Cursor.Closing.isEnd

section

variable {k : Token.Kind} {d : Cursor}

theorem Fork.closes_lacking (hk : k ≠ .semi) (hd : d.Closing) : (Fork.lacking k d).Closes :=
  ⟨.inl, hd, hk.symm, rfl⟩

theorem Fork.closes_having (hk : k ≠ .semi) (hd : d.Closing) : (Fork.having k d).Closes :=
  ⟨id, hd, hk.symm, rfl⟩

theorem Fork.returns_lacking : (Fork.lacking k d).Returns := .inl fun _ h => h.1

theorem Fork.returns_having (hk : k ≠ .kwReturn) : (Fork.having k d).Returns := .inr hk.symm

end

theorem Parsing.silent_start (ts : List Token) (arena : Arena) :
    (Parsing.start (.ofTokens ts) arena).Silent := by
  cases ts with
  | nil => exact ⟨rfl, List.forall_mem_nil _, rfl⟩
  | cons t ts => exact ⟨rfl, by simp [Parsing.start, Token.Stream.ofTokens, Token.Stream.next], rfl⟩

/-- Two inputs at their starts. -/
theorem Parsing.beside_start {e : Cursor}
    (hfirst : (Parsing.start (.ofTokens us) arena).cursor.Takes ts e) (hends : f.ends e)
    (hsecond : (Parsing.start (.ofTokens vs) arena).cursor.Takes ts f.second)
    (hlast : ∀ u ∈ ts.getLast?, f.last u.kind) :
    (Parsing.start (.ofTokens us) arena).Beside f ts (.start (.ofTokens vs) arena) where
  first := ⟨e, hfirst, hends⟩
  second := hsecond
  last := hlast
  previousEnd := rfl
  inHeader := rfl
  guardAllowed := rfl
  arena := rfl
  fueled := ready_start.fueled
  fueled' := ready_start.fueled
  silent _ := ⟨silent_start us arena, silent_start vs arena⟩

/-- The tokens of an input can be taken, with a semicolon behind them or
without. -/
theorem Parsing.takes_both (h : ∀ t ∈ ts, t.kind ≠ .eof) {semi : Token} (hsemi : semi.kind = .semi)
    (arena : Arena) : ∃ d e, (Parsing.start (.ofTokens ts) arena).cursor.Takes ts d ∧ d.Spent ∧
      (Parsing.start (.ofTokens (ts ++ [semi])) arena).cursor.Takes ts e ∧ e.Closing := by
  have hall : ∀ t ∈ ts ++ [semi], t.kind ≠ .eof := by
    intro t ht
    rcases List.mem_append.mp ht with ht | ht
    · exact h t ht
    · rw [List.mem_singleton.mp ht, hsemi]
      exact nofun
  obtain ⟨d, hd⟩ := takes_start h arena
  obtain ⟨c, hc⟩ := takes_start hall arena
  obtain ⟨e, he, hrest⟩ := Cursor.takes_append.mp hc
  obtain ⟨hcurrent, -, hnext⟩ := Cursor.takes_cons.mp hrest
  have hspent : c.Spent := hc.spent (by simp [Token.Stream.ofTokens])
  refine ⟨d, e, hd, hd.spent (by simp [Token.Stream.ofTokens]), he, .inr ⟨?_, ?_⟩⟩
  · rw [hcurrent, hsemi]
  · rwa [Cursor.takes_nil.mp hnext]

-- ========================================================== whole inputs

theorem parseTokens_eq_ok {root : Root} {arena' : Arena} :
    parseTokens ts entry depth arena = (.ok root, arena') ↔
      ∃ s, entry.parser (Grammar.parse depth) (.start (.ofTokens ts) arena) = .ok root s ∧
        s.arena = arena' := by
  unfold parseTokens parseStream
  cases entry.parser (Grammar.parse depth) (.start (.ofTokens ts) arena) with
  | ok x s => simp
  | error e s => simp

/-- Tokens are accepted with a semicolon behind them just as they are
without, and are made into the same thing; only `return` cannot come last
among statements. -/
theorem parseTokens_finalSemi {last semi : Token} (heof : ∀ t ∈ ts ++ [last], t.kind ≠ .eof)
    (hlast : last.kind ≠ .semi) (hsemi : semi.kind = .semi) (hentry : entry ≠ .typeSwitchGuard)
    (maxDepth : Nat) (arena : Arena) :
    (∀ root arena', parseTokens (ts ++ [last]) entry maxDepth arena = (.ok root, arena') →
      ∃ root', parseTokens (ts ++ [last, semi]) entry maxDepth arena = (.ok root', arena') ∧
        root.SameButEnd root') ∧
    ((entry = .statements → last.kind ≠ .kwReturn) →
      ∀ root' arena', parseTokens (ts ++ [last, semi]) entry maxDepth arena =
          (.ok root', arena') →
        ∃ root, parseTokens (ts ++ [last]) entry maxDepth arena = (.ok root, arena') ∧
          root.SameButEnd root') := by
  obtain ⟨d, e, hd, hdspent, he, heclosing⟩ := Parsing.takes_both heof hsemi arena
  rw [List.append_assoc] at he
  have hkind : ∀ u ∈ (ts ++ [last]).getLast?, u.kind = last.kind := by
    intro u hu
    rw [List.getLast?_concat] at hu
    rw [Option.mem_some.mp hu]
  have hne : ts ++ [last] ≠ [] := by simp
  constructor
  · intro root arena' h
    obtain ⟨s, hs, rfl⟩ := parseTokens_eq_ok.mp h
    have hbeside := Parsing.beside_start (f := .lacking _ e) hd hdspent he hkind
    obtain ⟨root', t, ht, hsame, harena⟩ := Entry.parser_joins
      (Fork.closes_lacking hlast heclosing) hentry (fun _ => Fork.returns_lacking) hbeside hne
      hs
    exact ⟨root', parseTokens_eq_ok.mpr ⟨t, ht, harena⟩, hsame⟩
  · intro hreturn root' arena' h
    obtain ⟨s, hs, rfl⟩ := parseTokens_eq_ok.mp h
    have hbeside := Parsing.beside_start (f := .having _ d) he heclosing hd hkind
    obtain ⟨root, t, ht, hsame, harena⟩ := Entry.parser_joins
      (Fork.closes_having hlast (.inl hdspent)) hentry
      (fun hstatements => Fork.returns_having (hreturn hstatements)) hbeside hne hs
    exact ⟨root, parseTokens_eq_ok.mpr ⟨t, ht, harena⟩, hsame.symm⟩

/-- A group of constants, the last without a value, in a file in which a
`return` comes earlier. -/
theorem parseTokens_finalSemi_group :
    ∃ ts last, ts ++ [last] = (Token.Stream.ofSource
        "package p; func f() \x7b return \x7d; const ( a = iota; b )").tokens.dropLast ∧
      (∀ t ∈ ts ++ [last], t.kind ≠ .eof) ∧ last.kind ≠ .semi ∧
      ∃ root root' arena', parseTokens (ts ++ [last]) .file 40 .empty = (.ok root, arena') ∧
        parseTokens (ts ++ [last, ⟨.semi, ";", .point .first⟩]) .file 40 .empty =
          (.ok root', arena') ∧
        root.SameButEnd root' := by
  let tokens := (Token.Stream.ofSource
    "package p; func f() \x7b return \x7d; const ( a = iota; b )").tokens.dropLast
  let last : Token := ⟨.rParen, ")", ⟨⟨1, 53⟩, ⟨1, 54⟩⟩⟩
  have htokens : tokens.dropLast ++ [last] = tokens := by decide +kernel
  have heof : ∀ t ∈ tokens.dropLast ++ [last], t.kind ≠ .eof := by decide +kernel
  have hok : (parseTokens (tokens.dropLast ++ [last]) .file 40 .empty).1.toOption.isSome =
      true := by
    decide +kernel
  cases h : parseTokens (tokens.dropLast ++ [last]) .file 40 .empty with
  | mk outcome arena' =>
    cases outcome with
    | error e =>
      rw [h] at hok
      exact nomatch hok
    | ok root =>
      have hsemi : (⟨.semi, ";", .point .first⟩ : Token).kind = .semi := rfl
      obtain ⟨root', h', hsame⟩ :=
        (parseTokens_finalSemi heof (by decide) hsemi (by decide) 40 .empty).1 root arena' h
      exact ⟨tokens.dropLast, last, htokens, heof, by decide, root, root', arena', h, h', hsame⟩

/-- With `return` as the last token the semicolon makes the difference. -/
theorem parseTokens_finalSemi_return :
    (parseTokens [⟨.kwReturn, "return", ⟨⟨1, 1⟩, ⟨1, 7⟩⟩⟩, ⟨.semi, ";", ⟨⟨1, 7⟩, ⟨1, 8⟩⟩⟩]
      .statements 10 .empty).1.toOption.isSome = true ∧
    (parseTokens [⟨.kwReturn, "return", ⟨⟨1, 1⟩, ⟨1, 7⟩⟩⟩]
      .statements 10 .empty).1.toOption.isSome = false := by
  decide +kernel

end GoSource
