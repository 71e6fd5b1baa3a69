/-
What a successful parse has read.

The limit on nesting is spent one by one, so that whatever is shown of a
production from what holds of the productions in it holds of every
production (`parse_sound`). For whole inputs this comes to one statement:
the tokens of the input, all of them, are derived as the root that is
returned (`parseStream_reads`).
-/
import GoSource.Parse
import GoSource.Proofs.Derivation.Declaration
import GoSource.Proofs.Lexing

namespace GoSource

open GoSource.Parser

-- ========================================================== productions

/-- A body keeps to what its production is to return, if further
productions do. -/
theorem body_reads {parse : SubParser} (hp : parse.Sound) {α : Type} (p : Production α)
    {m : Mode} {s : Parsing} (h : p.Startable m s) : (p.body parse).Reads m s (p.Meets m s) := by
  cases p with
  | expression => exact Grammar.binaryExpr_reads hp _ _
  | unaryExpr => exact Grammar.unaryExpr_reads hp
  | primaryExpr => exact Grammar.primaryExpr_reads hp
  | operand => exact Grammar.operand_reads hp
  | indexOrSlice x => exact Grammar.indexOrSlice_reads hp x
  | call f => exact Grammar.call_reads hp f
  | compositeLit t start => exact Grammar.compositeLit_reads hp t start
  | type => exact Grammar.type_reads hp
  | signature => exact Grammar.signature_reads hp
  | parameters => exact Grammar.parameters_reads hp
  | structType => exact Grammar.structType_reads hp
  | fieldDecl => exact Grammar.fieldDecl_reads hp
  | interfaceType => exact Grammar.interfaceType_reads hp
  | block => exact Grammar.block_reads hp
  | statement => exact Grammar.statement_reads hp
  | simpleStmt sm => exact Grammar.simpleStmt_reads hp
  | ifStmt => exact Grammar.ifStmt_reads hp
  | forStmt => exact Grammar.forStmt_reads hp
  | group k => exact Grammar.group_reads hp h
  | functionDecl => exact Grammar.functionDecl_reads hp
  | importDecl => exact Grammar.importDecl_reads
  | file =>
    subst h
    exact Grammar.file_reads hp
  | typeSwitchGuard => exact h.elim

/-- The trace is not looked at. -/
theorem Production.startable_trace {α : Type} {p : Production α} {m : Mode} {s : Parsing}
    {trace : List String} (h : p.Startable m s) : p.Startable m { s with trace } := by
  cases p <;> exact h

theorem Production.meets_trace {α : Type} {p : Production α} {m : Mode} {s s' : Parsing}
    {trace trace' : List String} {ts : List Token} {a : α}
    (h : p.Meets m { s with trace } ts a s') : p.Meets m s ts a { s' with trace := trace' } := by
  cases p <;> exact h

/-- Whatever the limit, a production returns what it is to return or
fails. -/
theorem parse_sound (depth : Nat) : SubParser.Sound (Grammar.parse depth) := by
  intro α p m s h
  induction depth generalizing α p m s with
  | zero => exact fun _ _ _ h => nomatch h
  | succ depth ih =>
    show (Grammar.parse (depth + 1) p).Reads m s _
    rw [Grammar.parse_succ]
    refine .during ((body_reads (fun p m s h => ih p m s h) p
      (Production.startable_trace h)).imp ?_)
    exact fun _ _ _ => Production.meets_trace

-- ========================================================= whole inputs

/-- The tokens of an input, and the root that an entry reads them as. -/
inductive ReadAs : Entry → List Token → Root → Prop where
  | expression : Derives (.expr .inside) ts x → Possibly .semi cs →
      ReadAs .expression (ts ++ cs) (.expr x)
  | declarations : Derives (.decls true true) ts ds → ReadAs .declarations ts (.decls ds)
  | file : Derives .file ts f → ReadAs .file ts (.file f)
  | statements : Derives (.stmts .inside) ts ss → ReadAs .statements ts (.stmts ss)
  | typeSwitchGuard : Derives (.simple .plain ⟨false, true⟩) ts ⟨form, sp⟩ →
      Grammar.isGuardStmt form = true → Possibly .semi cs →
      ReadAs .typeSwitchGuard (ts ++ cs) (.stmt ⟨i, sp, form⟩)

namespace Cursor

/-- The tokens before the end of the input. -/
def tokens (c : Cursor) : List Token :=
  if c.current.kind = .eof then [] else c.current :: c.ahead.tokens

theorem tokens_next {c : Cursor} (h : c.ahead.Proper) : c.next.tokens = c.ahead.tokens := by
  obtain ⟨current, ⟨lexemes, trailing, stop⟩, previousEnd⟩ := c
  cases lexemes with
  | nil => rfl
  | cons l rest =>
    have hl : l.token.kind ≠ .eof := h l.token (by simp [Token.Stream.tokens])
    exact if_neg hl

theorem proper_next {c : Cursor} (h : c.ahead.Proper) : c.next.ahead.Proper := by
  obtain ⟨current, ⟨lexemes, trailing, stop⟩, previousEnd⟩ := c
  cases lexemes with
  | nil => exact h
  | cons l rest => exact fun t ht => h t (List.mem_cons_of_mem _ ht)

/-- What is taken up to the end is all there was. -/
theorem Takes.eq_tokens {c d : Cursor} {ts : List Token} (h : c.Takes ts d)
    (hd : d.current.kind = .eof) (hc : c.ahead.Proper) : ts = c.tokens := by
  induction ts generalizing c with
  | nil =>
    obtain rfl := takes_nil.mp h
    rw [tokens, if_pos hd]
  | cons t ts ih =>
    obtain ⟨rfl, ht, h⟩ := takes_cons.mp h
    rw [tokens, if_neg ht, ih h (proper_next hc), tokens_next hc]

end Cursor

variable {stream : Token.Stream} {arena : Arena}

theorem ready_start : (Parsing.start stream arena).Ready .inside := by
  refine ⟨rfl, nofun, ?_⟩
  obtain ⟨lexemes, trailing, stop⟩ := stream
  unfold Parsing.Fueled Cursor.left
  cases lexemes with
  | nil => exact Nat.zero_lt_one
  | cons l rest =>
    split
    · exact Nat.zero_lt_succ _
    · exact Nat.lt_succ_self _

/-- A passage from the start to the end is over all tokens. -/
theorem tokens_of_passes {s : Parsing} {ts : List Token} (hstream : stream.Proper)
    (h : (Parsing.start stream arena).Passes ts s) (hs : s.current.kind = .eof) :
    ts = stream.tokens := by
  rw [h.takes.eq_tokens hs (Cursor.proper_next (c := ⟨.atEnd .nowhere, stream, .nowhere⟩) hstream)]
  exact Cursor.tokens_next (c := ⟨.atEnd .nowhere, stream, .nowhere⟩) hstream

/-- A guard is read where it is acceptable, and it is the only one. -/
theorem guard_reads {depth : Nat} {stmt : Stmt} {s s' : Parsing} (hs : s.Ready .inside)
    (h : Grammar.parse depth .typeSwitchGuard s = .ok stmt s') :
    ∃ ts s₁, s.Passes ts s₁ ∧ s₁.current.kind = .eof ∧
      ReadAs .typeSwitchGuard ts (.stmt stmt) ∧ ∀ x ∈ stmt.form.last, Lone ⟨false, true⟩ x := by
  cases depth with
  | zero => cases h
  | succ depth =>
    have hp : SubParser.Sound (Grammar.parse depth) := parse_sound depth
    rw [Grammar.parse_succ, during] at h
    split at h
    · next b s₂ hb =>
      cases h
      obtain ⟨_, s₁, hallow, hb⟩ := bind_eq_ok.mp hb
      cases hallow
      obtain ⟨⟨form, sp⟩, s₃, hdraft, hb⟩ := bind_eq_ok.mp hb
      obtain ⟨_, s₄, hallow, hb⟩ := bind_eq_ok.mp hb
      cases hallow
      have hready : Parsing.Ready ⟨false, true⟩ { s with
          trace := Production.typeSwitchGuard.name :: s.trace, guardAllowed := true } :=
        ⟨hs.inHeader, fun _ => rfl, hs.fueled⟩
      obtain ⟨ts, hts, hdraft, hset⟩ := hp.simpleStmt hready _ _ hdraft
      have hpass : s.Passes ts { s₃ with guardAllowed := false } :=
        ⟨hts.takes, hts.inHeader, by simp, hts.turns⟩
      split at hb
      · next hguard =>
        obtain ⟨_, s₅, hkeep, hb⟩ := bind_eq_ok.mp hb
        cases hkeep
        obtain ⟨_, s₆, hsemi, hb⟩ := bind_eq_ok.mp hb
        obtain ⟨_, s₇, heof, hb⟩ := bind_eq_ok.mp hb
        cases hb
        have hready := hs.passes hpass
        have hread := fun hr => eat_possibly (m := .inside) (by decide) hr _ _ hsemi
        obtain ⟨cs, hcs, hsemi⟩ := hread ⟨hready.inHeader, hready.guard, hready.fueled⟩
        refine ⟨ts ++ cs, s₆, hpass.trans ⟨hcs.takes, hcs.inHeader, hcs.guard, hcs.turns⟩, ?_⟩
        exact ⟨expect_eq_ok heof, .typeSwitchGuard hdraft hguard hsemi, fun x hx => (hset x hx).2⟩
      · exact absurd hb unexpectedAt_ne_ok
    · cases h

/-- What the parser for an entry returns is what the tokens up to the end
are read as. -/
theorem entry_reads {depth : Nat} (entry : Entry) {root : Root} {s s' : Parsing}
    (hs : s.Ready .inside) (h : entry.parser (Grammar.parse depth) s = .ok root s') :
    ∃ ts s₁, s.Passes ts s₁ ∧ s₁.current.kind = .eof ∧ ReadAs entry ts root := by
  have hp : SubParser.Sound (Grammar.parse depth) := parse_sound depth
  cases entry with
  | expression =>
    obtain ⟨x, hrun, rfl⟩ := map_eq_ok.mp h
    obtain ⟨_, s₁, hx, hrun⟩ := bind_eq_ok.mp hrun
    obtain ⟨_, s₂, hsemi, hrun⟩ := bind_eq_ok.mp hrun
    obtain ⟨_, s₃, heof, hrun⟩ := bind_eq_ok.mp hrun
    cases hrun
    obtain ⟨ts, hts, hx⟩ := hp.anyExpression hs _ _ hx
    obtain ⟨cs, hcs, hsemi⟩ := eat_possibly (by decide) (hs.passes hts) _ _ hsemi
    exact ⟨ts ++ cs, s₂, hts.trans hcs, expect_eq_ok heof, .expression hx hsemi⟩
  | declarations =>
    obtain ⟨ds, hrun, rfl⟩ := map_eq_ok.mp h
    obtain ⟨ts, hts, hds, heof⟩ := Grammar.declarations_reads hp hs _ _ hrun
    exact ⟨ts, s', hts, heof, .declarations hds⟩
  | file =>
    obtain ⟨f, hrun, rfl⟩ := map_eq_ok.mp h
    obtain ⟨ts, hts, hf, heof⟩ := hp .file .inside s rfl hs _ _ hrun
    exact ⟨ts, s', hts, heof, .file hf⟩
  | statements =>
    obtain ⟨ss, hrun, rfl⟩ := map_eq_ok.mp h
    obtain ⟨_, s₁, hss, hrun⟩ := bind_eq_ok.mp hrun
    obtain ⟨_, s₂, heof, hrun⟩ := bind_eq_ok.mp hrun
    cases hrun
    obtain ⟨ts, hts, hss⟩ := Grammar.stmtList_reads hp hs _ _ hss
    exact ⟨ts, s₁, hts, expect_eq_ok heof, .statements hss⟩
  | typeSwitchGuard =>
    obtain ⟨stmt, hrun, rfl⟩ := map_eq_ok.mp h
    obtain ⟨ts, s₁, hpass, heof, hread, -⟩ := guard_reads hs hrun
    exact ⟨ts, s₁, hpass, heof, hread⟩

/-- A root that is returned is what the tokens are read as, all of
them. -/
theorem parseStream_reads {entry : Entry} {maxDepth : Nat} {root : Root}
    (hstream : stream.Proper)
    (h : (parseStream stream entry maxDepth arena).1 = .ok root) :
    ReadAs entry stream.tokens root := by
  unfold parseStream at h
  split at h
  · next root' s' hs =>
    obtain rfl : root' = root := by injection h
    obtain ⟨ts, s₁, hpass, heof, hread⟩ := entry_reads entry ready_start hs
    rwa [tokens_of_passes hstream hpass heof] at hread
  · cases h

end GoSource
