/-
Whole inputs in two runs.

The limit on nesting is spent one by one, so two ways to parse productions
that keep step keep step with one production more around each
(`Together.deeper`). What an entry makes of a whole input is then put
together from productions that keep step (`entry_finished`). The end of
the input is taken by an entry alone, and only if all else has succeeded.
-/
import GoSource.Proofs.Running.Declaration

namespace GoSource

open GoSource.Parser

variable {α β : Type} {s s' : Parsing} {ts us : List Token}

-- ========================================================= whole inputs

namespace Parsing

/-- Tokens with a use have been taken, whatever else has changed. -/
structure Took (s : Parsing) (ts : List Token) (s' : Parsing) : Prop where
  takes : s.cursor.Takes ts s'.cursor
  taken : s'.taken = s.taken + ts.length
  used : ∀ t ∈ ts, t.kind.hasUse = true

theorem Moves.took (h : s.Moves ts s') : s.Took ts s' := ⟨h.takes, h.taken, h.used⟩

theorem Took.allowGuard (s : Parsing) (allowed : Bool) :
    s.Took [] { s with guardAllowed := allowed } := ⟨rfl, rfl, nofun⟩

theorem Took.trans {s'' : Parsing} (h : s.Took ts s') (h' : s'.Took us s'') :
    s.Took (ts ++ us) s'' := by
  refine ⟨h.takes.append h'.takes, ?_, ?_⟩
  · rw [h'.taken, h.taken, List.length_append, Nat.add_assoc]
  · intro t ht
    rcases List.mem_append.mp ht with ht | ht
    · exact h.used t ht
    · exact h'.used t ht

end Parsing

/-- What two runs over a whole input have come to. A run that succeeds has
taken all tokens, and possibly the end of the input after them. -/
inductive Finished (T : Terms) (o : Cursor) (s : Parsing) :
    EStateM.Result ParseError Parsing α → EStateM.Result ParseError Parsing α → Prop where
  | atEnd {a : α} {ts : List Token} {s' : Parsing} (hs : s.Took ts s')
      (heof : s'.current.kind = .eof) : Finished T o s (.ok a s') (.ok a s')
  | pastEnd {a : α} {ts : List Token} {s₁ s' : Parsing} (hs : s.Took ts s₁)
      (heof : s₁.current.kind = .eof) (hcursor : s'.cursor = s₁.cursor.next)
      (htaken : s'.taken = s₁.taken + 1) : Finished T o s (.ok a s') (.ok a s')
  | error {e : ParseError} {ts : List Token} {s' : Parsing} (hs : s.Took ts s')
      (he : e.Founded T.limit T.short o s'.cursor) : Finished T o s (.error e s') (.error e s')
  | excused {e : ParseError} {ts : List Token} {s' : Parsing}
      {y : EStateM.Result ParseError Parsing α} (hs : s.Took ts s')
      (he : e.Founded T.limit T.short o s'.cursor) (hex : T.excused e) :
      Finished T o s (.error e s') y

namespace Finished

variable {T : Terms} {o : Cursor} {x y : EStateM.Result ParseError Parsing α}

theorem after (h : Finished T o s' x y) (hs : s.Took ts s') : Finished T o s x y := by
  cases h with
  | atEnd hs' heof => exact .atEnd (hs.trans hs') heof
  | pastEnd hs' heof hcursor htaken => exact .pastEnd (hs.trans hs') heof hcursor htaken
  | error hs' he => exact .error (hs.trans hs') he
  | excused hs' he hex => exact .excused (hs.trans hs') he hex

theorem weaken {T' : Terms} (h : Finished T o s x y) (hlimit : T.limit = T'.limit)
    (hshort : T.short → T'.short) (hexcused : ∀ e, T.excused e → T'.excused e) :
    Finished T' o s x y := by
  cases h with
  | atEnd hs heof => exact .atEnd hs heof
  | pastEnd hs heof hcursor htaken => exact .pastEnd hs heof hcursor htaken
  | error hs he => exact .error hs (hlimit ▸ he.weaken (Cursor.takes_nil.mpr rfl) hshort)
  | excused hs he hex =>
    exact .excused hs (hlimit ▸ he.weaken (Cursor.takes_nil.mpr rfl) hshort) (hexcused _ hex)

/-- A parser of which it is known what it does. -/
theorem step {p : Parser α} {a : α} {u v : α → Parser β} (ha : p s = .ok a s') (hs : s.Took ts s')
    (h : Finished T o s' (u a s') (v a s')) : Finished T o s ((p >>= u) s) ((p >>= v) s) := by
  have hbind : ∀ w : α → Parser β, (p >>= w) s = w a s' := by
    intro w
    simp only [Bind.bind, EStateM.bind, ha]
  rw [hbind, hbind]
  exact h.after hs

/-- What comes last is to finish the input. -/
theorem bind {p q : Parser α} {u v : α → Parser β} (h : Joint T o s (p s) (q s))
    (huv : ∀ a ts s', p s = .ok a s' → s.Moves ts s' → Finished T o s' (u a s') (v a s')) :
    Finished T o s ((p >>= u) s) ((q >>= v) s) := by
  simp only [Bind.bind, EStateM.bind]
  generalize p s = x at h huv
  generalize q s = y at h
  cases h with
  | ok hs => exact (huv _ _ _ rfl hs).after hs.took
  | error hs he => exact .error hs.took he
  | excused hs he hex => exact .excused hs.took he hex

theorem map {p q : Parser α} {g : α → β} (h : Finished T o s (p s) (q s)) :
    Finished T o s ((g <$> p) s) ((g <$> q) s) := by
  simp only [Functor.map, EStateM.map]
  generalize p s = x at h
  generalize q s = y at h
  cases h with
  | atEnd hs heof => exact .atEnd hs heof
  | pastEnd hs heof hcursor htaken => exact .pastEnd hs heof hcursor htaken
  | error hs he => exact .error hs he
  | excused hs he hex => exact .excused hs he hex

theorem during {name : String} {p q : Parser α}
    (h : Finished T o { s with trace := name :: s.trace } (p { s with trace := name :: s.trace })
      (q { s with trace := name :: s.trace })) :
    Finished T o s (Parser.during name p s) (Parser.during name q s) := by
  unfold Parser.during
  generalize p _ = x at h
  generalize q _ = y at h
  cases h with
  | atEnd hs heof => exact .atEnd ⟨hs.takes, hs.taken, hs.used⟩ heof
  | pastEnd hs heof hcursor htaken =>
    exact .pastEnd ⟨hs.takes, hs.taken, hs.used⟩ heof hcursor htaken
  | error hs he => exact .error ⟨hs.takes, hs.taken, hs.used⟩ he
  | excused hs he hex => exact .excused ⟨hs.takes, hs.taken, hs.used⟩ he hex

end Finished

namespace Finished

variable {T : Terms} {o : Cursor} {x y : EStateM.Result ParseError Parsing α}

/-- Where the first run has no excuse, there is but one run. -/
theorem eq_of_not_excused (h : Finished T o s x y)
    (hx : ∀ e s', x = .error e s' → ¬ T.excused e) : x = y := by
  cases h with
  | atEnd => rfl
  | pastEnd => rfl
  | error => rfl
  | excused hs he hex => exact absurd hex (hx _ _ rfl)

theorem founded {e : ParseError} (h : Finished T o s (.error e s') y) :
    e.Founded T.limit T.short o s'.cursor := by
  cases h with
  | error hs he => exact he
  | excused hs he hex => exact he

end Finished

/-- A production that stops at the end of the input. -/
theorem Joint.finished {T : Terms} {o : Cursor} {p q : Parser α} (h : Joint T o s (p s) (q s))
    (heof : ∀ a s', p s = .ok a s' → s'.current.kind = .eof) : Finished T o s (p s) (q s) := by
  generalize p s = x at h heof
  generalize q s = y at h
  cases h with
  | ok hs => exact .atEnd hs.took (heof _ _ rfl)
  | error hs he => exact .error hs.took he
  | excused hs he hex => exact .excused hs.took he hex

namespace Pairing

variable {T : Pairing} {r : Nat}

/-- The end of the input is wanted, and then nothing more. -/
theorem finish {a : α} (hs : T.Fits r s) :
    Finished T.terms T.origin s ((expect .eof >>= fun _ => pure a : Parser α) s)
      ((expect .eof >>= fun _ => pure a : Parser α) s) := by
  by_cases hk : s.current.kind = .eof
  · have hrun : (expect .eof >>= fun _ => pure a : Parser α) s = .ok a s.next :=
      bind_eq_ok.mpr ⟨_, _, expect_at hk, rfl⟩
    rw [hrun]
    exact .pastEnd (Parsing.Moves.refl s).took hk rfl rfl
  · have hexpect : T.Abreast r s (expect .eof) (expect .eof) :=
      .bind_isAt (fun h => absurd h hk) fun _ => .unexpected
    refine .bind (hexpect hs) fun _ _ _ ha _ => ?_
    exact absurd (expect_eq_ok ha) hk

/-- A semicolon may stand before the end. -/
theorem finishSemi {a : α} (hs : T.Fits r s) :
    Finished T.terms T.origin s
      ((eat .semi >>= fun _ => expect .eof >>= fun _ => pure a : Parser α) s)
      ((eat .semi >>= fun _ => expect .eof >>= fun _ => pure a : Parser α) s) :=
  .bind (Abreast.eat rfl hs) fun _ _ _ _ hmoves => finish (hs.moves hmoves)

/-- A guard is allowed before the statement is read, and no longer when
the end is looked for. -/
theorem typeSwitchGuard_finished (hr : 6 < r) (hs : T.Fits r s) :
    Finished T.terms T.origin s (Grammar.typeSwitchGuard T.first s)
      (Grammar.typeSwitchGuard T.second s) := by
  have hallowed : T.Fits r { s with guardAllowed := true } :=
    ⟨hs.fueled, hs.active, hs.taken, hs.cost⟩
  refine .step (p := allowGuard true) rfl (.allowGuard s true)
    (.bind ?_ fun draft ts s₁ hrun hmoves => ?_)
  · exact Abreast.production hr (fun _ => trivial) hallowed
  have hfits := hallowed.moves (hmoves.trans (.disallowGuard s₁))
  have hstopped : T.origin.Stopped s₁.cursor draft.span := by
    obtain ⟨us, hus, hdraft⟩ := Grammar.simpleStmt_stops T.sound hallowed.ready draft s₁ hrun
    exact hallowed.stopped hdraft
  refine .step (p := allowGuard false) rfl (.allowGuard s₁ false) ?_
  split
  · refine .bind (Grammar.keep_abreast hfits) fun _ _ _ _ hkept => ?_
    exact finishSemi (hfits.moves hkept)
  · have herror : T.Abreast r { s₁ with guardAllowed := false }
        (unexpectedAt draft.span "type switch guard" "statement" : Parser Stmt)
        (unexpectedAt draft.span "type switch guard" "statement") :=
      .unexpectedAt (by decide) hstopped
    exact (herror hfits).finished fun _ _ ha => absurd ha unexpectedAt_ne_ok

end Pairing

-- ================================================== one production more

/-- Two ways to parse productions that keep step, when `depth` more may
become active up to a limit. -/
structure Together (excused : ParseError → Prop) (limit depth : Nat) (f g : SubParser) : Prop where
  sound : f.Sound
  production : ∀ {α : Type} (p : Production α) (m : Mode) (s : Parsing), p.Startable m s →
    s.Ready m → s.trace.length + depth = limit →
      Joint ⟨limit, depth ≤ s.cost p, excused⟩ s.cursor s (f p s) (g p s)
  guard : ∀ s : Parsing, s.Ready .inside → s.trace.length + depth = limit →
    Finished ⟨limit, depth ≤ s.cost .typeSwitchGuard, excused⟩ s.cursor s (f .typeSwitchGuard s)
      (g .typeSwitchGuard s)

namespace Together

variable {excused : ParseError → Prop} {limit depth : Nat} {f g : SubParser}

/-- The two ways, as a production that becomes active at a state has
them. -/
def pairing (h : Together excused limit depth f g) (s : Parsing) (active reach : Nat)
    (hactive : active + depth = limit) : Pairing where
  first := f
  second := g
  origin := s.cursor
  active := active
  room := depth
  reach := reach
  excused := excused
  sound := h.sound
  together := by
    intro α p m s hp hm hs
    have hlimit : s.trace.length + depth = limit := by rw [hs, hactive]
    rw [hactive]
    exact h.production p m s hp hm hlimit

theorem fits (h : Together excused limit depth f g) {s : Parsing} {m : Mode} {reach r : Nat}
    (hs : s.Ready m) (hlimit : s.trace.length + depth = limit)
    (hcost : 8 * s.cursor.left + r ≤ reach) : (h.pairing s s.trace.length reach hlimit).Fits r s :=
  ⟨hs.fueled, rfl, ⟨[], rfl⟩, hcost⟩

end Together

/-- The body of a production keeps step if what it calls for does. -/
theorem body_abreast {T : Pairing} {p : Production α} {m : Mode} (hp : p.Startable m s) :
    T.Abreast p.rank s (p.body T.first) (p.body T.second) := by
  cases p with
  | expression => exact Grammar.binaryExpr_abreast _ _ (by decide)
  | unaryExpr => exact Grammar.unaryExpr_abreast (by decide)
  | primaryExpr => exact Grammar.primaryExpr_abreast (by decide)
  | operand => exact Grammar.operand_abreast (by decide)
  | indexOrSlice x => exact Grammar.indexOrSlice_abreast
  | call f => exact Grammar.call_abreast
  | compositeLit t start => exact Grammar.compositeLit_abreast
  | type => exact Grammar.type_abreast (by decide)
  | signature => exact Grammar.signature_abreast (by decide)
  | parameters => exact Grammar.parameters_abreast
  | structType => exact Grammar.structType_abreast
  | fieldDecl => exact Grammar.fieldDecl_abreast
  | interfaceType => exact Grammar.interfaceType_abreast
  | block => exact Grammar.block_abreast
  | statement => exact Grammar.statement_abreast (by decide)
  | simpleStmt sm => exact Grammar.simpleStmt_abreast (Nat.lt_succ_self 5)
  | ifStmt => exact Grammar.ifStmt_abreast
  | forStmt => exact Grammar.forStmt_abreast
  | group k => exact Grammar.group_abreast hp
  | functionDecl => exact Grammar.functionDecl_abreast
  | importDecl => exact Grammar.importDecl_abreast
  | file => exact Grammar.file_abreast
  | typeSwitchGuard => exact hp.elim

namespace Together

variable {excused : ParseError → Prop} {limit depth : Nat} {f g f' g' : SubParser}

/-- With one production more around each, two ways that keep step keep
step. -/
theorem deeper (h : Together excused limit depth f g) (hsound : f'.Sound)
    (hf : ∀ {α : Type} (p : Production α) (s : Parsing),
      f' p s = Parser.during p.name (p.body f) s)
    (hg : ∀ {α : Type} (p : Production α) (s : Parsing), s.trace.length + (depth + 1) = limit →
      g' p s = Parser.during p.name (p.body g) s) :
    Together excused limit (depth + 1) f' g' where
  sound := hsound
  production := by
    intro α p m s hp hm hlimit
    have hactive : (p.name :: s.trace).length + depth = limit := by
      rw [List.length_cons, Nat.add_right_comm, Nat.add_assoc]
      exact hlimit
    have hinside : Parsing.Ready m { s with trace := p.name :: s.trace } :=
      ⟨hm.inHeader, hm.guard, hm.fueled⟩
    have hbody := body_abreast (Production.startable_trace hp)
      (h.fits hinside hactive (Nat.le_refl (s.cost p)))
    rw [hf, hg p s hlimit]
    exact .during (hbody.weaken (Cursor.takes_nil.mpr rfl) hactive id fun _ => id)
  guard := by
    intro s hm hlimit
    have hactive : (Production.typeSwitchGuard.name :: s.trace).length + depth = limit := by
      rw [List.length_cons, Nat.add_right_comm, Nat.add_assoc]
      exact hlimit
    have hinside : Parsing.Ready .inside
        { s with trace := Production.typeSwitchGuard.name :: s.trace } :=
      ⟨hm.inHeader, hm.guard, hm.fueled⟩
    have hbody := Pairing.typeSwitchGuard_finished (Nat.lt_succ_self 6)
      (h.fits hinside hactive (Nat.le_refl (s.cost .typeSwitchGuard)))
    rw [hf, hg _ s hlimit]
    exact .during (hbody.weaken hactive id fun _ => id)

/-- Two ways that keep step make the same of a whole input. -/
theorem entry_finished (h : Together excused limit depth f g) (entry : Entry)
    (hs : s.Ready .inside) (hlimit : s.trace.length + depth = limit) :
    Finished ⟨limit, depth < 8 * s.cursor.left + 8, excused⟩ s.cursor s (entry.parser f s)
      (entry.parser g s) := by
  have hfits := h.fits hs hlimit (Nat.le_refl (8 * s.cursor.left + 8))
  have hweaken : ∀ {α : Type} {x y : EStateM.Result ParseError Parsing α},
      Finished (h.pairing s s.trace.length (8 * s.cursor.left + 8) hlimit).terms s.cursor s x y →
        Finished ⟨limit, depth < 8 * s.cursor.left + 8, excused⟩ s.cursor s x y :=
    fun hxy => hxy.weaken hlimit id fun _ => id
  cases entry with
  | expression =>
    refine .map (hweaken (.bind (Pairing.Abreast.further (fun _ => trivial) hfits) ?_))
    exact fun _ _ _ _ hmoves => Pairing.finishSemi (hfits.moves hmoves)
  | declarations =>
    refine .map (hweaken ((Grammar.declarations_abreast (by decide) hfits).finished ?_))
    intro ds s' hrun
    obtain ⟨ts, -, -, heof⟩ := Grammar.declarations_reads h.sound hs ds s' hrun
    exact heof
  | file =>
    have hfile := (h.production .file .inside s rfl hs hlimit).finished fun file s' hrun => by
      obtain ⟨ts, -, -, heof⟩ := h.sound .file .inside s rfl hs file s' hrun
      exact heof
    exact .map (hfile.weaken rfl (Nat.lt_of_le_of_lt · (s.cost_lt _)) fun _ => id)
  | statements =>
    refine .map (hweaken (.bind (Grammar.stmtList_abreast (by decide) hfits) ?_))
    exact fun _ _ _ _ hmoves => Pairing.finish (hfits.moves hmoves)
  | typeSwitchGuard =>
    exact .map ((h.guard s hs hlimit).weaken rfl (Nat.lt_of_le_of_lt · (s.cost_lt _)) fun _ => id)

end Together

-- ============================================================== results

/-- An error that a parse returns is one that its run has ended with. -/
theorem parseStream_error {stream : Token.Stream} {entry : Entry} {maxDepth : Nat} {arena : Arena}
    {e : ParseError} (h : (parseStream stream entry maxDepth arena).1 = .error e) :
    ∃ s, entry.parser (Grammar.parse maxDepth) (.start stream arena) = .error e s := by
  unfold parseStream at h
  split at h
  · exact nomatch h
  · next e' s hs =>
    obtain rfl : e' = e := by injection h
    exact ⟨s, hs⟩

theorem parseStream_ok {stream : Token.Stream} {entry : Entry} {maxDepth : Nat} {arena : Arena}
    {root : Root} (h : (parseStream stream entry maxDepth arena).1 = .ok root) :
    ∃ s, entry.parser (Grammar.parse maxDepth) (.start stream arena) = .ok root s := by
  unfold parseStream at h
  split at h
  · next root' s hs =>
    obtain rfl : root' = root := by injection h
    exact ⟨s, hs⟩
  · exact nomatch h

theorem parseStream_of_ok {stream : Token.Stream} {entry : Entry} {maxDepth : Nat} {arena : Arena}
    {root : Root} {s : Parsing}
    (h : entry.parser (Grammar.parse maxDepth) (.start stream arena) = .ok root s) :
    (parseStream stream entry maxDepth arena).1 = .ok root := by
  unfold parseStream
  rw [h]

end GoSource
