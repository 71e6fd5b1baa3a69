/-
Every declaration is documented by what stands in front of it.

The productions that see comments are looked at one by one, all others are
woven. Where a declaration asks for its comments, it has taken nothing, and
where it is complete, it is known from what it was read; together this is
what is recorded of it (`Parser.Keeps.of_begins`).

A group is parsed at its keyword, and otherwise its first token could be
any. It is the callers who see to that, and this does not show in what they
are woven from; so they are taken to ask for groups in a way that fails
without the keyword, which for them makes no difference
(`Production.body_heeding`).
-/
import GoSource.Proofs.Documentation.Recorded
import GoSource.Proofs.Parsing.Yields
import GoSource.Proofs.Running.Abreast

namespace GoSource

open GoSource.Parser

variable {α β : Type} {stream : Token.Stream} {s s' : Parsing} {lines : List String}
  {parse : SubParser}

-- ================================================================ groups

/-- Further productions, where a group is parsed at its keyword only. -/
def SubParser.heeding (parse : SubParser) : SubParser
  | _, .group k => do
    if (← isAt k.keyword) then parse (.group k) else unexpected k.keyword.describe
  | _, p => parse p

namespace Grammar

theorem heeding_group {k : GroupKind} (hk : s.current.kind = k.keyword) :
    parse.heeding (.group k) s = parse (.group k) s := by
  show (if decide (s.current.kind = k.keyword) = true then parse (.group k)
    else unexpected k.keyword.describe) s = _
  rw [if_pos (decide_eq_true hk)]

theorem heeding_group_ne_ok {k : GroupKind} {ds : List Decl} (hk : s.current.kind ≠ k.keyword) :
    parse.heeding (.group k) s ≠ .ok ds s' := by
  show (if decide (s.current.kind = k.keyword) = true then parse (.group k)
    else unexpected k.keyword.describe) s ≠ _
  rw [if_neg fun h => hk (of_decide_eq_true h)]
  exact unexpected_ne_ok

theorem heeding_of_not_documents {p : Production α} (hp : p.documents = false) :
    SubParser.heeding parse p = parse p := by
  cases p <;> first | rfl | exact nomatch hp

theorem statement_heeding : statement parse.heeding = statement parse := by
  funext s
  have hdecl {k : GroupKind} (hk : s.current.kind = k.keyword) :
      declStmt parse.heeding s.current.span.start k s =
        declStmt parse s.current.span.start k s := by
    unfold declStmt
    simp only [Bind.bind, EStateM.bind, heeding_group hk]
  unfold statement
  simp only [Bind.bind, EStateM.bind, here, kind]
  cases hk : s.current.kind <;> first | rfl | exact hdecl hk

theorem topLevelDecl_heeding : topLevelDecl parse.heeding = topLevelDecl parse := by
  funext s
  unfold topLevelDecl
  simp only [Bind.bind, EStateM.bind, kind]
  cases hk : s.current.kind <;> first | rfl | exact heeding_group hk

end Grammar

open Grammar in
/-- Bodies ask for groups at their keywords. -/
theorem Production.body_heeding (p : Production α) : p.body parse.heeding = p.body parse := by
  cases p with
  | statement => exact statement_heeding
  | file =>
    show Grammar.file parse.heeding = Grammar.file parse
    unfold Grammar.file
    rw [topLevelDecl_heeding]
    rfl
  | _ => rfl

open Grammar in
theorem Entry.parser_heeding (entry : Entry) : entry.parser parse.heeding = entry.parser parse := by
  cases entry with
  | declarations =>
    have hany : anyDecl parse.heeding = anyDecl parse := by
      unfold anyDecl
      rw [topLevelDecl_heeding]
      rfl
    show Root.decls <$> declsWith (anyDecl parse.heeding) = _
    rw [hany]
    rfl
  | _ => rfl

-- ========================================================== declarations

namespace Parser

variable {p q : Parser α} {u : α → Parser Decl}

/-- What is begun may depend on what is known of the first result. -/
theorem Begins.bind_yields {P : α → Prop} (hp : p.Renews stream) (hyields : p.Yields P)
    (hu : ∀ x, P x → (u x).Completes stream lines) : (p >>= u).Begins stream lines := by
  intro s d s' hs hd
  obtain ⟨x, s₁, hx, hd⟩ := bind_eq_ok.mp hd
  exact hu x (hyields s x s₁ hx) s₁ d s' (hp s x s₁ hs hx) hd

theorem Completes.ite {c : Prop} [Decidable c] {p q : Parser Decl}
    (hp : p.Completes stream lines) (hq : q.Completes stream lines) :
    (if c then p else q).Completes stream lines := by
  split
  · exact hp
  · exact hq

/-- A choice by something that has been looked at, after which both ways
meet. -/
theorem Completes.joinChoice {c : Parser Bool} (hc : c.Keeps stream) (hp : p.Keeps stream)
    (hq : q.Keeps stream) (hu : ∀ x, (u x).Completes stream lines) :
    (c >>= fun b => if b = true then p >>= u else q >>= u).Completes stream lines :=
  .bind hc fun _ => .ite (.bind hp hu) (.bind hq hu)

/-- A declaration that asks for its comments where it starts. -/
theorem Keeps.of_begins {q : Location → List String → Parser Decl}
    (hreads : ∀ m s, (here >>= fun start => doc start >>= q start).Reads m s fun ts d _ =>
      d.Written ts ∧ ts ≠ [])
    (hq : ∀ start lines, (q start lines).Begins stream lines) :
    (here >>= fun start => doc start >>= q start).Keeps stream := by
  intro s d s' hs hd
  obtain ⟨ts, hpass, hwritten, hne⟩ := hreads _ s hs.recorded.ready d s' hd
  obtain ⟨k, hk, hcomments⟩ := hs.reached
  have hcurrent : s.current = (stream.call k).token := hk.current
  have hprevious : s.previousEnd = stream.endBefore k := hk.previousEnd
  obtain ⟨start, _, hstart, hd⟩ := bind_eq_ok.mp hd
  cases hstart
  obtain ⟨lines, s₁, hlines, hd⟩ := bind_eq_ok.mp hd
  cases hlines
  obtain ⟨hdoc, hfresh⟩ := hq _ _ _ d s' (hs.spent.addDocLines _) hd
  refine hfresh ⟨k, ts, s.comments, hwritten, hne, hk.drop_tokens hpass.takes, hcomments, ?_⟩
  rw [hdoc, hcurrent, hprevious]

end Parser

namespace Grammar

section

variable (hproper : stream.Proper)

include hproper

theorem ident_renews : Parser.ident.Renews stream := by
  refine .need (.bind (.advance hproper) fun t => .bind ?_ fun _ => .pure _) fun _ _ _ =>
    unexpected_ne_ok
  exact .of_still (g := fun s => { s with arena := s.arena.addName t.text }) fun _ h =>
    ⟨h.reached, h.fueled, h.decls⟩

variable (hparse : ∀ {α : Type} (p : Production α), p.documents = false → (parse p).Keeps stream)

include hparse

theorem names_renews : (commaSeparated Parser.ident).Renews stream := by
  refine .bind (ident_renews hproper) fun first => ?_
  have hnames : Composed parse (afterCommas Parser.ident first) :=
    afterCommas_composed .names rfl first
  exact hnames.keeps hproper hparse

theorem constSpec_renews {iota : Nat} : (constSpec parse lines iota).Renews stream := by
  refine .bind (names_renews hproper hparse) fun names => ?_
  have finish (t : Option TypeExpr) (values : List Expr) : Composed parse (do
      recording (·.addIdents names)
      recording (·.addExprs values)
      Pure.pure (⟨lines, names, t, values, iota⟩ : ConstSpec)) :=
    .after fun _ => .after fun _ => .pure _
  refine Composed.keeps hproper hparse (.after fun t => .after fun values => ?_)
  cases values with
  | some values => exact finish t values
  | none => exact .ite (.after fun values => finish t values) (finish t [])

theorem varSpec_renews : (varSpec parse lines).Renews stream := by
  refine .bind (names_renews hproper hparse) fun names => ?_
  have finish (t : Option TypeExpr) : Composed parse (do
      let values := (← initializer parse).getD []
      recording (·.addIdents names)
      recording (·.addExprs values)
      Pure.pure (⟨lines, names, t, values⟩ : VarSpec)) :=
    .after fun _ => .after fun _ => .after fun _ => .pure _
  exact Composed.keeps hproper hparse (.joinChoice (.pure _) (.map inferInstance) finish)

theorem typeSpec_renews : (typeSpec parse lines).Renews stream := by
  refine .bind (ident_renews hproper) fun name => ?_
  exact Composed.keeps hproper hparse (.after fun _ => .after fun _ => .pure _)

theorem spec_begins (k : GroupKind) (start : Location) (iota : Nat) :
    (spec parse k lines start iota).Begins stream lines := by
  have finish (form : DeclForm) (hform : form.doc = lines) :
      (spanFrom start >>= newDecl form).Completes stream lines :=
    .bind (Composed.keeps hproper hparse inferInstance) fun _ => .newDecl hform
  cases k with
  | const =>
    refine .bind_yields (constSpec_renews hproper hparse).map (.map ?_) finish
    refine .bind_any fun names => .bind_any fun t => .bind_any fun values => ?_
    have filled (values : List Expr) : Parser.Yields (do
        recording (·.addIdents names)
        recording (·.addExprs values)
        Pure.pure (⟨lines, names, t, values, iota⟩ : ConstSpec)) (·.doc = lines) :=
      .bind_any fun _ => .bind_any fun _ => .pure rfl
    cases values with
    | some values => exact filled values
    | none => exact .ite (fun _ => .bind_any fun values => filled values) fun _ => filled []
  | var =>
    refine .bind_yields (varSpec_renews hproper hparse).map (.map ?_) finish
    refine .bind_any fun names => .joinChoice (P := fun _ => True) (.pure trivial)
      (fun _ _ _ _ => trivial) fun t _ => ?_
    exact .bind_any fun _ => .bind_any fun _ => .bind_any fun _ => .pure rfl
  | type =>
    refine .bind_yields (typeSpec_renews hproper hparse).map (.map ?_) finish
    exact .bind_any fun _ => .bind_any fun _ => .bind_any fun _ => .pure rfl

theorem functionDecl_keeps (hsound : parse.Sound) : (functionDecl parse).Keeps stream := by
  have keeps {α : Type} {p : Parser α} (hp : Composed parse p) : p.Keeps stream :=
    hp.keeps hproper hparse
  refine .of_begins (fun m s => (functionDecl_reads hsound).imp fun ts d _ hd => ?_)
    fun start lines => .bind (.expect hproper .kwFunc) fun sp => ?_
  · exact ⟨.function hd, Derives.ne_nil hd rfl⟩
  refine .joinChoice (keeps inferInstance) (keeps (.map inferInstance)) (.pure _) fun recv => ?_
  refine .bind (keeps inferInstance) fun name => .bind (hparse .signature rfl) fun sig => ?_
  refine .joinChoice (keeps inferInstance) ?_ (.pure _) fun body => ?_
  · rw [map_eq_pure_bind]
    exact .bind (hparse .block rfl) fun _ => .pure _
  · refine .bind (keeps inferInstance) fun sp => .newDecl ?_
    cases recv with
    | none => rfl
    | some recv => rfl

theorem importDecl_keeps : importDecl.Keeps stream := by
  have keeps {α : Type} {p : Parser α} (hp : Composed parse p) : p.Keeps stream :=
    hp.keeps hproper hparse
  refine .of_begins (fun m s => importDecl_reads.imp fun ts d _ hd => ?_)
    fun start lines => .bind (.expect hproper .kwImport) fun sp => ?_
  · exact ⟨.imports hd, Derives.ne_nil hd rfl⟩
  have finish (specs : List ImportSpec) : Parser.Completes stream lines (do
      recording (·.addImportSpecs specs)
      newDecl (.imports ⟨lines, sp, specs⟩) (← spanFrom start)) :=
    .bind (keeps inferInstance) fun _ => .bind (keeps inferInstance) fun _ => .newDecl rfl
  refine .bind (keeps inferInstance) fun paren => ?_
  cases paren with
  | some sp =>
    refine .bind (keeps inferInstance) ?_
    exact fun specs => .bind (keeps inferInstance) fun _ => finish specs
  | none => exact .bind (keeps inferInstance) fun spec => finish [spec]

theorem listedSpec_keeps (hsound : parse.Sound) (k : GroupKind) (iota : Nat) :
    (listedSpec parse k iota).Keeps stream := by
  refine .of_begins (fun m s => .passing (.bind_here (bind_doc fun lines _ => ?_)))
    fun start lines => spec_begins hproper hparse k start iota
  refine (spec_reads hsound).imp fun ts d s' ⟨i, form, hd, hform, _⟩ hpass => ?_
  have hne : ts ≠ [] := hform.ne_nil rfl
  subst hd
  rw [hpass.extent hne]
  exact ⟨.listed (.specDecl hform), hne⟩

theorem group_keeps (hsound : parse.Sound) {k : GroupKind} {ds : List Decl}
    (hk : s.current.kind = k.keyword) (hs : s.Fresh stream)
    (h : Grammar.group parse k s = .ok ds s') : s'.Fresh stream := by
  have keeps {α : Type} {p : Parser α} (hp : Composed parse p) : p.Keeps stream :=
    hp.keeps hproper hparse
  obtain ⟨start, _, hstart, h⟩ := bind_eq_ok.mp h
  cases hstart
  obtain ⟨lines, s₁, hlines, h⟩ := bind_eq_ok.mp h
  cases hlines
  obtain ⟨t, s₂, ht, h⟩ := bind_eq_ok.mp h
  cases ht
  have hfresh := hs.spent.next hproper
  obtain ⟨paren, s₃, hparen, h⟩ := bind_eq_ok.mp h
  by_cases hl : ({ s with comments := [] } : Parsing).next.current.kind = .lParen
  · rw [eat_at hl] at hparen
    cases hparen
    have hrest : Parser.Keeps stream (do
        let ds ← unrestricted (itemsUntil .rParen .semi (listedSpec parse k))
        let _ ← expect .rParen
        Pure.pure ds) := by
      refine .bind (.unrestricted ?_) fun ds => .bind (keeps inferInstance) fun _ => .pure _
      refine .bind (.repeating (fun read => ?_) _) fun _ => .pure _
      refine .choice (keeps inferInstance) (.pure _) ?_
      refine .bind (listedSpec_keeps hproper hparse hsound k read.1) fun d => ?_
      refine .bind (keeps inferInstance) fun sep => ?_
      cases sep with
      | some sp => exact .pure _
      | none => exact .pure _
    exact hrest _ _ _ (hfresh.recorded.next hproper) h
  · rw [eat_not_at hl] at hparen
    cases hparen
    obtain ⟨_, s₄, hrecord, h⟩ := bind_eq_ok.mp h
    cases hrecord
    obtain ⟨d, s₅, hd, h⟩ := bind_eq_ok.mp h
    cases h
    have hrecorded := hfresh.recorded.addDocLines ((documenting s.current.span.start s.previousEnd
      (s.current.span.start.line - 1) s.comments).reverse.flatMap (·.lines))
    obtain ⟨hdoc, hdone⟩ := spec_begins hproper hparse k _ 0 _ d s' hrecorded hd
    obtain ⟨ts, hpass, i, form, rfl, hform, -⟩ := spec_reads hsound hrecorded.ready d s' hd
    have hne : ts ≠ [] := hform.ne_nil rfl
    have heof : s.current.kind ≠ .eof := by
      rw [hk]
      cases k <;> decide
    obtain ⟨n, hn, hcomments⟩ := hs.reached
    have hcurrent : s.current = (stream.call n).token := hn.current
    have hprevious : s.previousEnd = stream.endBefore n := hn.previousEnd
    refine hdone ⟨n, s.current :: ts, s.comments, ?_, List.cons_ne_nil _ _,
      hn.drop_tokens ⟨rfl, heof, hpass.takes⟩, hcomments, ?_⟩
    · rw [hpass.extent_cons hne]
      exact .lone hk hform
    · rw [hdoc, hcurrent, hprevious]

end

theorem parse_keeps (hproper : stream.Proper) (depth : Nat) (p : Production α) :
    (SubParser.heeding (Grammar.parse depth) p).Keeps stream := by
  induction depth generalizing α with
  | zero =>
    have fails {α : Type} (p : Production α) : (Grammar.parse 0 p).Keeps stream :=
      .of_fails fun _ _ _ h => by cases h
    cases p with
    | group k => exact .choice (.of_still (g := id) fun _ h => h) (fails _) (.of_fails fun _ _ _ =>
        unexpected_ne_ok)
    | _ => exact .of_fails fun _ _ _ h => by cases h
  | succ depth ih =>
    have hsound : SubParser.Sound (Grammar.parse depth) := parse_sound depth
    have hparse {α : Type} (p : Production α) (hp : p.documents = false) :
        (Grammar.parse depth p).Keeps stream := by
      have := ih p
      rwa [heeding_of_not_documents hp] at this
    by_cases hp : p.documents = false
    · rw [heeding_of_not_documents hp, Grammar.parse_succ]
      refine .during ?_
      rw [← Production.body_heeding]
      exact Production.body_cases hp (·.keeps hproper ih) fun hrest =>
        .bind (.allowGuard true) fun _ => hrest.keeps hproper ih
    cases p with
    | functionDecl =>
      show (Grammar.parse (depth + 1) .functionDecl).Keeps stream
      rw [Grammar.parse_succ]
      exact .during (functionDecl_keeps hproper hparse hsound)
    | importDecl =>
      show (Grammar.parse (depth + 1) .importDecl).Keeps stream
      rw [Grammar.parse_succ]
      exact .during (importDecl_keeps hproper hparse)
    | group k =>
      intro s ds s' hs hds
      by_cases hk : s.current.kind = k.keyword
      · rw [heeding_group hk, Grammar.parse_succ, Parser.during] at hds
        split at hds
        · next ds s₁ hds₁ =>
          cases hds
          have hs₁ : s₁.Fresh stream := by
            refine group_keeps hproper hparse hsound ?_ ?_ hds₁
            · exact hk
            · exact ⟨hs.reached, hs.fueled, hs.decls⟩
          exact ⟨hs₁.reached, hs₁.fueled, hs₁.decls⟩
        · cases hds
      · exact absurd hds (heeding_group_ne_ok hk)
    | _ => exact absurd rfl hp

end Grammar

theorem Entry.parser_keeps (hproper : stream.Proper) (entry : Entry) (depth : Nat) :
    (entry.parser (Grammar.parse depth)).Keeps stream := by
  have hparse {α : Type} (p : Production α) := Grammar.parse_keeps hproper depth p
  by_cases hentry : entry = .typeSwitchGuard
  · subst hentry
    exact .map (hparse .typeSwitchGuard)
  · rw [← Entry.parser_heeding]
    exact (Entry.parser_woven hentry).keeps hproper hparse

-- ================================================================= parses

theorem Parsing.fresh_start (stream : Token.Stream) :
    (Parsing.start stream .empty).Fresh stream := by
  have hat : (Parsing.start stream .empty).cursor.At stream 0 := by
    refine ⟨rfl, fun j => ?_, rfl⟩
    rw [Nat.add_comm]
    rfl
  exact ⟨⟨0, hat, [], (List.append_nil _).symm, nofun⟩, ready_start.fueled, nofun⟩

/-- All declarations that a successful parse leaves in an empty arena are
documented by the comments in front of them. -/
theorem parseStream_documents (hproper : stream.Proper) {entry : Entry} {maxDepth : Nat}
    {root : Root} {b : Arena} (h : parseStream stream entry maxDepth .empty = (.ok root, b)) :
    ∀ d, .decl d ∈ b.entries .decl → stream.Documents d := by
  unfold parseStream at h
  split at h
  · next root s hrun =>
    cases h
    exact (entry.parser_keeps hproper maxDepth _ root s (Parsing.fresh_start stream) hrun).decls
  · cases h

end GoSource
