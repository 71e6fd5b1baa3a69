/-
Declarations and files that the parser returns are derivable.

A spec starts at its first token or, if it stands alone, at the keyword in
front of it. Where it starts is told to the parser of specs; so what is
shown of a spec leaves its start open (`spec_reads`).
-/
import GoSource.Proofs.Derivation.Statement

namespace GoSource.Grammar

open GoSource.Parser

variable {m : Mode} {s : Parsing} {parse : SubParser} (hp : parse.Sound)

include hp

-- ================================================================ specs

omit hp in
theorem names_reads : (commaSeparated ident).Reads m s fun ts names _ =>
    Derives .names ts names :=
  (commaSeparated_reads (p := .name) (L := fun _ _ => True) fun _ =>
    ident_reads.imp fun _ _ _ h => ⟨h, trivial⟩).imp fun _ _ _ h => h.1

/-- Values, which are there if an `=` is. -/
theorem initializer_reads : (initializer parse).Reads m s fun ts values _ =>
    Derives (.optional (.values m)) ts values ∧ (values = none → s.current.kind ≠ .assign) := by
  refine .bind_eat (by decide) (fun ha => ?_) fun hno => .pure ⟨.absent, fun _ => hno⟩
  refine .map ((exprList_reads hp).imp fun ts xs _ hxs => ⟨?_, nofun⟩)
  exact .present (.values ha hxs.1)

theorem constType_reads : (constType parse).Reads m s fun ts t _ =>
    Derives (.optional .type) ts t := by
  refine .bind_kind ?_
  split
  iterate 4 exact .pure .absent
  · exact .map (hp.type.imp fun _ _ _ => .present)

theorem constSpec_reads {lines : List String} {iota : Nat} :
    (constSpec parse lines iota).Reads m s fun ts spec _ =>
      Derives (.spec .const m) ts (.const spec) ∧ spec.iota = iota := by
  refine .bind names_reads fun ns names s₁ hnames => ?_
  refine .bind (constType_reads hp) fun ts t s₂ ht => ?_
  refine .bind (initializer_reads hp) fun vs values s₃ ⟨hvalues, _⟩ => ?_
  rcases values with _ | values <;> dsimp only
  · split
    · exact .bind_unexpected
    · next hrepeats =>
      have hrepeats : t = none ∧ iota ≠ 0 := by simpa using hrepeats
      refine .bind_pure (.bind_recording fun _ => .bind_recording fun _ => .pure ⟨?_, rfl⟩)
      rw [List.append_nil]
      exact .constSpec hnames ht hvalues fun _ => hrepeats
  · refine .bind_pure (.bind_recording fun _ => .bind_recording fun _ => .pure ⟨?_, rfl⟩)
    rw [List.append_nil]
    exact .constSpec hnames ht hvalues nofun

theorem varSpec_reads {lines : List String} :
    (varSpec parse lines).Reads m s fun ts spec _ => Derives (.spec .var m) ts (.var spec) := by
  refine .bind names_reads fun ns names s₁ hnames => ?_
  -- Without a type the values follow.
  refine .joinAt (fun ts t s' => Derives (.optional .type) ts t ∧
      (t = none → s'.current.kind = .assign))
    (fun ha => .pure ⟨.absent, fun _ => ha⟩)
    (fun _ => .map (hp.type.imp fun _ _ _ h => ⟨.present h, nofun⟩)) fun ts t s₂ ⟨ht, hassign⟩ => ?_
  refine .bind (initializer_reads hp) fun vs values s₃ ⟨hvalues, hno⟩ => ?_
  refine .bind_recording fun _ => .bind_recording fun _ => .pure ?_
  rw [List.append_nil]
  exact .varSpec hnames ht hvalues fun hnone htype => hno hnone (hassign htype)

theorem typeSpec_reads {lines : List String} :
    (typeSpec parse lines).Reads m s fun ts spec _ => Derives (.spec .type m) ts (.type spec) := by
  refine .bind ident_reads fun ns n s₁ hn => ?_
  refine .bind (eat_reads (by decide) rfl) fun as assign s₂ ha => ?_
  refine .bind hp.type fun ts t s₃ ht => .pure ?_
  rw [List.append_nil]
  exact .typeSpec hn ha ht

/-- A spec, whatever is said to be its start. -/
theorem spec_reads {k : GroupKind} {lines : List String} {start : Location} {iota : Nat} :
    (spec parse k lines start iota).Reads m s fun ts d s' => ∃ i form,
      d = ⟨i, ⟨start, s'.previousEnd⟩, form⟩ ∧ Derives (.spec k m) ts form ∧
        ∀ c, form = .const c → c.iota = iota := by
  have finish : ∀ {p : Parser DeclForm}, p.Reads m s (fun ts form _ => Derives (.spec k m) ts form ∧
      ∀ c, form = .const c → c.iota = iota) →
      (p >>= fun form => spanFrom start >>= newDecl form).Reads m s fun ts d s' => ∃ i form,
        d = ⟨i, ⟨start, s'.previousEnd⟩, form⟩ ∧ Derives (.spec k m) ts form ∧
          ∀ c, form = .const c → c.iota = iota := by
    refine fun h => .bind h fun ts form s₁ ⟨hform, hiota⟩ => .bind_spanFrom ?_
    refine .new (fun _ => ⟨_, rfl⟩) fun i _ => ⟨i, form, rfl, ?_, hiota⟩
    rwa [List.append_nil]
  cases k with
  | const =>
    refine finish (.map ((constSpec_reads hp).imp fun ts c _ ⟨hc, hiota⟩ => ⟨hc, ?_⟩))
    rintro _ ⟨⟩
    exact hiota
  | var => exact finish (.map ((varSpec_reads hp).imp fun ts v _ hv => ⟨hv, nofun⟩))
  | type => exact finish (.map ((typeSpec_reads hp).imp fun ts t _ ht => ⟨ht, nofun⟩))

omit hp in
theorem bind_doc {β : Type} {start : Location} {f : List String → Parser β}
    {Q : List Token → β → Parsing → Prop}
    (h : ∀ lines arena, (f lines).Reads m { s with comments := [], arena } Q) :
    (doc start >>= f).Reads m s Q := by
  refine .bind (P := fun ts lines s' => ts = [] ∧ (f lines).Reads m s' Q) ?_ fun _ _ _ h' => ?_
  · exact .bind_docLines fun lines => .bind_recording fun arena => .pure ⟨rfl, h lines arena⟩
  · exact h'.1 ▸ h'.2

omit hp in
theorem numbered_singleton {d : Decl} (h : ∀ c, d.form = .const c → c.iota = 0) :
    Numbered [d] := by
  intro i d' c hd hc
  cases i with
  | zero =>
    obtain rfl : d = d' := by simpa using hd
    exact h c hc
  | succ i => simp at hd

theorem group_reads {k : GroupKind} (hk : s.current.kind = k.keyword) :
    (group parse k).Reads m s ((Production.group k).Meets m s) := by
  refine .passing (.bind_here (.bind_docLines fun lines => ?_))
  refine .bind_advance (fun h => by rw [hk] at h; cases k <;> nomatch h) ?_
  refine .bind_eat (by decide) (fun hl => ?_) fun _ => ?_
  · refine .bind (.inside (P := fun ts ds => Derives (.listed .semi (.specDecl k .inside)) ts ds ∧
      Numbered ds) fun s => ?_) fun ts ds s₁ ⟨hds, hnumbered⟩ => ?_
    · refine (itemsUntil_reads (p := .specDecl k .inside)
        (R := fun i d => ∀ c, d.form = .const c → c.iota = i) (by decide) rfl fun n s => ?_).imp ?_
      · refine .passing (.bind_here (bind_doc fun lines _ => ?_))
        refine (spec_reads hp).imp fun ts d s' ⟨i, form, hd, hform, hiota⟩ hpass => ?_
        subst hd
        refine ⟨?_, hiota⟩
        rw [hpass.extent (hform.ne_nil rfl)]
        exact .specDecl hform
      · exact fun ts ds s' ⟨hds, hR⟩ => ⟨hds, fun i d c hd hc => hR i d hd c hc⟩
    · refine .bind_expect (by decide) fun hr => .pure fun _ => ?_
      exact .specGroup hk hl hds hnumbered hr
  · refine .bind_recording fun _ => .bind (spec_reads hp) fun ts d s' h => .pure fun hpass => ?_
    obtain ⟨i, form, hd, hform, hiota⟩ := h
    subst hd
    rw [List.append_nil] at hpass ⊢
    have hspan := hpass.extent (by simp)
    rw [show (⟨s.current.span.start, s'.previousEnd⟩ : Span) = _ from hspan]
    exact .loneSpec hk hform (numbered_singleton hiota)

-- ============================================================ functions

theorem receiver_reads : (receiver parse).Reads m s fun ts list _ =>
    Derives .parameters ts list ∧ isReceiver list.params = true := by
  refine .bind hp.parameters fun ts list s₁ hlist => ?_
  split
  · next hone =>
    refine .pure ⟨?_, hone⟩
    rwa [List.append_nil]
  · exact .unexpectedAt

theorem functionDecl_reads :
    (functionDecl parse).Reads m s (Production.functionDecl.Meets m s) := by
  refine .passing (.bind_here (bind_doc fun lines _ => .bind_expect (by decide) fun hw => ?_))
  refine .joinAt (fun rs o _ => (o = none → rs = []) ∧ ∀ list ∈ o, Derives .parameters rs list ∧
      isReceiver list.params = true)
    (fun _ => .map ((receiver_reads hp).imp fun rs list _ h => ⟨nofun, ?_⟩))
    (fun _ => .pure ⟨fun _ => rfl, nofun⟩) ?_
  · rintro _ ⟨⟩
    exact h
  rintro rs receiver s₁ ⟨hnone, hsome⟩
  refine .bind ident_reads fun ns n s₂ hn => .bind hp.signature fun ts sig s₃ hsig => ?_
  refine .joinAt (fun bs body _ => Derives (.optional .block) bs body)
    (fun _ => .map (hp.block.imp fun _ _ _ => .present)) (fun _ => .pure .absent) ?_
  intro bs body s₄ hbody
  refine .bind_spanFrom (.new (fun _ => ⟨_, rfl⟩) fun i _ hpass => ?_)
  rw [List.append_nil] at hpass ⊢
  have hspan := hpass.extent (by simp)
  rw [show (⟨s.current.span.start, s₄.previousEnd⟩ : Span) = _ from hspan]
  rcases receiver with _ | list
  · obtain rfl := hnone rfl
    rw [List.nil_append]
    exact .func hw hn hsig hbody
  · obtain ⟨hlist, hone⟩ := hsome list rfl
    exact .method hw hlist hone hn hsig hbody

-- ============================================================== imports

omit hp in
theorem importName_reads : importName.Reads m s fun ts name _ =>
    Derives (.optional .importName) ts name := by
  refine .bind_kind ?_
  split
  · next hk => exact .bind_advance (by rw [hk]; decide) (.pure (.present (.dotImport hk)))
  · refine .bind ident_reads fun ts n s₁ hn => .pure ?_
    rw [List.append_nil]
    exact .present (.nameImport hn)
  · exact .pure .absent

omit hp in
theorem importPath_reads : importPath.Reads m s fun ts r _ => Derives .importPath ts r := by
  have path : ∀ {f : Literal × Span → Parser (String × Span)},
      (s.current.kind = .stringLit ∨ s.current.kind = .rawStringLit) →
      (∀ bytes sp s', (f (.string bytes, sp)).Reads m s' fun ts r _ =>
        ts = [] ∧ r = (Text.lossyText bytes, sp)) →
      (literalValue >>= f).Reads m s fun ts r _ => Derives .importPath ts r := by
    intro f hk hf
    refine .bind (P := fun ts r _ => ∃ t bytes, ts = [t] ∧ r = (.string bytes, t.span) ∧
      Literal.decode t.kind t.text = some (.string bytes)) (literalValue_reads fun v hv => ?_) ?_
    · obtain ⟨bytes, rfl⟩ := decode_string hk hv
      exact ⟨_, bytes, rfl, rfl, hv⟩
    · rintro _ _ s₁ ⟨t, bytes, rfl, rfl, hv⟩
      refine (hf bytes t.span s₁).imp ?_
      rintro _ _ _ ⟨rfl, rfl⟩
      exact .importPath hv
  refine .bind_kind ?_
  split
  · next hk => exact path (.inl hk) fun _ _ _ => .bind_recording fun _ => .pure ⟨rfl, rfl⟩
  · next hk => exact path (.inr hk) fun _ _ _ => .bind_recording fun _ => .pure ⟨rfl, rfl⟩
  · exact .unexpected

omit hp in
theorem importSpec_reads : importSpec.Reads m s fun ts spec _ => Derives .importSpec ts spec := by
  refine .bind importName_reads fun ns name s₁ hname => ?_
  refine .bind importPath_reads fun ts r s₂ hpath => .pure ?_
  rw [List.append_nil]
  exact .importSpec hname hpath

omit hp in
theorem importDecl_reads : importDecl.Reads m s (Production.importDecl.Meets m s) := by
  refine .passing (.bind_here (bind_doc fun lines _ => .bind_expect (by decide) fun hw => ?_))
  have finish : ∀ specs s₁ ts, (∀ i, Derives .importDecl (s.current :: ts)
        ⟨i, extent (s.current :: ts), .imports ⟨lines, s.current.span, specs⟩⟩) →
      (recording (·.addImportSpecs specs) >>= fun _ => spanFrom s.current.span.start >>=
        newDecl (.imports ⟨lines, s.current.span, specs⟩)).Reads m s₁ fun us d s' =>
          s.Passes (s.current :: (ts ++ us)) s' →
            Derives .importDecl (s.current :: (ts ++ us)) d := by
    intro specs s₁ ts h
    refine .bind_recording fun _ => .bind_spanFrom (.new (fun _ => ⟨_, rfl⟩) fun i _ hpass => ?_)
    rw [List.append_nil] at hpass ⊢
    rw [hpass.extent (by simp)]
    exact h i
  refine .bind_eat (by decide) (fun hl => ?_) fun _ => ?_
  · refine .bind (items_reads (p := .importSpec) (by decide) rfl fun _ => importSpec_reads) ?_
    intro ts specs s₁ hspecs
    refine .bind_expect (by decide) fun hr => .bind_pure ?_
    have hdecl := finish specs s₁.next _ fun i => .importGroup hw hl hspecs hr
    simp only [List.append_assoc, List.cons_append, List.nil_append] at hdecl
    exact hdecl
  · refine .bind importSpec_reads fun ts spec s₁ hspec => .bind_pure ?_
    exact finish _ _ _ fun i => .loneImport hw hspec

-- ================================================================ files

omit hp in
theorem keyword_of_ofKind {k : Token.Kind} {g : GroupKind} (h : GroupKind.ofKind k = some g) :
    k = g.keyword := by
  cases k <;> cases h <;> rfl

theorem topLevelDecl_reads (i : Bool) :
    (topLevelDecl parse).Reads .inside s fun ts ds _ => Derives (.topLevel i true) ts ds := by
  refine .bind_kind ?_
  split
  · next g hg => exact (hp.group (keyword_of_ofKind hg)).imp fun ts ds _ h => .topGroup h
  · refine .ifAt (fun _ => ?_) fun _ => .unexpected
    refine .bind (hp .functionDecl .inside s trivial) fun ts d s₁ hd => .pure ?_
    rw [List.append_nil]
    exact .topFunction hd

/-- A file begins with imports only. -/
theorem imports_reads : (imports parse).Reads m s fun ts ds _ =>
    Derives (.decls true false) ts ds := by
  refine .bind (P := fun ts ds _ => Derives (.decls true false) ts ds.reverse)
    (.repeating (I := fun ts ds _ => Derives (.decls true false) ts ds.reverse) .noDecls ?_)
    fun ts ds s₁ hds => .bind_recording fun _ => .pure (by rwa [List.append_nil])
  intro ts ds s' hds
  refine .ifAt (fun _ => ?_) fun _ => .stop hds
  refine .bind (hp .importDecl m s' trivial) fun us d s₁ hd => ?_
  refine .bind expectSemi_reads fun cs _ s₂ hcs => .pure ⟨?_, ?_⟩
  · simp [Derives.ne_nil hd rfl]
  · have := Derives.moreDecls hds (.topImport (o := false) hd) hcs
    simpa only [List.reverse_cons, List.append_nil] using this

omit hp in
theorem declsWith_reads {i o : Bool} {decl : Parser (List Decl)}
    (hdecl : ∀ s, decl.Reads m s fun ts ds _ => Derives (.topLevel i o) ts ds) :
    (declsWith decl).Reads m s fun ts ds s' => Derives (.decls i o) ts ds ∧
      s'.current.kind = .eof := by
  refine .bind (P := fun ts ds s' => Derives (.decls i o) ts ds.reverse ∧ s'.current.kind = .eof)
    (.repeating (I := fun ts ds _ => Derives (.decls i o) ts ds.reverse) .noDecls ?_)
    fun ts ds s₁ hds => .bind_recording fun _ => .pure (by rwa [List.append_nil])
  intro ts ds s' hds
  refine .ifAt (fun heof => .stop ⟨hds, heof⟩) fun _ => ?_
  refine .bind (hdecl s') fun us more s₁ hmore => ?_
  refine .bind expectSemi_reads fun cs _ s₂ hcs => .pure ⟨?_, ?_⟩
  · simp [hmore.ne_nil rfl]
  · have := Derives.moreDecls hds hmore hcs
    simpa only [List.reverse_append, List.reverse_reverse, List.append_nil] using this

theorem declarations_reads : (declarations parse).Reads .inside s fun ts ds s' =>
    Derives (.decls true true) ts ds ∧ s'.current.kind = .eof := by
  refine declsWith_reads fun s => .ifAt (fun _ => ?_) fun _ => topLevelDecl_reads hp true
  refine .bind (hp .importDecl .inside s trivial) fun ts d s₁ hd => .pure ?_
  rw [List.append_nil]
  exact .topImport hd

theorem file_reads : (file parse).Reads .inside s fun ts f s' =>
    Derives .file ts f ∧ s'.current.kind = .eof := by
  refine .passing (.bind_here (.bind_expect (by decide) fun hw => ?_))
  refine .bind ident_reads fun ns n s₁ hn => .bind expectSemi_reads fun cs _ s₂ hcs => ?_
  refine .bind (imports_reads hp) fun is imports s₃ himports => ?_
  refine .bind (declsWith_reads fun _ => topLevelDecl_reads hp false) ?_
  rintro ds decls s₄ ⟨hdecls, heof⟩
  refine .bind_spanFrom (.pure fun hpass => ⟨?_, heof⟩)
  rw [List.append_nil] at hpass ⊢
  rw [hpass.extent (by simp)]
  exact .file hw hn hcs himports hdecls

end GoSource.Grammar
