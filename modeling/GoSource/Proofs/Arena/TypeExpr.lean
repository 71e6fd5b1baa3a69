/-
What types and signatures build.

The names at the start of a parameter list are read before it is known
what they are. They are known to the arena all the same, and become types
later on (`typeNameParams_builds`) or belong to the first group.
-/
import GoSource.Proofs.Arena.Expression

namespace GoSource

open GoSource.Parser Renumber

variable {δ : NodeKind → Nat} {a₀ a : Arena}

namespace Grammar

attribute [local simp] typeForm arrayLength TypeForm.parts TypeForm.lists ArrayLength.parts

-- ================================================================ types

theorem finishType_builds {start : Location} {f : TypeForm} {q : Parser TypeExpr}
    (h : Held a₀ a f.parts f.lists) (hq : q = finishType start (typeForm δ f)) :
    Builds δ (typeExpr δ) (finishType start f) q a fun t b => Held a₀ b [.type t] [] := by
  subst hq
  exact .bind_look fun sp => .newType h rfl

theorem qualifiedType_builds {first : Ident} (h : Held a₀ a [.name first] []) :
    Builds δ (typeExpr δ) (qualifiedType first) (qualifiedType first) a
      fun t b => Held a₀ b [.type t] [] := by
  refine .bind_look fun o => ?_
  cases o with
  | none => exact finishType_builds h rfl
  | some sp => exact .bind .ident fun n b hn => finishType_builds (h.append hn) rfl

theorem typeName_builds : Builds δ (typeExpr δ) typeName typeName a
    fun t b => Held a b [.type t] [] :=
  .bind .ident fun _ _ hn => qualifiedType_builds hn

section

variable {parse : SubParser} (hp : parse.Builds δ)

include hp

theorem bracketType_builds {start : Location} :
    Builds δ (typeExpr δ) (bracketType parse start) (bracketType parse start) a
      fun t b => Held a b [.type t] [] := by
  refine .bind_look fun o => ?_
  cases o with
  | some sp => exact .bind hp.type fun t b ht => finishType_builds ht (by simp)
  | none =>
    refine .joinOption (g := arrayLength δ) (P := fun len b => Held a b len.parts [])
      (fun dots => .pure ((Held.nil (.refl a)).congr rfl nofun) rfl)
      (.map (.unrestricted hp.expression) fun x b hx => ⟨hx, rfl⟩) fun len b hlen => ?_
    refine .bind_look fun _ => .bind hp.type fun t c ht => ?_
    exact finishType_builds (hlen.append ht) (by simp)

theorem type_builds : Builds δ (typeExpr δ) (Grammar.type parse) (Grammar.type parse) a
    fun t b => Held a b [.type t] [] := by
  refine .bind_look fun start => .bind_look fun kind => ?_
  split
  · exact typeName_builds
  · refine .bind_look fun _ => .bind (.unrestricted hp.type) fun t b ht => ?_
    exact .bind_look fun _ => .pure ht rfl
  · exact .bind_look fun arrow => receiveChan_builds hp
  · exact .bind_look fun _ => bracketType_builds hp
  · exact .bind_look fun _ => .bind hp.type fun t b ht => finishType_builds ht (by simp)
  · refine .bind_look fun _ => .bind_look fun _ => ?_
    refine .bind (.unrestricted hp.type) fun key b hkey => ?_
    refine .bind_look fun _ => .bind hp.type fun t c ht => ?_
    exact finishType_builds (hkey.append ht) (by simp)
  · refine .bind_look fun _ => .joinOption (g := id) (P := fun _ b => b = a)
      (fun _ => .pure rfl rfl) (.pure rfl rfl) fun dir b hb => ?_
    exact hb ▸ .bind hp.type fun t c ht => finishType_builds ht (by simp)
  · exact .bind_look fun _ => .bind hp.signature fun sig b hsig => finishType_builds hsig (by simp)
  · exact .bind hp.structType fun fs b hfs => finishType_builds hfs (by simp)
  · exact .bind hp.interfaceType fun es b hes => finishType_builds hes (by simp)
  · exact .unexpected

end

-- =========================================================== parameters

/-- The names that have been read. -/
def LeadingNames.parts : LeadingNames → List Part
  | undecided names | types names | named names => names.reverse.map .name
  | qualified names pkg => names.reverse.map .name ++ [.name pkg]

theorem leadingNames_builds : Builds δ id leadingNames leadingNames a
    fun state b => Held a b state.parts [] := by
  refine .repeating (.nil (.refl a)) rfl fun state b hstate => ?_
  unfold leadingName
  cases state with
  | undecided names =>
    refine .choice (.bind .ident fun n c hn => .bind_look fun kind => ?_) (.pure hstate rfl)
    have hmore : Held a c ((n :: names).reverse.map .name) [] := by
      simpa [LeadingNames.parts] using hstate.append hn
    split
    · exact .bind_look fun _ => .choice (.pure hmore rfl) (.pure hmore rfl)
    · exact .pure hmore rfl
    · exact .pure (hstate.append hn) rfl
    · exact .pure hmore rfl
  | _ => exact .pure hstate rfl

theorem finishParam_builds {names : List Ident} {dots : Option Span} {t : TypeExpr}
    {start : Location} (h : Held a₀ a (names.map .name ++ [.type t]) []) :
    Builds δ (param δ) (finishParam names dots t start)
      (finishParam names dots (typeExpr δ t) start) a fun p b => Held a₀ b [.param p] [] := by
  refine .bind_list (a.addIdents_adds names) (·.addIdents_adds names) h (by simp) (by simp) ?_
  intro b h
  exact .bind_look fun sp =>
    .newParam (h.congr (by simp [ParamForm.parts]) (by simp [ParamForm.lists])) rfl

/-- Names that are known become types, and parameters without names. -/
theorem typeNameParams_builds {names : List Ident} (h : ∀ n ∈ names, a.Knows n.name) :
    Builds δ (List.map (param δ)) (typeNameParams names) (typeNameParams names) a
      fun ps b => Held a b (ps.reverse.map .param) [] := by
  unfold typeNameParams
  induction names with
  | nil => exact .pure (.nil (.refl a)) rfl
  | cons n names ih =>
    obtain ⟨hn, hnames⟩ := List.forall_mem_cons.mp h
    rw [List.foldrM_cons]
    refine .bind (ih hnames) fun ps b hps => ?_
    have hn : Held b b [.name n] [] := .name (.refl b) (hps.grows.knows hn)
    refine .bind (.newType (f := .name none n) hn rfl) fun t c ht => ?_
    refine .bind (.newParam (f := ⟨[], none, t⟩) (ht.congr rfl (by simp [ParamForm.lists])) rfl)
      fun p d hpar => ?_
    exact .pure (by simpa using hps.append hpar) rfl

theorem moreParams_builds : Builds δ id moreParams moreParams a fun _ b => b = a := by
  refine .bind_look fun o => ?_
  cases o with
  | none => exact .pure rfl rfl
  | some sp => exact .bind_look fun _ => .pure rfl rfl

section

variable {parse : SubParser} (hp : parse.Builds δ)

include hp

theorem paramAfter_builds {names : List Ident} {start : Location}
    (h : Held a₀ a (names.map .name) []) :
    Builds δ (fun r => (param δ r.1, r.2)) (paramAfter parse names start)
      (paramAfter parse names start) a fun r b => Held a₀ b [.param r.1] [] := by
  refine .bind_look fun dots => .bind hp.type fun t b ht => ?_
  refine .bind (finishParam_builds (h.append ht)) fun p c hpar => .ite (fun _ => ?_) fun _ => ?_
  · exact .bind_look fun _ => .pure hpar rfl
  · refine .bind moreParams_builds fun more d hd => .pure ?_ rfl
    exact hd ▸ hpar

theorem unnamedParams_builds {ps : List Param} (h : Held a₀ a (ps.reverse.map .param) []) :
    Builds δ (List.map (param δ)) (unnamedParams parse ps) (unnamedParams parse (ps.map (param δ)))
      a fun ps b => Held a₀ b (ps.reverse.map .param) [] := by
  refine .repeating h rfl fun ps b hps => .bind_look fun start => ?_
  refine .bind (paramAfter_builds hp (.nil (.refl b))) fun ⟨p, more⟩ c hpar => ?_
  have hmore : Held a₀ c ((p :: ps).reverse.map .param) [] := by simpa using hps.append hpar
  exact .ite (fun _ => .pure hmore rfl) fun _ => .pure hmore rfl

theorem namedParams_builds {names : List Ident} (h : Held a₀ a (names.map .name) []) :
    Builds δ (List.map (param δ)) (namedParams parse names) (namedParams parse names) a
      fun ps b => Held a₀ b (ps.reverse.map .param) [] := by
  refine .bind (.repeating (g := fun st => (st.1, st.2.map (param δ)))
    (I := fun st b => Held a₀ b (st.2.reverse.map .param ++ st.1.map .name) []) h rfl ?_)
    fun st b hst => .pure (hst.sublist (List.sublist_append_left _ _)) rfl
  rintro ⟨names, ps⟩ b hst
  have group : ∀ start, Builds δ (Builds.turn fun st => (st.1, st.2.map (param δ)))
      (paramAfter parse names start >>= fun r =>
        if r.2 then do Pure.pure (Turn.again (← commaSeparated Parser.ident, r.1 :: ps))
        else Pure.pure (.stop ([], r.1 :: ps)))
      (paramAfter parse names start >>= fun r =>
        if r.2 then do
          Pure.pure (Turn.again (← commaSeparated Parser.ident, r.1 :: ps.map (param δ)))
        else Pure.pure (.stop ([], r.1 :: ps.map (param δ)))) b
      (Builds.Leads fun st b => Held a₀ b (st.2.reverse.map .param ++ st.1.map .name) []) := by
    intro start
    have hnames : Held b b (names.map .name) [] :=
      .of_keeps (.refl b) (fun p hp => hst.keeps.1 p (List.mem_append_right _ hp)) (by simp)
    have hps := hst.sublist (List.sublist_append_left _ _)
    refine .bind (paramAfter_builds hp hnames) fun r c hpar => ?_
    obtain ⟨p, more⟩ := r
    have hmore : Held a₀ c ((p :: ps).reverse.map .param) [] := by simpa using hps.append hpar
    refine .ite (fun _ => ?_) fun _ => .pure (by simpa [Builds.Leads] using hmore) rfl
    refine .bind (commaSeparated_builds .ident) fun next d hnext => ?_
    rw [List.map_id]
    exact .pure (hmore.append hnext.each) rfl
  show Builds δ _ (namedParam parse (names, ps)) (namedParam parse (names, ps.map (param δ))) b _
  unfold namedParam
  cases names with
  | nil => exact .bind_look group
  | cons n names => exact group n.span.start

theorem params_builds : Builds δ (List.map (param δ)) (params parse) (params parse) a
    fun ps b => Held a b (ps.reverse.map .param) [] := by
  refine .bind leadingNames_builds fun state b hstate => ?_
  have known : ∀ names : List Ident, (∀ n ∈ names, .name n ∈ state.parts) →
      ∀ n ∈ names, b.Knows n.name := fun names hnames n hn => hstate.keeps.1 _ (hnames n hn)
  have types : ∀ names : List Ident, (∀ n ∈ names, .name n ∈ state.parts) →
      Builds δ (List.map (param δ))
      (typeNameParams names >>= fun params => do
        if (← isAt .rParen) then pure params else unnamedParams parse params)
      (typeNameParams names >>= fun params => do
        if (← isAt .rParen) then pure params else unnamedParams parse params) b
      fun ps b => Held a b (ps.reverse.map .param) [] := by
    intro names hnames
    refine .bind (typeNameParams_builds (known names hnames)) fun ps c hps => ?_
    have hps := hps.since hstate.grows
    exact .choice (.pure hps rfl) (unnamedParams_builds hp hps)
  cases state with
  | named names => exact namedParams_builds hp (by simpa [LeadingNames.parts] using hstate)
  | qualified names pkg =>
    have hnames : ∀ n ∈ names, .name n ∈ (LeadingNames.qualified names pkg).parts :=
      fun n hn => by simp [LeadingNames.parts, hn]
    refine .bind (typeNameParams_builds (known names hnames)) fun ps c hps => ?_
    have hpkg : Held c c [.name pkg] [] := by
      refine .name (.refl c) (hps.grows.knows ?_)
      exact hstate.keeps.1 (.name pkg) (by simp [LeadingNames.parts])
    refine .bind (qualifiedType_builds hpkg) fun t d ht => ?_
    refine .bind (finishParam_builds ht) fun p e hpar => .bind moreParams_builds fun more f hf => ?_
    have hall : Held a f ((p :: ps).reverse.map .param) [] := by
      rw [hf]
      simpa using (hps.since hstate.grows).append hpar
    exact .ite (fun _ => unnamedParams_builds hp hall) fun _ => .pure hall rfl
  | types names => exact types names (by simp [LeadingNames.parts])
  | undecided names => exact types names (by simp [LeadingNames.parts])

theorem parameters_builds : Builds δ (paramList δ) (parameters parse) (parameters parse) a
    fun ps b => Held a b ps.parts ps.lists := by
  refine .unrestricted (.bind_look fun lParen => ?_)
  refine .joinChoice (g := List.map (param δ)) (P := fun ps b => Held a b (ps.map .param) [])
    (.pure (.nil (.refl a)) rfl)
    (.map (params_builds hp) fun ps b hps => ⟨hps, List.map_reverse.symm⟩) fun ps b hps => ?_
  refine .bind_look fun rParen => ?_
  refine .bind_list (b.addParams_adds ps) (·.addParams_adds _) hps (by simp) (by simp) ?_
  exact fun c hps => .pure hps (by simp [paramList])

theorem signature_builds : Builds δ (Renumber.signature δ) (Grammar.signature parse)
    (Grammar.signature parse) a fun sig b => Held a b sig.parts sig.lists := by
  refine .bind hp.parameters fun ps b hps => ?_
  have finish : ∀ (result : Option FuncResult) (c : Arena),
      Held b c (result.toList.flatMap FuncResult.parts) (result.toList.flatMap FuncResult.lists) →
      Builds δ (Renumber.signature δ)
        (do Pure.pure ⟨ps, result, ← spanFrom ps.span.start⟩ : Parser Signature)
        (do Pure.pure ⟨paramList δ ps, result.map (funcResult δ),
          ← spanFrom (paramList δ ps).span.start⟩) c fun sig d => Held a d sig.parts sig.lists := by
    intro result c hresult
    rw [span_paramList]
    exact .bind_look fun sp => .pure (hps.append hresult) (by simp [Renumber.signature])
  have present : ∀ (r : FuncResult) (c : Arena), Held b c r.parts r.lists → _ :=
    fun r c hr => finish (some r) c (by simpa using hr)
  refine .bind_look fun _ => .bind_look fun _ => .ite (fun _ => ?_) fun _ => ?_
  · exact .bind_map (.map hp.parameters fun list c h => ⟨h, rfl⟩) present
  · refine .ite (fun _ => ?_) fun _ => finish none b (.nil (.refl b))
    exact .bind_map (.map hp.type fun t c h => ⟨h, rfl⟩) present

-- =============================================== structs and interfaces

theorem structType_builds : Builds δ (List.map (field δ)) (structType parse) (structType parse) a
    fun fs b => Held a b (fs.map .field) [.fields fs] := by
  refine .bind_look fun _ => .bind_look fun _ => ?_
  refine .bind (.unrestricted (itemsUntil_builds (f := fun x => [.field x]) (l := fun _ => [])
    fun _ => hp .fieldDecl (.nil (.refl _)))) fun fs b hfs => .bind_look fun _ => ?_
  refine .bind_list (b.addFields_adds fs) (·.addFields_adds _) hfs.each (by simp) (by simp) ?_
  exact fun c hfs => .pure hfs rfl

theorem fieldParts_builds :
    Builds δ (fun r => (r.1, typeExpr δ r.2)) (fieldParts parse) (fieldParts parse) a
      fun r b => Held a b (r.1.map .name ++ [.type r.2]) [.idents r.1] := by
  have embedded {b : Arena} {t : TypeExpr} (ht : Held a b [.type t] []) :
      Held a b ([].map .name ++ [.type t]) [.idents []] := ht.congr rfl (by simp)
  refine .bind_look fun start => .bind_look fun kind => ?_
  split
  · refine .bind_look fun _ => .bind typeName_builds fun elem b helem => ?_
    refine .bind (finishType_builds (f := .pointer elem) helem (by simp)) fun t c ht => ?_
    exact .pure (embedded ht) rfl
  · refine .bind .ident fun first b hfirst => .bind_look fun kind => ?_
    split
    iterate 5 exact .bind (qualifiedType_builds hfirst) fun t c ht => .pure (embedded ht) rfl
    · refine .bind (afterCommas_builds (g := id) (f := fun n => [.name n]) (l := fun _ => [])
        hfirst .ident) fun names c hnames => .bind hp.type fun t d ht => ?_
      rw [List.map_id]
      refine .bind_list (d.addIdents_adds names) (·.addIdents_adds names) (hnames.each.append ht)
        (by simp) (by simp) ?_
      exact fun e h => .pure h rfl
  · exact .unexpected

theorem fieldDecl_builds : Builds δ (field δ) (fieldDecl parse) (fieldDecl parse) a
    fun f b => Held a b [.field f] [] := by
  refine .bind_look fun start => .bind (fieldParts_builds hp) fun ⟨names, t⟩ b h => ?_
  have finish : ∀ (tag : Option Lit) (c : Arena), Held b c (tag.toList.map .literal) [] →
      Builds δ (field δ) (do newField ⟨names, t, tag⟩ (← spanFrom start))
        (do newField ⟨names, typeExpr δ t, tag.map (lit δ)⟩ (← spanFrom start)) c
        fun f d => Held a d [.field f] [] := by
    intro tag c htag
    refine .bind_look fun sp => .newField ((h.append htag).congr ?_ ?_) rfl
    · simp [FieldForm.parts]
    · simp [FieldForm.lists]
  refine .bind_look fun kind => ?_
  split
  · exact .bind_map .literal fun l c hl => finish (some l) c hl
  · exact .bind_map .literal fun l c hl => finish (some l) c hl
  · exact finish none b (.nil (.refl b))

theorem interfaceElement_builds : Builds δ (Renumber.interfaceElement δ)
    (Grammar.interfaceElement parse) (Grammar.interfaceElement parse) a
    fun e b => Held a b e.parts e.lists := by
  refine .bind .ident fun n b hn => .choice ?_ ?_
  · exact .bind hp.signature fun sig c hsig => .pure (hn.append hsig) rfl
  · exact .bind (qualifiedType_builds hn) fun t c ht => .pure ht rfl

theorem interfaceType_builds : Builds δ (List.map (Renumber.interfaceElement δ))
    (interfaceType parse) (interfaceType parse) a
    fun es b => Held a b (es.flatMap InterfaceElement.parts)
      (.interfaceElements es :: es.flatMap InterfaceElement.lists) := by
  refine .bind_look fun _ => .bind_look fun _ => ?_
  refine .bind (.unrestricted (itemsUntil_builds fun _ => interfaceElement_builds hp))
    fun es b hes => .bind_look fun _ => ?_
  refine .bind_list (b.addInterfaceElements_adds es) (·.addInterfaceElements_adds _) hes
    (by simp) (by simp) ?_
  exact fun c hes => .pure hes rfl

end

end Grammar

end GoSource
