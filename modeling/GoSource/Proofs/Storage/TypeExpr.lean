/-
Types and signatures, in a store and as trees.

A list that is left out of the buffer, as the names of an embedded field
are, reads as the list without items, like one that is put there.
-/
import GoSource.Proofs.Storage.Expression

namespace GoSource.Stored.Grammar

open GoSource.Stored.Parser

variable {R : Reader}

-- ================================================================ types

theorem finishType_mimics {start : Location} {row : TypeExpr} {form : TypeForm}
    (h : row.read R = some form) :
    Mimics R (finishType start row) (GoSource.Grammar.finishType start form) Reader.type :=
  .bind_look fun _ => .newType h

theorem qualifiedType_mimics {first : Ident} {first' : GoSource.Ident}
    (h : first.read R = some first') :
    Mimics R (qualifiedType first) (GoSource.Grammar.qualifiedType first') Reader.type := by
  refine .bind_look fun o => ?_
  rw [Ident.span_of_read h]
  cases o with
  | none => exact finishType_mimics (by simp [TypeExpr.read, optional, h])
  | some sp =>
    refine .bind .ident fun R' n m hle hn => finishType_mimics ?_
    have h := Ident.read_le hle _ h
    simp [TypeExpr.read, optional, h, hn]

theorem typeName_mimics : Mimics R typeName GoSource.Grammar.typeName Reader.type :=
  .bind .ident fun _ _ _ _ hn => qualifiedType_mimics hn

section

variable {parse : SubParser} {tree : GoSource.SubParser} (hp : parse.Mimics tree)

include hp

theorem bracketType_mimics {start : Location} :
    Mimics R (bracketType parse start) (GoSource.Grammar.bracketType tree start) Reader.type := by
  refine .bind_look fun o => ?_
  cases o with
  | some sp =>
    refine .bind hp.type fun R' t t' _ ht => finishType_mimics ?_
    simp [TypeExpr.read, ht]
  | none =>
    refine .joinOption ArrayLength.read (fun dots => .pure rfl) (.map (.unrestricted hp.expression)
      fun R' i x _ hx => by simp [ArrayLength.read, hx]) fun R₁ length length' _ hlength => ?_
    refine .bind_look fun _ => .bind hp.type fun R₂ t t' hle ht => finishType_mimics ?_
    have hlength := ArrayLength.read_le hle _ hlength
    simp [TypeExpr.read, hlength, ht]

theorem type_mimics : Mimics R (type parse) (GoSource.Grammar.type tree) Reader.type := by
  refine .bind_look fun start => .bind_look fun kind => ?_
  cases kind with
  | ident => exact typeName_mimics
  | lParen =>
    refine .bind_look fun _ => .bind (.unrestricted hp.type) fun R' t t' _ ht => ?_
    exact .bind_look fun _ => .pure ht
  | arrow => exact .bind_look fun arrow => receiveChan_mimics hp
  | lBrack => exact .bind_look fun _ => bracketType_mimics hp
  | star =>
    refine .bind_look fun _ => .bind hp.type fun R' t t' _ ht => finishType_mimics ?_
    simp [TypeExpr.read, ht]
  | kwMap =>
    refine .bind_look fun _ => .bind_look fun _ => ?_
    refine .bind (.unrestricted hp.type) fun R₁ key key' _ hkey => .bind_look fun _ => ?_
    refine .bind hp.type fun R₂ t t' hle ht => finishType_mimics ?_
    have hkey := hle.node _ _ hkey
    simp [TypeExpr.read, hkey, ht]
  | kwChan =>
    refine .bind_look fun _ => .joinOption same (fun _ => .pure rfl) (.pure rfl) ?_
    intro R₁ dir dir' _ hdir
    obtain rfl : dir = dir' := same_eq_some.mp hdir
    refine .bind hp.type fun R₂ t t' _ ht => finishType_mimics ?_
    simp [TypeExpr.read, ht]
  | kwFunc =>
    refine .bind_look fun _ => .bind hp.signature fun R' sig sig' _ hsig => finishType_mimics ?_
    simp [TypeExpr.read, hsig]
  | kwStruct =>
    refine .bind hp.structType fun R' fs fs' _ hfs => finishType_mimics ?_
    simp [TypeExpr.read, hfs]
  | kwInterface =>
    refine .bind hp.interfaceType fun R' es es' _ hes => finishType_mimics ?_
    simp [TypeExpr.read, hes]
  | _ => exact .unexpected

end

-- =========================================================== parameters

/-- The names that have been read. -/
def LeadingNames.read (R : Reader) : LeadingNames → Option GoSource.Grammar.LeadingNames
  | undecided names => do pure (.undecided (← each Ident.read R names))
  | types names => do pure (.types (← each Ident.read R names))
  | qualified names pkg => do pure (.qualified (← each Ident.read R names) (← pkg.read R))
  | named names => do pure (.named (← each Ident.read R names))

theorem LeadingNames.read_cases {state : LeadingNames} {state' : GoSource.Grammar.LeadingNames}
    (h : state.read R = some state') :
    (∃ names names', state = .undecided names ∧ state' = .undecided names' ∧
      each Ident.read R names = some names') ∨
    (∃ names names', state = .types names ∧ state' = .types names' ∧
      each Ident.read R names = some names') ∨
    (∃ names names' pkg pkg', state = .qualified names pkg ∧ state' = .qualified names' pkg' ∧
      each Ident.read R names = some names' ∧ pkg.read R = some pkg') ∨
    ∃ names names', state = .named names ∧ state' = .named names' ∧
      each Ident.read R names = some names' := by
  cases state <;> simp [read, Option.bind_eq_some_iff] at h <;> grind

theorem leadingNames_mimics :
    Mimics R leadingNames GoSource.Grammar.leadingNames LeadingNames.read := by
  have hinit : LeadingNames.read R (.undecided []) = some (.undecided []) := rfl
  refine .repeating hinit fun R₁ state state' _ hstate => ?_
  unfold leadingName GoSource.Grammar.leadingName
  obtain ⟨names, names', rfl, rfl, hnames⟩ | ⟨_, _, rfl, rfl, -⟩ | ⟨_, _, _, _, rfl, rfl, -⟩ |
    ⟨_, _, rfl, rfl, -⟩ := LeadingNames.read_cases hstate
  · refine .choice (.bind .ident fun R₂ n m hle hn => .bind_look fun kind => ?_) (.pure ?_)
    · have hnames := each_le (Ident.read_le hle) hnames
      have hmore := each_cons hn hnames
      have hnamed : (LeadingNames.named (n :: names)).read R₂ = some (.named (m :: names')) := by
        simp [LeadingNames.read, hmore]
      cases kind with
      | comma =>
        refine .bind_look fun _ => .choice (.pure (turn_stop ?_)) (.pure (turn_again ?_))
        · simp [LeadingNames.read, hmore]
        · simp [LeadingNames.read, hmore]
      | rParen => exact .pure (turn_stop (by simp [LeadingNames.read, hmore]))
      | dot => exact .pure (turn_stop (by simp [LeadingNames.read, hnames, hn]))
      | _ => exact .pure (turn_stop hnamed)
    · exact turn_stop (by simp [LeadingNames.read, hnames])
  iterate 3 exact .pure (turn_stop hstate)

theorem finishParam_mimics {names : List Ident} {names' : List GoSource.Ident}
    {dots : Option Span} {i : TypeId} {t : GoSource.TypeExpr} {start : Location}
    (hnames : each Ident.read R names = some names') (ht : R.type i = some t) :
    Mimics R (finishParam names dots i start) (GoSource.Grammar.finishParam names' dots t start)
      Reader.param := by
  refine .bind_listIdents hnames fun R' r hle hr => .bind_look fun sp => .newParam ?_
  have ht := hle.node _ _ ht
  simp [Param.read, hr, ht]

/-- Their names have no list in the buffer, but a range without items. -/
theorem typeNameParams_mimics {names : List Ident} {names' : List GoSource.Ident}
    (h : each Ident.read R names = some names') :
    Mimics R (typeNameParams names) (GoSource.Grammar.typeNameParams names')
      (each Reader.param) := by
  unfold typeNameParams GoSource.Grammar.typeNameParams
  induction names generalizing names' with
  | nil =>
    obtain rfl := Option.some.inj h
    exact .pure rfl
  | cons n names ih =>
    obtain ⟨m, names', hn, hnames, rfl⟩ := each_cons_iff.mp h
    rw [List.foldrM_cons, List.foldrM_cons]
    refine .bind (ih hnames) fun R₁ ps ps' hle hps => ?_
    have hn := Ident.read_le hle _ hn
    rw [Ident.span_of_read hn]
    refine .bind (.newType (by simp [TypeExpr.read, optional, hn])) fun R₂ t t' hle ht => ?_
    have hps := each_le (hle.node .param) hps
    refine .withEmpty fun hempty => .bind (.newParam ?_) fun R₃ p p' hle hparam => .pure ?_
    · simp [Param.read, hempty, ht]
    · exact each_cons hparam (each_le (hle.node .param) hps)

theorem moreParams_mimics : Mimics R moreParams GoSource.Grammar.moreParams same := by
  refine .bind_look fun o => ?_
  cases o with
  | none => exact .pure rfl
  | some sp => exact .bind_look fun _ => .pure rfl

section

variable {parse : SubParser} {tree : GoSource.SubParser} (hp : parse.Mimics tree)

include hp

theorem paramAfter_mimics {names : List Ident} {names' : List GoSource.Ident} {start : Location}
    (h : each Ident.read R names = some names') :
    Mimics R (paramAfter parse names start) (GoSource.Grammar.paramAfter tree names' start)
      (both Reader.param same) := by
  refine .bind_look fun dots => .bind hp.type fun R₁ t t' hle ht => ?_
  refine .bind (finishParam_mimics (each_le (Ident.read_le hle) h) ht) fun R₂ p p' _ hparam => ?_
  refine .ite (fun _ => .bind_look fun _ => .pure (both_eq_some.mpr ⟨hparam, rfl⟩)) fun _ => ?_
  refine .bind moreParams_mimics fun R₃ more more' hle hmore => .pure ?_
  exact both_eq_some.mpr ⟨hle.node _ _ hparam, hmore⟩

theorem unnamedParams_mimics {ps : List ParamId} {ps' : List GoSource.Param}
    (h : each Reader.param R ps = some ps') :
    Mimics R (unnamedParams parse ps) (GoSource.Grammar.unnamedParams tree ps')
      (each Reader.param) := by
  refine .repeating h fun R₁ ps ps' _ hps => .bind_look fun start => ?_
  refine .bind (paramAfter_mimics hp each_nil) fun R₂ ⟨p, more⟩ ⟨p', more'⟩ hle hr => ?_
  obtain ⟨hparam, hmore⟩ := both_eq_some.mp hr
  obtain rfl : more = more' := same_eq_some.mp hmore
  have hps := each_cons hparam (each_le (hle.node .param) hps)
  exact .ite (fun _ => .pure (turn_again hps)) fun _ => .pure (turn_stop hps)

theorem namedParams_mimics {names : List Ident} {names' : List GoSource.Ident}
    (h : each Ident.read R names = some names') :
    Mimics R (namedParams parse names) (GoSource.Grammar.namedParams tree names')
      (each Reader.param) := by
  have hinit : both (each Ident.read) (each Reader.param) R (names, []) = some (names', []) :=
    both_eq_some.mpr ⟨h, each_nil⟩
  refine .bind (.repeating hinit ?_) fun R₁ st st' _ hst => .pure (both_eq_some.mp hst).2
  rintro R₁ ⟨names, ps⟩ ⟨names', ps'⟩ _ hst
  obtain ⟨hnames, hps⟩ := both_eq_some.mp hst
  have group {start start' : Location} (hstart : start = start') : Mimics R₁
      (paramAfter parse names start >>= fun r =>
        if r.2 then do Pure.pure (.again (← commaSeparated Parser.ident, r.1 :: ps))
        else Pure.pure (.stop ([], r.1 :: ps)))
      (GoSource.Grammar.paramAfter tree names' start' >>= fun r =>
        if r.2 then do
          Pure.pure (.again (← GoSource.Grammar.commaSeparated GoSource.Parser.ident, r.1 :: ps'))
        else Pure.pure (.stop ([], r.1 :: ps')))
      (turn (both (each Ident.read) (each Reader.param))) := by
    subst hstart
    refine .bind (paramAfter_mimics hp hnames) fun R₂ ⟨p, more⟩ ⟨p', more'⟩ hle hr => ?_
    obtain ⟨hparam, hmore⟩ := both_eq_some.mp hr
    obtain rfl : more = more' := same_eq_some.mp hmore
    have hps := each_cons hparam (each_le (hle.node .param) hps)
    refine .ite (fun _ => ?_) fun _ => .pure (turn_stop (both_eq_some.mpr ⟨each_nil, hps⟩))
    refine .bind (commaSeparated_mimics Ident.read_le .ident) fun R₃ ns ns' hle hns => ?_
    exact .pure (turn_again (both_eq_some.mpr ⟨hns, each_le (hle.node .param) hps⟩))
  show Mimics R₁ (namedParam parse (names, ps)) (GoSource.Grammar.namedParam tree (names', ps')) _
  unfold namedParam GoSource.Grammar.namedParam
  cases mapM_eq_some_iff.mp hnames with
  | nil => exact .bind_look fun _ => group rfl
  | cons hn => exact group (congrArg Span.start (Ident.span_of_read hn))

theorem params_mimics :
    Mimics R (params parse) (GoSource.Grammar.params tree) (each Reader.param) := by
  refine .bind leadingNames_mimics fun R₁ state state' _ hstate => ?_
  have types {names : List Ident} {names' : List GoSource.Ident}
      (hnames : each Ident.read R₁ names = some names') : Mimics R₁
      (typeNameParams names >>= fun params => do
        if (← isAt .rParen) then pure params else unnamedParams parse params)
      (GoSource.Grammar.typeNameParams names' >>= fun params => do
        if (← GoSource.Parser.isAt .rParen) then pure params
        else GoSource.Grammar.unnamedParams tree params) (each Reader.param) :=
    .bind (typeNameParams_mimics hnames) fun _ _ _ _ hps =>
      .choice (.pure hps) (unnamedParams_mimics hp hps)
  obtain ⟨names, names', rfl, rfl, hnames⟩ | ⟨names, names', rfl, rfl, hnames⟩ |
    ⟨names, names', pkg, pkg', rfl, rfl, hnames, hpkg⟩ | ⟨names, names', rfl, rfl, hnames⟩ :=
      LeadingNames.read_cases hstate
  · exact types hnames
  · exact types hnames
  · refine .bind (typeNameParams_mimics hnames) fun R₂ ps ps' hle hps => ?_
    have hpkg := Ident.read_le hle _ hpkg
    refine .bind (qualifiedType_mimics hpkg) fun R₃ t t' hle ht => ?_
    have hps := each_le (hle.node .param) hps
    rw [Ident.span_of_read hpkg]
    refine .bind (finishParam_mimics each_nil ht) fun R₄ p p' hle hparam => ?_
    have hps := each_cons hparam (each_le (hle.node .param) hps)
    refine .bind moreParams_mimics fun R₅ more more' hle hmore => ?_
    obtain rfl : more = more' := same_eq_some.mp hmore
    have hps := each_le (hle.node .param) hps
    exact .ite (fun _ => unnamedParams_mimics hp hps) fun _ => .pure hps
  · exact namedParams_mimics hp (each_reverse hnames)

theorem parameters_mimics :
    Mimics R (parameters parse) (GoSource.Grammar.parameters tree) ParamList.read := by
  refine .unrestricted (.bind_look fun lParen => ?_)
  refine .joinChoice (each Reader.param) (.pure rfl)
    (.map (params_mimics hp) fun _ _ _ _ => each_reverse) fun R₁ ps ps' _ hps => ?_
  refine .bind_look fun rParen => .bind_listParams hps fun R₂ r _ hr => .pure ?_
  simp [ParamList.read, hr]

theorem signature_mimics :
    Mimics R (signature parse) (GoSource.Grammar.signature tree) Signature.read := by
  refine .bind hp.parameters fun R₁ ps ps' _ hps => ?_
  rw [ParamList.span_of_read hps]
  have finish {R₂ : Reader} {o : Option FuncResult} {o' : Option GoSource.FuncResult}
      (hle : R₁.Le R₂) (ho : maybe FuncResult.read R₂ o = some o') : Mimics R₂
      (do Pure.pure ⟨ps, o, ← spanFrom ps'.span.start⟩)
      (do Pure.pure ⟨ps', o', ← GoSource.Parser.spanFrom ps'.span.start⟩) Signature.read := by
    refine .bind_look fun sp => .pure ?_
    have hps := ParamList.read_le hle _ hps
    unfold maybe at ho
    simp [Signature.read, hps, ho]
  refine .bind_look fun _ => .bind_look fun _ => .ite (fun _ => ?_) fun _ => ?_
  · refine .bind_map (.map hp.parameters ?_) fun R₂ r r' hle hr => finish hle (maybe_some hr)
    exact fun R₂ list list' _ hlist => by simp [FuncResult.read, hlist]
  · refine .ite (fun _ => ?_) fun _ => finish (.refl _) rfl
    refine .bind_map (.map hp.type ?_) fun R₂ r r' hle hr => finish hle (maybe_some hr)
    exact fun R₂ t t' _ ht => by simp [FuncResult.read, ht]

-- =============================================== structs and interfaces

theorem structType_mimics :
    Mimics R (structType parse) (GoSource.Grammar.structType tree) Reader.fields := by
  refine .bind_look fun _ => .bind_look fun _ => ?_
  refine .bind (.unrestricted (itemsUntil_mimics (fun h => h.node .field) fun _ => hp.fieldDecl))
    fun R₁ fs fs' _ hfs => .bind_look fun _ => .of_bind_pure ?_
  exact .bind_listFields hfs fun R₂ r _ hr => .pure hr

theorem fieldParts_mimics :
    Mimics R (fieldParts parse) (GoSource.Grammar.fieldParts tree)
      (both Reader.idents Reader.type) := by
  have embedded {R' : Reader} {p : Parser TypeId} {q : GoSource.Parser GoSource.TypeExpr}
      (h : Mimics R' p q Reader.type) :
      Mimics R' (p >>= fun t => Pure.pure (.empty, t)) (q >>= fun t => Pure.pure ([], t))
        (both Reader.idents Reader.type) :=
    .bind h fun _ _ _ _ ht => .withEmpty fun hempty => .pure (both_eq_some.mpr ⟨hempty .idents, ht⟩)
  have named {R' : Reader} {n : Ident} {n' : GoSource.Ident} (hn : n.read R' = some n') :
      Mimics R'
        (afterCommas Parser.ident n >>= fun names => parse.type >>= fun t =>
          listIdents names >>= fun names => Pure.pure (names, t))
        (GoSource.Grammar.afterCommas GoSource.Parser.ident n' >>= fun names =>
          tree .type >>= fun t => GoSource.Parser.recording (·.addIdents names) >>= fun _ =>
            Pure.pure (names, t))
        (both Reader.idents Reader.type) := by
    refine .bind (afterCommas_mimics Ident.read_le hn .ident) fun R₂ names names' _ hnames => ?_
    refine .bind hp.type fun R₃ t t' hle ht => ?_
    refine .bind_listIdents (each_le (Ident.read_le hle) hnames) fun R₄ r hle hr => .pure ?_
    exact both_eq_some.mpr ⟨hr, hle.node _ _ ht⟩
  refine .bind_look fun start => .bind_look fun kind => ?_
  cases kind with
  | star =>
    refine .bind_look fun _ => .bind typeName_mimics fun R₁ elem elem' _ helem => ?_
    exact embedded (finishType_mimics (by simp [TypeExpr.read, helem]))
  | ident =>
    refine .bind .ident fun R₁ first first' _ hfirst => .bind_look fun kind => ?_
    cases kind with
    | dot | stringLit | rawStringLit | semi | rBrace => exact embedded (qualifiedType_mimics hfirst)
    | _ => exact named hfirst
  | _ => exact .unexpected

theorem fieldDecl_mimics :
    Mimics R (fieldDecl parse) (GoSource.Grammar.fieldDecl tree) Reader.field := by
  refine .bind_look fun start => .bind (fieldParts_mimics hp) ?_
  rintro R₁ ⟨r, i⟩ ⟨names, t⟩ _ h
  obtain ⟨hnames, ht⟩ := both_eq_some.mp h
  have finish {R₂ : Reader} {o : Option LitId} {o' : Option Lit} (hle : R₁.Le R₂)
      (ho : maybe Reader.literal R₂ o = some o') : Mimics R₂
      (do newField ⟨r, i, o⟩ (← spanFrom start))
      (do GoSource.Parser.newField ⟨names, t, o'⟩ (← GoSource.Parser.spanFrom start))
      Reader.field := by
    refine .bind_look fun sp => .newField ?_
    have hnames := hle.list _ _ hnames
    have ht := hle.node _ _ ht
    unfold maybe at ho
    simp [Field.read, hnames, ht, ho]
  refine .bind_look fun kind => ?_
  cases kind with
  | stringLit | rawStringLit =>
    exact .bind_map .literal fun R₂ l l' hle hl => finish hle (maybe_some hl)
  | _ => exact finish (.refl _) rfl

theorem interfaceElement_mimics :
    Mimics R (interfaceElement parse) (GoSource.Grammar.interfaceElement tree)
      InterfaceElement.read := by
  refine .bind .ident fun R₁ n m _ hn => .choice ?_ ?_
  · refine .bind hp.signature fun R₂ sig sig' hle hsig => .pure ?_
    have hn := Ident.read_le hle _ hn
    simp [InterfaceElement.read, hn, hsig]
  · refine .bind (qualifiedType_mimics hn) fun R₂ t t' _ ht => .pure ?_
    simp [InterfaceElement.read, ht]

theorem interfaceType_mimics :
    Mimics R (interfaceType parse) (GoSource.Grammar.interfaceType tree)
      Reader.interfaceElements := by
  refine .bind_look fun _ => .bind_look fun _ => ?_
  refine .bind (.unrestricted (itemsUntil_mimics InterfaceElement.read_le
    fun _ => interfaceElement_mimics hp)) fun R₁ es es' _ hes => .bind_look fun _ => ?_
  exact .of_bind_pure (.bind_listInterfaceElements hes fun R₂ r _ hr => .pure hr)

end

end GoSource.Stored.Grammar
