/-
What is derived comes back from its rendering.

Not every tree does: a slice with a third bound and no second, or a list
of parameters some of which have names, would be written out as something
else. Trees that are derived are none of these. `Phrase.ComesBack` says of
every phrase what its derivations know of a tree: that it comes back, and
what the reading of larger ones depends on, such as the token it begins
with or that its parameters have names. It is shown by induction over
derivations (`Derives.comesBack`), with one case for each way to form a
phrase.
-/
import GoSource.Proofs.Derivation
import GoSource.Proofs.Rendering.File

namespace GoSource

open GoSource.Parser

-- ======================================================= what is returned

/-- An expression comes back, and so does the type that it is, if it is
one. -/
structure ExprReturns (x : Expr) : Prop where
  rereads : Always (ExprRereads · x)
  types : ∀ u, x.form = .type u → Always (TypeRereads · u)
  unelided : Render.isElided x.form = false

/-- An expression that is no type and has a type of its own if it is a
literal. -/
theorem ExprReturns.of_form {x : Expr} (hx : Always (ExprRereads · x))
    (htype : ∀ u, x.form ≠ .type u) (helided : Render.isElided x.form = false) : ExprReturns x :=
  ⟨hx, fun u hu => absurd hu (htype u), helided⟩

/-- A type comes back, and does so as an operand where it can stand as
one. -/
structure TypeReturns (t : TypeExpr) : Prop where
  rereads : Always (TypeRereads · t)
  operand : t.form.isOperand = true → ∀ i sp, Always (ExprRereads · ⟨i, sp, .type t⟩)

theorem TypeReturns.of_headed {t : TypeExpr} (ht : Always (TypeRereads · t))
    (hform : t.form.isHeaded = true) : TypeReturns t :=
  ⟨ht, fun _ _ _ => ht.headedExpr hform⟩

structure SimpleReturns (sm : SimpleMode) (form : StmtForm) : Prop where
  rereads : Always (SimpleRereads · sm form)
  begins : BeginsSimple form

structure StmtReturns (s : Stmt) : Prop where
  rereads : Always (StmtRereads · s)
  begins : BeginsStmt s

/-- A spec comes back in every group of its kind that has it in its
place. -/
structure SpecReturns (k : GroupKind) (form : DeclForm) : Prop where
  rereads : ∀ i sp place, (∀ c, form = .const c → c.iota = place) →
    Always (SpecRereads · k place ⟨i, sp, form⟩)
  begins : ∀ F t, Leads (Render.spec form) F t → t.kind ≠ .rParen
  kind : ∀ i sp ds, Grammar.IsGroup k (⟨i, sp, form⟩ :: ds)

/-- The declarations of a group. -/
structure GroupReturns (k : GroupKind) (ds : List Decl) : Prop where
  numbered : Numbered ds
  specs : ∀ d ∈ ds, SpecReturns k d.form

/-- What is known of the tree of a phrase: its parts come back, and it is
one that the parser returns. -/
def Phrase.ComesBack : (p : Phrase) → p.Result → Prop
  | .name, _ | .literal, _ | .mark _, _ | .importName, _ | .importPath, _ | .importSpec, _ => True
  | .optional p, a => ∀ x ∈ a, p.ComesBack x
  | .terminated _ p, as | .listed _ p, as => ∀ a ∈ as, p.ComesBack a
  | .separated _ p, as => as ≠ [] ∧ ∀ a ∈ as, p.ComesBack a
  | .expr m, x => m.guard = false → ExprReturns x
  | .arguments, args => (∀ x ∈ args.1, ExprReturns x) ∧ (args.1 = [] → args.2 = none)
  | .part, x => Always (PartRereads · x)
  | .element, e => Always (ElementRereads · e)
  | .typeName, t => ∃ i sp pkg n, t = ⟨i, sp, .name pkg n⟩
  | .type, t => TypeReturns t
  | .arrayLength, len => ∀ x, len = .expr x → ExprReturns x
  | .param named, p => TypeReturns p.form.type ∧ (p.form.names = [] ↔ named = false)
  | .params, ps => Grammar.Uniform ps ∧ Grammar.LastDots ps ∧
      ∀ p ∈ ps, TypeReturns p.form.type
  | .parameters, ps => Always (ParamsReread · ps)
  | .signature, sig => Always (SignatureRereads · sig)
  | .result, r => Always (Grammar.ResultRereads · r)
  | .field, f => Always (FieldRereads · f) ∧ (f.form.names = [] → Grammar.IsEmbedded f.form.type)
  | .embedded, t => Grammar.IsEmbedded t
  | .tag, g => ∃ bytes, g.form = .string bytes
  | .interfaceElement, e => Always (InterfaceElementRereads · e) ∧
      ∀ t, e = .embedded t → ∃ pkg n, t.form = .name pkg n
  | .simple sm m, d => m.guard = false → SimpleReturns sm d.form
  | .stmt m, s => m.guard = false → StmtReturns s
  | .endedStmts m, ss | .stmts m, ss => m.guard = false → ∀ s ∈ ss, StmtReturns s
  | .block, b => Always (BlockRereads · b)
  | .ifHeader m, r => m.guard = false →
      (∀ s ∈ r.1, SimpleReturns .plain s.form) ∧ SimpleReturns .plain (.expr r.2)
  | .ifStmt m, s => m.guard = false → Always (IfRereads · s) ∧
      ∃ i sp init cond body other, s = ⟨i, sp, .ifStmt init cond body other⟩
  | .otherwise m, s => m.guard = false → Always (OtherwiseRereads · s)
  | .init m, s => m.guard = false → SimpleReturns .forHeader s.form ∧
      ∀ left define x, s.form ≠ .range left define x
  | .post m, s => m.guard = false → SimpleReturns .plain s.form ∧
      ∀ ns op xs, s.form ≠ .shortVar ns op xs
  | .forHeader m, h => m.guard = false → EndsHeader h.last → Always (ForHeaderRereads · h)
  | .forStmt m, form => m.guard = false → Always (ForRereads · form) ∧
      ∃ header body, form = .forStmt header body
  | .values m, xs => m.guard = false → xs ≠ [] ∧ ∀ x ∈ xs, ExprReturns x
  | .spec k m, form => m.guard = false → SpecReturns k form
  | .specDecl k m, d => m.guard = false → SpecReturns k d.form
  | .group k m, ds => m.guard = false → GroupReturns k ds
  | .function, d => Grammar.IsFunction d ∧ Always (FunctionRereads · d)
  | .importDecl, d => Grammar.IsImport d
  | .topLevel i o, ds => (∀ g ∈ Render.groups ds, TopItem i o g) ∧
      ∀ d ∈ ds.head?, Render.continuesGroup d = false
  | .decls i o, ds => ∀ g ∈ Render.groups ds, TopItem i o g
  | .file, f => (∀ g ∈ Render.groups f.imports, TopItem true false g) ∧
      ∀ g ∈ Render.groups f.decls, TopItem false true g

-- ========================================================= what is asked

theorem SimpleMode.eq_of_rangeAllowed {sm : SimpleMode} (h : sm.rangeAllowed = true) :
    sm = .forHeader := by
  cases sm <;> first | rfl | exact nomatch h

theorem SimpleMode.eq_of_labelAllowed {sm : SimpleMode} (h : sm.labelAllowed = true) :
    sm = .statement := by
  cases sm <;> first | rfl | exact nomatch h

/-- What opens a literal in a header does so everywhere. -/
theorem Grammar.opensComposite_anywhere {h : Bool} {x : Expr}
    (hx : Grammar.opensComposite h x = true) : Grammar.opensComposite false x = true := by
  cases h with
  | false => exact hx
  | true =>
    unfold Grammar.opensComposite at hx ⊢
    split at hx <;> first | rfl | exact nomatch hx

theorem AreNames.ne_nil {xs : List Expr} {ns : List Ident} (h : AreNames xs ns) (hxs : xs ≠ []) :
    ns ≠ [] := by
  rintro rfl
  exact hxs (List.map_eq_nil_iff.mp h)

/-- So begins what begins with a list of expressions. -/
theorem beginsSimple_exprs {form : StmtForm} {xs : List Expr} {us : List Slot} (hxs : xs ≠ [])
    (hform : Render.stmtForm form = Render.exprs xs ++ us) : BeginsSimple form := by
  obtain ⟨x, xs, rfl⟩ := List.exists_cons_of_ne_nil hxs
  rw [Render.exprs, Render.exprList, Render.commas, List.append_assoc] at hform
  exact beginsSimple_parens hform

/-- And what begins with names that are defined. -/
theorem beginsSimple_defineRange {left : List Expr} {ns : List Ident} {x : Expr} (hne : left ≠ [])
    (hnames : AreNames left ns) : BeginsSimple (.range left true x) := by
  obtain ⟨⟨i, sp, form⟩, left, rfl⟩ := List.exists_cons_of_ne_nil hne
  obtain ⟨n, ns, rfl, hn, -⟩ := List.map_eq_cons_iff.mp (Eq.symm hnames)
  obtain rfl : form = .ident n := hn.symm
  exact beginsSimple_names rfl

theorem beginsSimple_assignRange {left : List Expr} {x : Expr} (hne : left ≠ []) :
    BeginsSimple (.range left false x) := by
  obtain ⟨y, left, rfl⟩ := List.exists_cons_of_ne_nil hne
  exact beginsSimple_exprs hne rfl

-- ================================================================ specs

namespace SpecReturns

variable {ns : List Ident} {t : Option TypeExpr} {values : Option (List Expr)} {lines : List String}

/-- The values after an `=`, of which there is one at least. -/
theorem values_rereads (h : ∀ xs ∈ values, xs ≠ [] ∧ ∀ x ∈ xs, ExprReturns x) :
    (∀ x ∈ values.getD [], Always (ExprRereads · x)) ∧ (values.getD [] = [] → values = none) := by
  cases values with
  | none => exact ⟨nofun, fun _ => rfl⟩
  | some xs => exact ⟨fun x hx => ((h xs rfl).2 x hx).rereads, fun hnil => absurd hnil (h xs rfl).1⟩

theorem names_begin {ss : List Slot} (hne : ns ≠ []) :
    ∀ F t, Leads (Render.names ns ++ ss) F t → t.kind ≠ .rParen := by
  obtain ⟨n, ns, rfl⟩ := List.exists_cons_of_ne_nil hne
  exact fun _ _ => Grammar.leads_name

theorem const {iota : Nat} (hne : ns ≠ []) (ht : ∀ u ∈ t, Always (TypeRereads · u))
    (hvalues : ∀ xs ∈ values, xs ≠ [] ∧ ∀ x ∈ xs, ExprReturns x)
    (hnone : values = none → t = none ∧ iota ≠ 0) :
    SpecReturns .const (.const ⟨lines, ns, t, values.getD [], iota⟩) where
  rereads i sp place hplace := by
    obtain rfl : iota = place := hplace _ rfl
    obtain ⟨hxs, hnil⟩ := values_rereads hvalues
    exact .constSpec hne ht hxs fun h => hnone (hnil h)
  begins := names_begin hne
  kind i sp ds := ⟨by cases ds <;> rfl, rfl⟩

theorem var (hne : ns ≠ []) (ht : ∀ u ∈ t, Always (TypeRereads · u))
    (hvalues : ∀ xs ∈ values, xs ≠ [] ∧ ∀ x ∈ xs, ExprReturns x)
    (hnone : values = none → t ≠ none) :
    SpecReturns .var (.var ⟨lines, ns, t, values.getD []⟩) where
  rereads i sp place _ := by
    obtain ⟨hxs, hnil⟩ := values_rereads hvalues
    exact .varSpec hne ht hxs fun h => hnone (hnil h)
  begins := names_begin hne
  kind i sp ds := ⟨by cases ds <;> rfl, rfl⟩

theorem type {n : Ident} {assign : Option Span} {u : TypeExpr} (hu : Always (TypeRereads · u)) :
    SpecReturns .type (.type ⟨lines, n, assign, u⟩) where
  rereads i sp place _ := .typeSpec hu
  begins _ _ := Grammar.leads_name
  kind i sp ds := ⟨by cases ds <;> rfl, rfl⟩

end SpecReturns

-- =============================================================== groups

/-- Only constants continue a group, and not those in the first place. -/
theorem continuesGroup_iff {d : Decl} :
    Render.continuesGroup d = true ↔ ∃ c, d.form = .const c ∧ c.iota ≠ 0 := by
  obtain ⟨i, sp, form⟩ := d
  cases form <;> simp [Render.continuesGroup]

theorem SpecReturns.isConst {k : GroupKind} {form : DeclForm} (h : SpecReturns k form) :
    (∃ c, form = .const c) ↔ k = .const := by
  have hkeyword := (h.kind 0 .nowhere []).keyword
  constructor
  · rintro ⟨c, rfl⟩
    cases k <;> first | rfl | exact nomatch hkeyword
  · rintro rfl
    cases form with
    | const c => exact ⟨c, rfl⟩
    | _ => exact nomatch hkeyword

namespace GroupReturns

variable {k : GroupKind} {d : Decl} {ds : List Decl}

theorem nil : GroupReturns k [] :=
  ⟨nofun, nofun⟩

theorem rereads (h : GroupReturns k ds) : Always (GroupRereads · k ds) := by
  refine .group (fun place d hd => ?_) fun d hd => (h.specs d hd).begins
  obtain ⟨i, sp, form⟩ := d
  refine (h.specs _ (List.mem_of_getElem? hd)).rereads i sp place ?_
  rintro c rfl
  exact h.numbered place _ c hd rfl

theorem isGroup (h : GroupReturns k (d :: ds)) : Grammar.IsGroup k (d :: ds) :=
  (h.specs d List.mem_cons_self).kind d.id d.span ds

theorem keyword (h : GroupReturns k ds) :
    ∃ k', GroupReturns k' ds ∧ Render.keyword ds = k'.keyword := by
  cases ds with
  | nil => exact ⟨.var, nil, rfl⟩
  | cons d ds => exact ⟨k, h, h.isGroup.keyword⟩

/-- In a group of constants all but the first continue it; in others none
does. -/
theorem continues (h : GroupReturns k ds) {place : Nat} (hd : ds[place]? = some d) :
    Render.continuesGroup d = true ↔ k = .const ∧ place ≠ 0 := by
  have hspec := h.specs d (List.mem_of_getElem? hd)
  rw [continuesGroup_iff]
  constructor
  · rintro ⟨c, hform, hiota⟩
    exact ⟨hspec.isConst.mp ⟨c, hform⟩, h.numbered place d c hd hform ▸ hiota⟩
  · rintro ⟨hk, hplace⟩
    obtain ⟨c, hform⟩ := hspec.isConst.mpr hk
    exact ⟨c, hform, (h.numbered place d c hd hform).symm ▸ hplace⟩

theorem head (h : GroupReturns k ds) (hd : d ∈ ds.head?) : Render.continuesGroup d = false := by
  rw [Option.mem_def, List.head?_eq_getElem?] at hd
  rw [← Bool.not_eq_true, h.continues hd]
  exact fun hplace => hplace.2 rfl

/-- A group is written as one, or as several of one declaration each. -/
theorem topItems (h : GroupReturns k ds) {imports : Bool} :
    ∀ g ∈ Render.groups ds, TopItem imports true g := by
  cases ds with
  | nil => exact nofun
  | cons d ds =>
    by_cases hk : k = .const
    · rw [Grammar.groups_together fun e he => ?_]
      · exact List.forall_mem_singleton.mpr (.group h.isGroup h.rereads)
      · obtain ⟨place, he⟩ := List.getElem?_of_mem he
        have hplace : (d :: ds)[place + 1]? = some e := he
        exact (h.continues hplace).mpr ⟨hk, Nat.succ_ne_zero _⟩
    · rw [Grammar.groups_alone fun e he => ?_]
      · intro g hg
        obtain ⟨e, he, rfl⟩ := List.mem_map.mp hg
        have hspec := h.specs e he
        have hlone : GroupReturns k [e] := by
          refine ⟨fun place e' c he' hform => ?_, List.forall_mem_singleton.mpr hspec⟩
          obtain rfl := List.mem_singleton.mp (List.mem_of_getElem? he')
          exact absurd (hspec.isConst.mp ⟨c, hform⟩) hk
        exact .group hlone.isGroup hlone.rereads
      · obtain ⟨place, he⟩ := List.getElem?_of_mem he
        rw [← Bool.not_eq_true, h.continues he]
        exact fun hconst => hk hconst.1

end GroupReturns

-- ========================================================== derivations

/-- Whatever is derived comes back from its rendering. -/
theorem Derives.comesBack {p : Phrase} {ts : List Token} {a : p.Result} (h : Derives p ts a) :
    p.ComesBack a := by
  induction h with
  | name | literal | mark | dotImport | nameImport | importPath | importSpec => trivial
  | absent | terminatedNil => exact nofun
  | present _ ih =>
    rintro _ ⟨⟩
    exact ih
  | terminatedSnoc _ _ _ _ ih ih' =>
    exact List.forall_mem_append.mpr ⟨ih, List.forall_mem_singleton.mpr ih'⟩
  | separated _ _ ih ih' =>
    exact ⟨by simp, List.forall_mem_append.mpr ⟨ih, List.forall_mem_singleton.mpr ih'⟩⟩
  | listedClosed _ ih => exact ih
  | listedOpen _ ih => exact ih.2
  -- operands
  | identExpr => exact fun _ => .of_form .ident nofun rfl
  | literalExpr => exact fun _ => .of_form .literal nofun rfl
  | typeExpr _ hform ih =>
    refine fun _ => ⟨ih.operand hform _ _, ?_, rfl⟩
    rintro _ ⟨⟩
    exact ih.rereads
  | parenExpr _ _ _ ih => exact fun _ => ih rfl
  -- what is attached to an operand
  | selector _ _ _ ih => exact fun hg => .of_form (.selector (ih hg).rereads) nofun rfl
  | typeAssert _ _ _ _ _ ih iht =>
    exact fun hg => .of_form (.typeAssert (ih hg).rereads iht.rereads.typeInParens) nofun rfl
  | typeGuard hguard => exact fun hg => nomatch hg.symm.trans hguard
  | index _ _ _ _ ihx ihy =>
    exact fun hg => .of_form (.index (ihx hg).rereads (ihy rfl).rereads) nofun rfl
  | slice _ _ _ _ _ _ ihx ihlow ihhigh =>
    exact fun hg => .of_form (.slice (ihx hg).rereads (fun z hz => (ihlow z hz rfl).rereads)
      (fun z hz => (ihhigh z hz rfl).rereads) nofun fun _ => rfl) nofun rfl
  | fullSlice _ _ _ _ _ _ _ _ ihx ihlow ihhigh ihtop =>
    refine fun hg => .of_form (.slice (ihx hg).rereads (fun z hz => (ihlow z hz rfl).rereads)
      ?_ ?_ nofun) nofun rfl
    · rintro _ ⟨⟩
      exact (ihhigh rfl).rereads
    · rintro _ ⟨⟩
      exact (ihtop rfl).rereads
  | call _ _ _ _ ihx ihargs =>
    exact fun hg => .of_form (.call (ihx hg).rereads (fun z hz => (ihargs.1 z hz).rereads)
      ihargs.2) nofun rfl
  | composite _ hopens ht _ _ _ ihx ihes =>
    exact fun hg => .of_form (.composite ht (Grammar.opensComposite_anywhere hopens)
      (ihx hg).types ihes) nofun rfl
  | plainArguments _ ih => exact ⟨fun z hz => ih z hz rfl, fun _ => rfl⟩
  | spreadArguments _ _ _ ih => exact ⟨fun z hz => ih.2 z hz rfl, fun hnil => absurd hnil ih.1⟩
  | elided _ _ _ ih => exact .elidedPart ih
  | part _ ih => exact .exprPart (ih rfl).rereads (ih rfl).unelided
  | value _ ih => exact .element nofun ih
  | keyed _ _ _ ihk ihv =>
    refine .element ?_ ihv
    rintro _ ⟨⟩
    exact ihk
  -- operators
  | unary _ _ ih => exact fun hg => .of_form (.unary (ih hg).rereads) nofun rfl
  | binary _ _ _ ihx ihy =>
    exact fun hg => .of_form (.binary (ihx hg).rereads (ihy hg).rereads) nofun rfl
  -- types
  | plainName | qualifiedName => exact ⟨_, _, _, _, rfl⟩
  | typeName _ ih =>
    obtain ⟨i, sp, pkg, n, rfl⟩ := ih
    exact ⟨.typeName, nofun⟩
  | parenType _ _ _ ih => exact ih
  | arrayType _ _ _ _ ihn iht =>
    exact .of_headed (.arrayType iht.rereads fun x hx => (ihn x hx).rereads) rfl
  | sliceType _ _ _ ih => exact .of_headed (.sliceType ih.rereads) rfl
  | pointerType _ _ ih => exact ⟨.pointerType ih.rereads, nofun⟩
  | mapType _ _ _ _ _ ihk iht => exact .of_headed (.mapType ihk.rereads iht.rereads) rfl
  | chanType _ _ ih | sendChan _ _ _ ih => exact .of_headed (.chanType ih.rereads) rfl
  | receiveChan _ _ _ ih => exact ⟨.chanType ih.rereads, fun _ _ _ => .receiveChanExpr ih.rereads⟩
  | funcType _ _ ih => exact ⟨.funcType ih, fun _ _ _ => .funcExpr ih⟩
  | structType _ _ _ _ ih =>
    exact .of_headed (.structType (fun f hf => (ih f hf).1) fun f hf => (ih f hf).2) rfl
  | interfaceType _ _ _ _ ih =>
    exact .of_headed (.interfaceType (fun e he => (ih e he).1) fun e he => (ih e he).2) rfl
  | exprLength _ ih =>
    rintro _ ⟨⟩
    exact ih rfl
  | dotsLength => exact nofun
  -- parameters
  | typeParam _ _ _ iht => exact ⟨iht, fun _ => rfl, fun _ => rfl⟩
  | namedParam _ _ _ ihn _ iht => exact ⟨iht, fun hnil => absurd hnil ihn.1, nofun⟩
  | @params named _ ps _ hdots ih =>
    refine ⟨?_, hdots, fun p hp => (ih p hp).1⟩
    cases named with
    | false => exact .inl fun p hp => (ih p hp).2.mpr rfl
    | true => exact .inr fun p hp hnil => nomatch (ih p hp).2.mp hnil
  | parameters _ _ _ ih => exact .parameters ih.1 ih.2.1 fun p hp => (ih.2.2 p hp).rereads
  | signature _ _ ihp ihr => exact .signature ihp ihr
  | paramsResult _ ih => exact ih
  | typeResult _ ih => exact ih.rereads
  -- fields and methods
  | namedField _ _ _ ihn iht ihg =>
    exact ⟨.field ihg (fun hnil => absurd hnil ihn.1) fun _ => iht.rereads,
      fun hnil => absurd hnil ihn.1⟩
  | embeddedField _ _ iht ihg =>
    exact ⟨.field ihg (fun _ => iht) fun hne => absurd rfl hne, fun _ => iht⟩
  | embeddedName _ ih =>
    obtain ⟨i, sp, pkg, n, rfl⟩ := ih
    exact ⟨pkg, n, .inl rfl⟩
  | embeddedPointer _ _ ih =>
    obtain ⟨i, sp, pkg, n, rfl⟩ := ih
    exact ⟨pkg, n, .inr ⟨i, sp, rfl⟩⟩
  | tag => exact ⟨_, rfl⟩
  | methodElement _ _ _ ihs =>
    exact ⟨ihs.imp fun _ => Grammar.interfaceElement_method, nofun⟩
  | embeddedElement _ ih =>
    obtain ⟨i, sp, pkg, n, rfl⟩ := ih
    refine ⟨.of_forall fun _ => Grammar.interfaceElement_embedded, ?_⟩
    rintro _ ⟨⟩
    exact ⟨pkg, n, rfl⟩
  -- simple statements
  | rangeOnly hsm _ _ ih =>
    obtain rfl := SimpleMode.eq_of_rangeAllowed hsm
    refine fun hg => ⟨.rangeStmt (ih hg).rereads, fun us F t ht => ?_⟩
    rw [show t.kind = .kwRange from ht.2]
    rfl
  | labeled hsm _ _ _ _ _ ihs =>
    obtain rfl := SimpleMode.eq_of_labelAllowed hsm
    exact fun hg => ⟨.labeledStmt (ihs hg).rereads, beginsSimple_names rfl⟩
  | labeledEmpty hsm =>
    obtain rfl := SimpleMode.eq_of_labelAllowed hsm
    refine fun _ => ⟨.labeledStmt (.stmt (.of_forall fun _ => ?_)), beginsSimple_names rfl⟩
    exact Grammar.statement_empty
  | send _ _ _ ihx ihy =>
    exact fun hg => ⟨.sendStmt (ihx hg).rereads (ihy hg).rereads, beginsSimple_parens rfl⟩
  | step _ _ ih => exact fun hg => ⟨.stepStmt (ih hg).rereads, beginsSimple_parens rfl⟩
  | shortVar _ hnames _ _ ihl ihv =>
    intro hg
    have hne := hnames.ne_nil ihl.1
    refine ⟨.shortVarStmt hne ihv.1 fun x hx => (ihv.2 x hx hg).rereads, ?_⟩
    obtain ⟨n, ns, rfl⟩ := List.exists_cons_of_ne_nil hne
    exact beginsSimple_names rfl
  | defineRange hsm _ hnames _ _ _ ihl ih =>
    obtain rfl := SimpleMode.eq_of_rangeAllowed hsm
    refine fun hg => ⟨.defineRangeStmt ihl.1 hnames (ih hg).rereads, ?_⟩
    exact beginsSimple_defineRange ihl.1 hnames
  | assign _ _ _ ihl ihr =>
    exact fun hg => ⟨.assignStmt ihl.1 ihr.1 (fun x hx => (ihl.2 x hx hg).rereads)
      fun x hx => (ihr.2 x hx hg).rereads, beginsSimple_exprs ihl.1 rfl⟩
  | assignRange hsm _ _ _ _ ihl ih =>
    obtain rfl := SimpleMode.eq_of_rangeAllowed hsm
    exact fun hg => ⟨.assignRangeStmt ihl.1 (fun x hx => (ihl.2 x hx hg).rereads) (ih hg).rereads,
      beginsSimple_assignRange ihl.1⟩
  | exprStmt _ ih =>
    exact fun hg => ⟨.exprStmt (ih hg).rereads, beginsSimple_parens (List.append_nil _).symm⟩
  -- statements
  | simpleStmt _ ih =>
    exact fun hg => ⟨.stmt ((ih hg).rereads.imp fun _ hs =>
      Grammar.statement_simple hs (ih hg).begins), beginsStmt_of_simple (ih hg).begins⟩
  | declStmt _ ih =>
    intro hg
    obtain ⟨k, hds, hk⟩ := (ih hg).keyword
    refine ⟨.stmt (hds.rereads.imp fun _ hds => Grammar.statement_decl hds hk), ?_⟩
    refine beginsStmt_of_kind _ rfl ?_
    rw [hk]
    cases k <;> decide
  | blockStmt _ ih =>
    exact fun _ => ⟨.stmt (ih.imp fun _ => Grammar.statement_block), fun us F t ht => by
      rw [Grammar.leads_block ht]
      decide⟩
  | ifStmt _ ih =>
    intro hg
    obtain ⟨hs, i, sp, init, cond, body, other, rfl⟩ := ih hg
    exact ⟨.stmt (hs.imp fun _ => Grammar.statement_if), beginsStmt_of_kind .kwIf rfl (by decide)⟩
  | forStmt _ ih =>
    intro hg
    obtain ⟨hs, header, body, rfl⟩ := ih hg
    exact ⟨.stmt (hs.imp fun _ => Grammar.statement_for), beginsStmt_of_kind .kwFor rfl (by decide)⟩
  | goStmt _ _ ih =>
    exact fun hg => ⟨.stmt (((ih hg).rereads.inParens false).imp fun _ h =>
      Grammar.statement_go h), beginsStmt_of_kind .kwGo rfl (by decide)⟩
  | deferStmt _ _ ih =>
    exact fun hg => ⟨.stmt (((ih hg).rereads.inParens false).imp fun _ h =>
      Grammar.statement_defer h), beginsStmt_of_kind .kwDefer rfl (by decide)⟩
  | returnNothing =>
    exact fun _ => ⟨.stmt (.of_forall fun _ => Grammar.statement_return nofun),
      beginsStmt_of_kind .kwReturn rfl (by decide)⟩
  | returnStmt _ _ ih =>
    intro hg
    have hxs := Always.inParensAll (fun x hx => (ih.2 x hx hg).rereads) false
    exact ⟨.stmt (hxs.imp fun _ => Grammar.statement_return),
      beginsStmt_of_kind .kwReturn rfl (by decide)⟩
  | breakStmt =>
    exact fun _ => ⟨.stmt (.of_forall fun _ => Grammar.statement_break),
      beginsStmt_of_kind .kwBreak rfl (by decide)⟩
  | continueStmt =>
    exact fun _ => ⟨.stmt (.of_forall fun _ => Grammar.statement_continue),
      beginsStmt_of_kind .kwContinue rfl (by decide)⟩
  | gotoStmt =>
    exact fun _ => ⟨.stmt (.of_forall fun _ => Grammar.statement_goto),
      beginsStmt_of_kind .kwGoto rfl (by decide)⟩
  | fallthroughStmt =>
    exact fun _ => ⟨.stmt (.of_forall fun _ => Grammar.statement_fallthrough),
      beginsStmt_of_kind .kwFallthrough rfl (by decide)⟩
  -- blocks
  | noStmts => exact fun _ => nofun
  | skipSemi _ _ ih | stmtsClosed _ ih => exact ih
  | endedStmt _ _ _ ih ihs | stmtsOpen _ _ ih ihs =>
    exact fun hg => List.forall_mem_append.mpr ⟨ih hg, List.forall_mem_singleton.mpr (ihs hg)⟩
  | block _ _ _ ih => exact .blockOf fun s hs => ⟨(ih rfl s hs).rereads, (ih rfl s hs).begins⟩
  -- conditionals
  | condOnly _ ih => exact fun hg => ⟨nofun, ih hg⟩
  | initCond _ _ _ ih ihx =>
    refine fun hg => ⟨?_, ihx hg⟩
    rintro _ ⟨⟩
    exact ih hg
  | conditional _ _ hends _ _ ihh ihb ihe =>
    intro hg
    obtain ⟨hinit, hcond⟩ := ihh hg
    exact ⟨.ifOf (fun s hs => (hinit s hs).rereads) hcond.rereads hends ihb
      fun s hs => ihe s hs hg, _, _, _, _, _, _, rfl⟩
  | elseIf _ _ ih =>
    intro hg
    obtain ⟨hs, i, sp, init, cond, body, other, rfl⟩ := ih hg
    exact hs.imp fun _ hs => Grammar.otherwise_ifStmt hs fun _ _ ht => ht.2
  | elseBlock _ _ ih => exact fun _ => ih.imp fun _ => Grammar.otherwise_block
  -- loops
  | infinite => exact fun _ _ => .of_forall fun _ => Grammar.forHeader_infinite
  | forCond _ ih =>
    exact fun hg hends => (ih hg).rereads.imp fun _ hs =>
      Grammar.forHeader_cond hs (ih hg).begins hends
  | forRange _ ih =>
    exact fun hg hends => (ih hg).rereads.imp fun _ hs =>
      Grammar.forHeader_range hs (ih hg).begins hends
  | @forClause _ _ _ _ _ _ _ _ post _ _ _ _ _ ihi ihx ihp =>
    intro hg hends
    refine .clauseHeader (fun s hs => ?_) (fun x hx => (ihx x hx hg).rereads) (fun s hs => ?_) ?_
    · exact ⟨(ihi s hs hg).1.rereads, (ihi s hs hg).1.begins, (ihi s hs hg).2⟩
    · exact ⟨(ihp s hs hg).1.rereads, (ihp s hs hg).1.begins, (ihp s hs hg).2⟩
    · rintro s hs
      cases hs
      exact hends
  | init _ hform ih => exact fun hg => ⟨ih hg, hform⟩
  | post _ hform ih => exact fun hg => ⟨ih hg, hform⟩
  | loop _ _ hends _ ihh ihb => exact fun hg => ⟨.forOf (ihh hg hends) ihb, _, _, rfl⟩
  -- declarations
  | values _ _ ih => exact fun hg => ⟨ih.1, fun x hx => ih.2 x hx hg⟩
  | constSpec _ _ _ hnone ihn iht ihv =>
    exact fun hg => .const ihn.1 (fun u hu => (iht u hu).rereads)
      (fun xs hxs => ihv xs hxs hg) hnone
  | varSpec _ _ _ hnone ihn iht ihv =>
    exact fun hg => .var ihn.1 (fun u hu => (iht u hu).rereads) (fun xs hxs => ihv xs hxs hg) hnone
  | typeSpec _ _ _ _ _ ih => exact fun _ => .type ih.rereads
  | specDecl _ ih => exact ih
  | loneSpec _ _ hnumbered ih => exact fun hg => ⟨hnumbered, List.forall_mem_singleton.mpr (ih hg)⟩
  | specGroup _ _ _ hnumbered _ ih => exact fun _ => ⟨hnumbered, fun d hd => ih d hd rfl⟩
  | func _ _ _ _ _ ihs ihb => exact ⟨.inl ⟨_, rfl⟩, .func ihs ihb⟩
  | method _ _ hreceiver _ _ _ ihr _ ihs ihb => exact ⟨.inr ⟨_, rfl⟩, .method ihr hreceiver ihs ihb⟩
  -- imports
  | loneImport | importGroup => exact ⟨_, rfl⟩
  -- files
  | topImport _ ih =>
    refine ⟨List.forall_mem_singleton.mpr (.imports ih (.importDecl ih)), ?_⟩
    rintro _ ⟨⟩
    exact Grammar.continuesGroup_import ih
  | topGroup _ ih => exact ⟨(ih rfl).topItems, fun _ hd => (ih rfl).head hd⟩
  | topFunction _ ih =>
    refine ⟨List.forall_mem_singleton.mpr (.function ih.1 ih.2), ?_⟩
    rintro _ ⟨⟩
    exact Grammar.continuesGroup_function ih.1
  | noDecls => exact nofun
  | moreDecls _ _ _ ih ihm =>
    intro g hg
    rw [Grammar.groups_append ihm.2] at hg
    exact (List.mem_append.mp hg).elim (ih g) (ihm.1 g)
  | file _ _ _ _ _ _ ihi ihd => exact ⟨ihi, ihd⟩

end GoSource
