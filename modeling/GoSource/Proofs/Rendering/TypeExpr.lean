/-
Types, signatures and what they contain, read back.

A type of a parameter is in parentheses in a rendering, so the beginning
of a parameter list is decided by its first token: a name is the name of a
parameter, anything else begins a type. Nothing is left of the two ways in
which a list of names can be meant.

A type without parentheses stands where the grammar has no other way: in
front of the braces of a literal, embedded, or as the result of a
function. What may follow it there begins no type and is no point
(`TypeEnds`).
-/
import GoSource.Proofs.Rendering.Expression

namespace GoSource

open GoSource.Parser

variable {parse : SubParser} {h : Bool} {F : Token → Prop} {i j : Nat} {sp sp' : Span}
  {t u : TypeExpr} {k : Token.Kind}

-- ======================================================= what comes back

def ParamsReread (parse : SubParser) (ps : ParamList) : Prop :=
  ∀ h, (parse .parameters).Rereads h (Render.paramList ps) (fun _ => True)
    fun qs => Bare.paramList qs = Bare.paramList ps

def SignatureRereads (parse : SubParser) (sig : Signature) : Prop :=
  (parse .signature).Rereads false (Render.signature sig) TypeEnds
    fun sig' => Bare.signature sig' = Bare.signature sig

def FieldRereads (parse : SubParser) (f : Field) : Prop :=
  (parse .fieldDecl).Rereads false (Render.field f) (·.kind = .semi)
    fun f' => Bare.field f' = Bare.field f

def InterfaceElementRereads (parse : SubParser) (e : InterfaceElement) : Prop :=
  (Grammar.interfaceElement parse).Rereads false (Render.interfaceElement e) (·.kind = .semi)
    fun e' => Bare.interfaceElement e' = Bare.interfaceElement e

theorem Closes.typeEnds {t : Token} (ht : Closes t) : TypeEnds t := by
  obtain ht | ht := ht
  · exact .of_kind ht (by decide) rfl
  · exact .of_kind ht (by decide) rfl

theorem TypeEnds.lParen {t : Token} (ht : TypeEnds t) : t.kind ≠ .lParen := by
  intro hk
  have hstarts := ht.starts
  rw [hk] at hstarts
  exact nomatch hstarts

namespace Grammar

-- ================================================================ names

theorem finishType_rereads {start : Location} {form form' : TypeForm}
    (hform : Bare.typeForm form' = Bare.typeForm form) :
    (finishType start form').Rereads h [] F (SameType ⟨i, sp, form⟩) :=
  .bind_spanFrom fun _ => .newType hform

theorem qualifiedType_plain {first n : Ident} (hn : Bare.ident first = Bare.ident n) :
    (qualifiedType first).Rereads h [] (·.kind ≠ .dot) (SameType ⟨i, sp, .name none n⟩) := by
  refine .bind_eat_none (fun _ ht => ht) (.bind_pure (.bind_spanFrom fun _ => .newType ?_))
  rw [Bare.typeForm, Bare.typeForm, hn]

theorem qualifiedType_qualified {first pkg n : Ident} (hpkg : Bare.ident first = Bare.ident pkg) :
    (qualifiedType first).Rereads h [.kind .dot, .name n.name] F
      (SameType ⟨i, sp, .name (some pkg) n⟩) := by
  refine .bind_eat fun _ => .bind_last ident_rereads fun m hm => ?_
  refine .bind_pure (.bind_spanFrom fun _ => .newType ?_)
  rw [Bare.typeForm, Bare.typeForm, hm, Option.map_some, Option.map_some, hpkg]

theorem typeName_rereads {pkg : Option Ident} {n : Ident} :
    typeName.Rereads h (Render.typeForm (.name pkg n)) (·.kind ≠ .dot)
      (SameType ⟨i, sp, .name pkg n⟩) := by
  cases pkg with
  | none => exact .bind_last ident_rereads fun m hm => qualifiedType_plain hm
  | some pkg => exact .bind (G := fun _ => True) ident_rereads (fun _ _ => trivial) fun m hm =>
      qualifiedType_qualified hm

-- ================================================================ types

theorem type_name {pkg : Option Ident} {n : Ident} :
    (type parse).Rereads h (Render.typeForm (.name pkg n)) TypeEnds
      (SameType ⟨i, sp, .name pkg n⟩) := by
  have hname : (typeName : Parser TypeExpr).Rereads h (Render.typeForm (.name pkg n)) TypeEnds
      (SameType ⟨i, sp, .name pkg n⟩) := typeName_rereads.before fun _ ht => ht.dot
  cases pkg with
  | none => exact .bind_here fun _ => .bind_kind_of (fun _ ht => ht.2.1) hname
  | some pkg => exact .bind_here fun _ => .bind_kind_of (fun _ ht => ht.2.1) hname

theorem type_parens (ht : TypeRereads parse t) :
    (type parse).Rereads h (Render.parens (Render.typeExpr t)) F (SameType t) := by
  refine .bind_here fun _ => .bind_kind_at (.bind_advance fun _ _ => ?_)
  refine .bind (.unrestricted ht) (fun _ hk => .of_kind hk.2 (by decide) rfl) fun u hu => ?_
  exact .bind_expect fun _ => .pure hu

section

variable (ht : TypeInParens parse t)

include ht

theorem bracketType_array {start : Location} {len : ArrayLength}
    (hlen : ∀ x, len = .expr x → ExprInParens parse false x) :
    (bracketType parse start).Rereads h
      (Render.arrayLength len ++ .kind .rBrack :: Render.parens (Render.typeExpr t)) F
      (SameType ⟨i, sp, .array len t⟩) := by
  cases len with
  | expr x =>
    refine .bind_eat_none (fun _ => leads_ne (k := .lParen) (by decide)) ?_
    refine .bind_eat_none (fun _ => leads_ne (k := .lParen) (by decide)) ?_
    refine .bind_map (.unrestricted (hlen x rfl)) (fun _ hk => .of_kind hk.2 rfl) fun y hy => ?_
    refine .bind_expect fun _ => .bind_last ((ht h).before fun _ _ => trivial) fun u hu => ?_
    refine finishType_rereads ?_
    rw [Bare.typeForm, Bare.typeForm, Bare.arrayLength, Bare.arrayLength, hy, hu]
  | dots d =>
    refine .bind_eat_none (fun _ => leads_ne (k := .ellipsis) (by decide)) ?_
    refine .bind_eat fun _ => .bind_pure (.bind_expect fun _ => ?_)
    refine .bind_last ((ht h).before fun _ _ => trivial) fun u hu => finishType_rereads ?_
    rw [Bare.typeForm, Bare.typeForm, Bare.arrayLength, Bare.arrayLength, hu]

theorem type_array {len : ArrayLength} (hlen : ∀ x, len = .expr x → ExprInParens parse false x) :
    (type parse).Rereads h (Render.typeForm (.array len t)) F (SameType ⟨i, sp, .array len t⟩) :=
  .bind_here fun _ => .bind_kind_at (.bind_advance fun _ _ => bracketType_array ht hlen)

theorem type_slice :
    (type parse).Rereads h (Render.typeForm (.slice t)) F (SameType ⟨i, sp, .slice t⟩) := by
  refine .bind_here fun _ => .bind_kind_at (.bind_advance fun _ _ => .bind_eat fun _ => ?_)
  refine .bind_last ((ht h).before fun _ _ => trivial) fun u hu => finishType_rereads ?_
  rw [Bare.typeForm, Bare.typeForm, hu]

theorem type_pointer :
    (type parse).Rereads h (Render.typeForm (.pointer t)) F (SameType ⟨i, sp, .pointer t⟩) := by
  refine .bind_here fun _ => .bind_kind_at (.bind_advance fun _ _ => ?_)
  refine .bind_last ((ht h).before fun _ _ => trivial) fun u hu => finishType_rereads ?_
  rw [Bare.typeForm, Bare.typeForm, hu]

theorem type_map {key : TypeExpr} (hkey : TypeInParens parse key) :
    (type parse).Rereads h (Render.typeForm (.map key t)) F (SameType ⟨i, sp, .map key t⟩) := by
  refine .bind_here fun _ => .bind_kind_at (.bind_advance fun _ _ => .bind_expect fun _ => ?_)
  refine .bind (.unrestricted (hkey false)) (fun _ _ => trivial) fun k hk =>
    .bind_expect fun _ => ?_
  refine .bind_last ((ht h).before fun _ _ => trivial) fun u hu => finishType_rereads ?_
  rw [Bare.typeForm, Bare.typeForm, hk, hu]

theorem receiveChan_rereads {arrow : Span} :
    (receiveChan parse arrow).Rereads h (.kind .kwChan :: Render.parens (Render.typeExpr t)) F
      (SameType ⟨i, sp, .chan .receive t⟩) := by
  refine .bind_expect fun _ => .bind_last ((ht h).before fun _ _ => trivial) fun u hu => ?_
  refine .bind_spanFrom fun _ => .newType ?_
  rw [Bare.typeForm, Bare.typeForm, hu]

theorem type_chan {dir : ChanDir} :
    (type parse).Rereads h (Render.typeForm (.chan dir t)) F (SameType ⟨i, sp, .chan dir t⟩) := by
  cases dir with
  | both =>
    refine .bind_here fun _ => .bind_kind_at (.bind_advance fun _ _ => ?_)
    refine .bind_eat_none (fun _ => leads_ne (k := .lParen) (by decide)) (.bind_pure ?_)
    refine .bind_last ((ht h).before fun _ _ => trivial) fun u hu => finishType_rereads ?_
    rw [Bare.typeForm, Bare.typeForm, hu]
  | send =>
    refine .bind_here fun _ => .bind_kind_at (.bind_advance fun _ _ => .bind_eat fun _ => ?_)
    refine .bind_pure (.bind_last ((ht h).before fun _ _ => trivial) fun u hu =>
      finishType_rereads ?_)
    rw [Bare.typeForm, Bare.typeForm, hu]
  | receive =>
    exact .bind_here fun _ => .bind_kind_at (.bind_advance fun _ _ => receiveChan_rereads ht)

end

theorem type_func {sig : Signature} (hsig : SignatureRereads parse sig) :
    (type parse).Rereads false (Render.typeForm (.func sig)) TypeEnds
      (SameType ⟨i, sp, .func sig⟩) := by
  refine .bind_here fun _ => .bind_kind_at (.bind_advance fun _ _ => ?_)
  refine .bind_last hsig fun sig' hsig' => finishType_rereads ?_
  rw [Bare.typeForm, Bare.typeForm, hsig']

theorem type_struct {fields : List Field}
    (hfields : (parse .structType).Rereads h
      (.kind .kwStruct :: Render.braces (Render.ended .semi (Render.fieldList fields))) F
      fun fs => fs.map Bare.field = fields.map Bare.field) :
    (type parse).Rereads h (Render.typeForm (.struct fields)) F
      (SameType ⟨i, sp, .struct fields⟩) := by
  refine .bind_here fun _ => .bind_kind_at (.bind_last hfields fun fs hfs => finishType_rereads ?_)
  rw [Bare.typeForm, Bare.typeForm, Bare.fieldList_eq, Bare.fieldList_eq, hfs]

theorem type_interface {es : List InterfaceElement}
    (hes : (parse .interfaceType).Rereads h
      (.kind .kwInterface :: Render.braces (Render.ended .semi (Render.interfaceElements es))) F
      fun es' => es'.map Bare.interfaceElement = es.map Bare.interfaceElement) :
    (type parse).Rereads h (Render.typeForm (.interface es)) F
      (SameType ⟨i, sp, .interface es⟩) := by
  refine .bind_here fun _ => .bind_kind_at (.bind_last hes fun es' hes' => finishType_rereads ?_)
  rw [Bare.typeForm, Bare.typeForm, Bare.interfaceElements_eq, Bare.interfaceElements_eq, hes']

-- =========================================================== parameters

theorem finishParam_rereads {names ns : List Ident} {dots ds : Option Span} {start : Location}
    (i : Nat) (sp : Span) (hnames : names.map Bare.ident = ns.map Bare.ident)
    (hdots : Bare.mark dots = Bare.mark ds)
    (hu : SameType t u) :
    (finishParam names dots u start).Rereads h [] F
      fun p => Bare.param p = Bare.param ⟨i, sp, ⟨ns, ds, t⟩⟩ := by
  refine .bind_recording (.bind_spanFrom fun _ => .building fun _ => ?_)
  show Bare.param ⟨_, _, ⟨names, dots, u⟩⟩ = _
  rw [Bare.param, Bare.param, hnames, hdots, hu]

theorem moreParams_comma : moreParams.Rereads h [.kind .comma] (·.kind ≠ .rParen) (· = true) :=
  .bind_eat fun _ => .bind_isAt_false (fun _ ht => ht) (.pure rfl)

theorem moreParams_none : moreParams.Rereads h [] (·.kind = .rParen) (· = false) := by
  refine .bind_eat_none (fun t ht => ?_) (.pure rfl)
  rw [show t.kind = .rParen from ht]
  decide

/-- What a parameter consists of besides its names. -/
def typePart (p : Param) : List Slot :=
  Render.dots p.form.dots ++ Render.parens (Render.typeExpr p.form.type)

theorem leads_typePart {p : Param} {ss : List Slot} {t : Token}
    (ht : Leads (typePart p ++ ss) F t) : t.kind = .ellipsis ∨ t.kind = .lParen := by
  obtain ⟨i, sp, ns, _ | d, u⟩ := p
  · exact .inr ht.2
  · exact .inl ht.2

theorem render_param (p : Param) : Render.param p = Render.names p.form.names ++ typePart p := by
  obtain ⟨i, sp, ns, ds, u⟩ := p
  rw [Render.param, typePart]

section

variable {p : Param} {names : List Ident} {start : Location}
  (ht : TypeInParens parse p.form.type)
  (hnames : names.map Bare.ident = p.form.names.map Bare.ident)

include ht hnames

theorem paramAfter_last :
    (paramAfter parse names start).Rereads h (typePart p) (·.kind = .rParen)
      fun r => Bare.param r.1 = Bare.param p ∧ r.2 = false := by
  obtain ⟨i, sp, ns, ds, t⟩ := p
  cases ds with
  | none =>
    refine .bind_eat_none (fun _ => leads_ne (k := .lParen) (by decide)) ?_
    refine .bind_last ((ht h).before fun _ _ => trivial) fun u hu => ?_
    refine .bind_taking_none (finishParam_rereads i sp hnames rfl hu) fun q hq => ?_
    rw [if_neg (by simp)]
    exact .bind_last moreParams_none fun more hmore => .pure ⟨hq, hmore⟩
  | some d =>
    refine .bind_eat fun d' => .bind_last ((ht h).before fun _ _ => trivial) fun u hu => ?_
    refine .bind_taking_none (finishParam_rereads i sp hnames rfl hu) fun q hq => ?_
    rw [if_pos Option.isSome_some]
    refine .bind_eat_none (fun t ht => ?_) (.pure ⟨hq, rfl⟩)
    rw [show t.kind = .rParen from ht]
    decide

theorem paramAfter_comma (hdots : p.form.dots = none) :
    (paramAfter parse names start).Rereads h (typePart p ++ [.kind .comma]) (·.kind ≠ .rParen)
      fun r => Bare.param r.1 = Bare.param p ∧ r.2 = true := by
  obtain ⟨i, sp, ns, ds, t⟩ := p
  obtain rfl : ds = none := hdots
  refine .bind_eat_none (fun _ => leads_ne (k := .lParen) (by decide)) ?_
  refine .bind (ht h) (fun _ _ => trivial) fun u hu => ?_
  refine .bind_taking_none (finishParam_rereads i sp hnames rfl hu) fun q hq => ?_
  rw [if_neg (by simp)]
  exact .bind_last moreParams_comma fun more hmore => .pure ⟨hq, hmore⟩

end

/-- Of the parameters only the last may be variadic. -/
def LastDots (ps : List Param) : Prop :=
  ∀ p ∈ ps.dropLast, p.form.dots = none

theorem LastDots.head {p q : Param} {ps ws : List Param} (hps : LastDots (ws ++ p :: q :: ps)) :
    p.form.dots = none := by
  refine hps p ?_
  rw [List.dropLast_append_of_ne_nil (List.cons_ne_nil _ _), List.dropLast_cons_cons]
  exact List.mem_append_right _ List.mem_cons_self

theorem unnamedParams_rereads {ps : List Param} (hne : ps ≠ [])
    (hunnamed : ∀ p ∈ ps, p.form.names = []) (hdots : LastDots ps)
    (htypes : ∀ p ∈ ps, TypeInParens parse p.form.type) :
    (unnamedParams parse []).Rereads h (Render.commas (ps.map typePart)) (·.kind = .rParen)
      fun qs => qs.reverse.map Bare.param = ps.map Bare.param := by
  refine .repeating_of (r := fun zs => Render.commas (zs.map typePart))
    (J := fun zs acc => zs ≠ [] ∧
      ∃ ws, ps = ws ++ zs ∧ acc.reverse.map Bare.param = ws.map Bare.param)
    (fun zs acc hacc => ?_) ⟨hne, [], rfl, rfl⟩
  obtain ⟨hzs, ws, rfl, hacc⟩ := hacc
  obtain ⟨z, zs, rfl⟩ := List.exists_cons_of_ne_nil hzs
  have hz := htypes z (by simp)
  have hnames : [].map Bare.ident = z.form.names.map Bare.ident := by
    rw [hunnamed z (by simp)]
  cases zs with
  | nil =>
    rw [List.map_singleton, Render.commas_singleton]
    refine .inl (.bind_here fun start => .bind_last (paramAfter_last hz hnames) fun r hr => ?_)
    obtain ⟨z', more⟩ := r
    obtain ⟨hz', rfl⟩ := hr
    exact .pure ⟨_, rfl, map_reverse_cons hacc hz'⟩
  | cons w zs =>
    refine .inr ⟨w :: zs, typePart z ++ [.kind .comma], (·.kind ≠ .rParen), ?_, by simp, ?_, ?_⟩
    · simp only [List.map_cons, Render.commas_cons_cons, List.append_assoc, List.cons_append,
        List.nil_append]
    · intro t ht
      exact kind_ne_of_or (leads_typePart (p := w) ht) (by decide) (by decide)
    · refine .bind_here fun start => .bind_last (paramAfter_comma hz hnames hdots.head)
        fun r hr => ?_
      obtain ⟨z', more⟩ := r
      obtain ⟨hz', rfl⟩ := hr
      exact .pure ⟨_, rfl, List.cons_ne_nil _ _, ws ++ [z], by simp, map_reverse_cons hacc hz'⟩

/-- The names of the first parameter have been read. -/
theorem namedParams_rereads {p : Param} {ps : List Param} {names : List Ident}
    (hnames : names.map Bare.ident = p.form.names.map Bare.ident)
    (hnamed : ∀ q ∈ p :: ps, q.form.names ≠ []) (hdots : LastDots (p :: ps))
    (htypes : ∀ q ∈ p :: ps, TypeInParens parse q.form.type) :
    (namedParams parse names).Rereads h
      (typePart p ++ (ps.map Render.param).flatMap (.kind .comma :: ·)) (·.kind = .rParen)
      fun qs => qs.reverse.map Bare.param = (p :: ps).map Bare.param := by
  refine .bind_last (R := fun st => st.2.reverse.map Bare.param = (p :: ps).map Bare.param) ?_
    fun st hst => .pure hst
  -- What is left begins with the type of a parameter, not with its names.
  refine .repeating_of (ι := Param × List Param)
    (r := fun zs => typePart zs.1 ++ (zs.2.map Render.param).flatMap (.kind .comma :: ·))
    (J := fun zs st => st.1.map Bare.ident = zs.1.form.names.map Bare.ident ∧
      ∃ ws, p :: ps = ws ++ zs.1 :: zs.2 ∧ st.2.reverse.map Bare.param = ws.map Bare.param)
    (fun zs st hst => ?_) (i := (p, ps)) ⟨hnames, [], rfl, rfl⟩
  obtain ⟨z, zs⟩ := zs
  obtain ⟨names, acc⟩ := st
  obtain ⟨hnames, ws, hws, hacc⟩ := hst
  rw [hws] at hnamed hdots htypes ⊢
  have hz := htypes z (by simp)
  have hne : names ≠ [] := by
    rintro rfl
    exact hnamed z (by simp) (List.map_eq_nil_iff.mp hnames.symm)
  obtain ⟨n, rest, rfl⟩ := List.exists_cons_of_ne_nil hne
  cases zs with
  | nil =>
    show _ ∨ _
    rw [List.map_nil, List.flatMap_nil, List.append_nil]
    refine .inl (.bind_pure (.bind_last (paramAfter_last hz hnames) fun r hr => ?_))
    obtain ⟨z', more⟩ := r
    obtain ⟨hz', rfl⟩ := hr
    exact .pure ⟨_, rfl, map_reverse_cons hacc hz'⟩
  | cons w zs =>
    have hw := hnamed w (by simp)
    refine .inr ⟨(w, zs), (typePart z ++ [.kind .comma]) ++ Render.names w.form.names,
      fun t => t.kind = .ellipsis ∨ t.kind = .lParen, ?_, by simp,
        fun t ht => leads_typePart ht, ?_⟩
    · simp only [List.map_cons, List.flatMap_cons, render_param, List.append_assoc,
        List.cons_append, List.nil_append]
    · refine .bind_pure (.bind (paramAfter_comma hz hnames hdots.head) ?_ fun r hr => ?_)
      · intro t ht
        obtain ⟨n, ns, hns⟩ := List.exists_cons_of_ne_nil hw
        rw [hns] at ht
        rw [show t.kind = .ident from ht.2.1]
        decide
      · obtain ⟨z', more⟩ := r
        obtain ⟨hz', rfl⟩ := hr
        refine .bind_last (names_rereads hw fun t ht => ?_) fun ms hms => .pure
          ⟨_, rfl, hms, ws ++ [z], by simp, map_reverse_cons hacc hz'⟩
        exact kind_ne_of_or ht (by decide) (by decide)

theorem leadingNames_none :
    leadingNames.Rereads h [] (·.kind ≠ .ident) (· = .types []) :=
  .repeating (.stop (.ifNotAt (fun _ ht => ht) (.pure ⟨_, rfl, rfl⟩)))

theorem leadingNames_rereads {ns : List Ident} (hne : ns ≠ []) :
    leadingNames.Rereads h (Render.names ns) (fun t => t.kind = .ellipsis ∨ t.kind = .lParen)
      fun found => ∃ ms, found = .named ms ∧ ms.reverse.map Bare.ident = ns.map Bare.ident := by
  refine .repeating_of (r := Render.names)
    (J := fun zs found => zs ≠ [] ∧ ∃ ms ws, found = .undecided ms ∧ ns = ws ++ zs ∧
      ms.reverse.map Bare.ident = ws.map Bare.ident)
    (fun zs found hfound => ?_) ⟨hne, [], [], rfl, rfl, rfl⟩
  obtain ⟨hzs, ms, ws, rfl, rfl, hms⟩ := hfound
  obtain ⟨z, zs, rfl⟩ := List.exists_cons_of_ne_nil hzs
  cases zs with
  | nil =>
    refine .inl (.ifAt (fun _ ht => ht.2.1) (.bind_last ident_rereads fun m hm => ?_))
    refine .bind_kind fun t ht => ?_
    obtain ht | ht := ht
    · rw [ht]
      exact .pure ⟨_, rfl, m :: ms, rfl, map_reverse_cons hms hm⟩
    · rw [ht]
      exact .pure ⟨_, rfl, m :: ms, rfl, map_reverse_cons hms hm⟩
  | cons w zs =>
    refine .inr ⟨w :: zs, [.name z.name, .kind .comma], (·.kind = .ident), rfl, by simp,
      fun t ht => ht.2.1, .ifAt (fun _ ht => ht.2.1) ?_⟩
    refine .bind (G := fun _ => True) ident_rereads (fun _ _ => trivial) fun m hm => ?_
    refine .bind_kind_at (.bind_advance fun _ _ => .ifNotAt (fun t ht => ?_) (.pure ?_))
    · rw [show t.kind = .ident from ht]
      decide
    · exact ⟨_, rfl, List.cons_ne_nil _ _, m :: ms, ws ++ [z], rfl, by simp,
        map_reverse_cons hms hm⟩

/-- All parameters have names, or none has. -/
def Uniform (ps : List Param) : Prop :=
  (∀ p ∈ ps, p.form.names = []) ∨ ∀ p ∈ ps, p.form.names ≠ []

theorem leads_params {p : Param} {ps : List (List Slot)} {ss : List Slot} {t : Token}
    (ht : Leads (Render.commas (Render.param p :: ps) ++ ss) F t) : t.kind ≠ .rParen := by
  rw [Render.commas, render_param, List.append_assoc, List.append_assoc] at ht
  cases hns : p.form.names with
  | nil =>
    rw [hns] at ht
    exact kind_ne_of_or (leads_typePart ht) (by decide) (by decide)
  | cons n ns =>
    rw [hns] at ht
    rw [show t.kind = .ident from ht.2.1]
    decide

theorem params_rereads {ps : List Param} (hne : ps ≠ []) (huniform : Uniform ps)
    (hdots : LastDots ps) (htypes : ∀ p ∈ ps, TypeInParens parse p.form.type) :
    (params parse).Rereads h (Render.commas (ps.map Render.param)) (·.kind = .rParen)
      fun qs => qs.reverse.map Bare.param = ps.map Bare.param := by
  obtain ⟨p, ps, rfl⟩ := List.exists_cons_of_ne_nil hne
  obtain hunnamed | hnamed := huniform
  · have hrender : (p :: ps).map Render.param = (p :: ps).map typePart := by
      refine List.map_congr_left fun q hq => ?_
      rw [render_param, hunnamed q hq]
      rfl
    rw [hrender, ← List.nil_append (Render.commas _)]
    refine .bind leadingNames_none (fun t ht => ?_) ?_
    · exact kind_ne_of_or (leads_typePart ht) (by decide) (by decide)
    · rintro _ rfl
      refine .bind_pure (.ifNotAt (fun t ht => ?_) ?_)
      · exact kind_ne_of_or (leads_typePart ht) (by decide) (by decide)
      · exact unnamedParams_rereads (List.cons_ne_nil _ _) hunnamed hdots htypes
  · rw [List.map_cons, Render.commas, render_param, List.append_assoc]
    refine .bind (leadingNames_rereads (hnamed p List.mem_cons_self))
      (fun t ht => leads_typePart ht) ?_
    rintro _ ⟨ms, rfl, hms⟩
    exact namedParams_rereads hms hnamed hdots htypes

theorem parameters_rereads {ps : ParamList} (huniform : Uniform ps.params)
    (hdots : LastDots ps.params) (htypes : ∀ p ∈ ps.params, TypeInParens parse p.form.type) :
    (parameters parse).Rereads h (Render.paramList ps) F
      fun qs => Bare.paramList qs = Bare.paramList ps := by
  obtain ⟨ps, sp⟩ := ps
  rw [Render.paramList, Render.paramNodes_eq]
  have hfinish : ∀ {l : Span} {qs : List Param}, qs.map Bare.param = ps.map Bare.param →
      (expect .rParen >>= fun r => recording (·.addParams qs) >>= fun _ =>
        pure (ParamList.mk qs (l.through r))).Rereads false [.kind .rParen] F
        fun qs => Bare.paramList qs = Bare.paramList ⟨ps, sp⟩ := by
    intro l qs hqs
    refine .bind_expect fun r => .bind_recording (.pure ?_)
    rw [Bare.paramList, Bare.paramList, Bare.paramNodes_eq, Bare.paramNodes_eq, hqs]
  refine .unrestricted (.bind_expect fun l => ?_)
  cases ps with
  | nil => exact .ifAt (fun _ ht => ht.2) (.bind_pure (hfinish rfl))
  | cons p ps =>
    refine .ifNotAt (fun t ht => leads_params ht)
      (.bind_map ?_ (fun _ ht => ht.2) fun qs => hfinish)
    exact params_rereads (List.cons_ne_nil _ _) huniform hdots htypes

-- ============================================================ signatures

theorem leads_typeExpr {ss : List Slot} {tok : Token}
    (ht : Leads (Render.typeExpr t ++ ss) F tok) :
    tok.kind ≠ .lParen ∧ startsType tok.kind = true := by
  have hkind : ∀ {k}, tok.kind = k → k ≠ .lParen → startsType k = true →
      tok.kind ≠ .lParen ∧ startsType tok.kind = true := by
    rintro _ rfl hne hstarts
    exact ⟨hne, hstarts⟩
  obtain ⟨i, sp, form⟩ := t
  cases form with
  | name pkg n => cases pkg <;> exact hkind ht.2.1 (by decide) rfl
  | chan dir t => cases dir <;> exact hkind ht.2 (by decide) rfl
  | _ => exact hkind ht.2 (by decide) rfl

/-- What a function returns comes back. -/
def ResultRereads (parse : SubParser) : FuncResult → Prop
  | .params ps => ParamsReread parse ps
  | .type t => TypeRereads parse t

theorem signature_rereads {sig : Signature} (hparams : ParamsReread parse sig.params)
    (hresult : ∀ r ∈ sig.result, ResultRereads parse r) :
    (signature parse).Rereads false (Render.signature sig) TypeEnds
      fun sig' => Bare.signature sig' = Bare.signature sig := by
  obtain ⟨ps, result, sp⟩ := sig
  refine .bind (hparams false) (fun _ _ => trivial) fun ps' hps => ?_
  have hfinish : ∀ result', Bare.optionalResult result' = Bare.optionalResult result →
      (spanFrom ps'.span.start >>= fun sp => pure (Signature.mk ps' result' sp)).Rereads false []
        TypeEnds fun sig' => Bare.signature sig' = Bare.signature ⟨ps, result, sp⟩ := by
    intro result' hresult
    refine .bind_spanFrom fun _ => .pure ?_
    rw [Bare.signature, Bare.signature, hps, hresult]
  cases result with
  | none =>
    refine .bind_isAt_false (fun t (ht : TypeEnds t) => ht.lParen) ?_
    refine .bind_kind fun t (ht : TypeEnds t) => ?_
    rw [if_neg Bool.false_ne_true, if_neg (by rw [ht.starts]; exact Bool.false_ne_true)]
    exact .bind_pure (hfinish none rfl)
  | some r =>
    cases r with
    | params qs =>
      have hqs : ParamsReread parse qs := hresult _ rfl
      refine .bind_isAt_true (fun t ht => ?_) (.bind_kind fun t _ => ?_)
      · obtain ⟨qs, sp'⟩ := qs
        exact ht.2
      · rw [if_pos rfl]
        refine .bind_last (.map (.map ((hqs false).imp (fun _ _ => trivial) fun qs' hqs' => ?_)))
          hfinish
        show some (Bare.funcResult _) = some (Bare.funcResult _)
        rw [Bare.funcResult, Bare.funcResult, hqs']
    | type u =>
      have hu : TypeRereads parse u := hresult _ rfl
      have hleads : ∀ t, Leads (Render.typeExpr u) TypeEnds t →
          t.kind ≠ .lParen ∧ startsType t.kind = true := by
        intro t ht
        rw [← List.append_nil (Render.typeExpr u)] at ht
        exact leads_typeExpr ht
      refine .bind_isAt_false (fun t ht => (hleads t ht).1) (.bind_kind fun t ht => ?_)
      rw [if_neg Bool.false_ne_true, if_pos (hleads t ht).2]
      refine .bind_last (.map (.map (hu.imp (fun _ ht => ht) fun u' hu' => ?_))) hfinish
      show some (Bare.funcResult _) = some (Bare.funcResult _)
      rw [Bare.funcResult, Bare.funcResult, hu']

-- =============================================== structs and interfaces

theorem structType_rereads {fields : List Field} (hfields : ∀ f ∈ fields, FieldRereads parse f)
    (hopen : ∀ f ∈ fields, ∀ t, Leads (Render.field f) (·.kind = .semi) t → t.kind ≠ .rBrace) :
    (structType parse).Rereads h
      (.kind .kwStruct :: Render.braces (Render.ended .semi (Render.fieldList fields))) F
      fun fs => fs.map Bare.field = fields.map Bare.field := by
  rw [Render.fieldList_eq]
  refine .bind_expect fun _ => .bind_expect fun _ => ?_
  refine .bind (.unrestricted (items_rereads hfields hopen fun _ ht => ht)) (fun _ ht => ht.2)
    fun fs hfs => ?_
  exact .bind_expect fun _ => .bind_recording (.pure hfs)

/-- Embedded types are names, or stars and names. -/
def IsEmbedded (t : TypeExpr) : Prop :=
  ∃ pkg n, t.form = .name pkg n ∨ ∃ i sp, t.form = .pointer ⟨i, sp, .name pkg n⟩

/-- What may follow an embedded type. -/
def EndsEmbedded (t : Token) : Prop :=
  t.kind = .stringLit ∨ t.kind = .rawStringLit ∨ t.kind = .semi

theorem fieldParts_embedded (ht : IsEmbedded t) :
    (fieldParts parse).Rereads h (Render.embedded t) EndsEmbedded
      fun r => r.1 = [] ∧ SameType t r.2 := by
  obtain ⟨i, sp, form⟩ := t
  obtain ⟨pkg, n, rfl | ⟨j, sp', rfl⟩⟩ := ht
  · cases pkg with
    | none =>
      refine .bind_here fun _ => .bind_kind_of (fun _ ht => ht.2.1) ?_
      refine .bind_last ident_rereads fun m hm => .bind_kind fun t ht => ?_
      have hplain : (qualifiedType m >>= fun t => pure (([] : List Ident), t)).Rereads h []
          EndsEmbedded
          fun r => r.1 = [] ∧ SameType ⟨i, sp, .name none n⟩ r.2 := by
        refine .bind_last ((qualifiedType_plain (n := n) hm).before fun t ht => ?_)
          fun t ht => .pure ⟨rfl, ht⟩
        obtain ht | ht | ht := ht <;> rw [ht] <;> decide
      obtain ht | ht | ht := ht <;> rw [ht] <;> exact hplain
    | some pkg =>
      refine .bind_here fun _ => .bind_kind_of (fun _ ht => ht.2.1) ?_
      refine .bind (G := fun _ => True) ident_rereads (fun _ _ => trivial) fun m hm => ?_
      refine .bind_kind_at (.bind_last (qualifiedType_qualified hm) fun t ht => .pure ⟨rfl, ht⟩)
  · have hname : typeName.Rereads h (Render.typeForm (.name pkg n)) EndsEmbedded
        (SameType ⟨j, sp', .name pkg n⟩) := by
      refine typeName_rereads.before fun t ht => ?_
      obtain ht | ht | ht := ht <;> rw [ht] <;> decide
    refine .bind_here fun _ => .bind_kind_at (.bind_advance fun _ _ => ?_)
    refine .bind_last hname fun u hu => ?_
    refine .bind_last (R := SameType ⟨i, sp, .pointer ⟨j, sp', .name pkg n⟩⟩)
      (finishType_rereads ?_) fun t ht => .pure ⟨rfl, ht⟩
    rw [Bare.typeForm, Bare.typeForm, hu]

theorem fieldParts_named {ns : List Ident} (hne : ns ≠ []) (ht : TypeInParens parse t) :
    (fieldParts parse).Rereads h (Render.names ns ++ Render.parens (Render.typeExpr t)) F
      fun r => r.1.map Bare.ident = ns.map Bare.ident ∧ SameType t r.2 := by
  obtain ⟨n, ns, rfl⟩ := List.exists_cons_of_ne_nil hne
  refine .bind_here fun _ => .bind_kind_of (fun _ ht => ht.2.1) ?_
  show Rereads _ h ([.name n.name] ++ (ns.map fun n => [Slot.name n.name]).flatMap
    (.kind .comma :: ·) ++ Render.parens (Render.typeExpr t)) F _
  rw [List.append_assoc]
  refine .bind (G := fun _ => True) ident_rereads (fun _ _ => trivial) fun m hm => ?_
  have hrest : (afterCommas ident m >>= fun names => parse .type >>= fun type =>
      recording (·.addIdents names) >>= fun _ => pure (names, type)).Rereads h
      ((ns.map fun n => [Slot.name n.name]).flatMap (.kind .comma :: ·) ++
        Render.parens (Render.typeExpr t)) F
      fun r => r.1.map Bare.ident = (n :: ns).map Bare.ident ∧ SameType t r.2 := by
    refine .bind (G := (·.kind = .lParen)) (afterCommas_rereads (G := fun _ _ => True) hm
      (fun _ _ => ident_rereads) (fun _ _ _ => trivial) (fun _ _ _ _ => trivial) fun t ht => ?_)
      (fun _ ht => ht.2) fun ms hms => ?_
    · rw [ht]
      decide
    · refine .bind_last ((ht h).before fun _ _ => trivial) fun u hu => ?_
      exact .bind_recording (.pure ⟨hms, hu⟩)
  refine .bind_kind fun tok htok => ?_
  cases ns with
  | nil =>
    rw [show tok.kind = .lParen from htok.2]
    exact hrest
  | cons n' ns =>
    rw [show tok.kind = .comma from htok.2]
    exact hrest

theorem leads_field {f : Field} (hembedded : f.form.names = [] → IsEmbedded f.form.type)
    {tok : Token} (htok : Leads (Render.field f) F tok) : tok.kind ≠ .rBrace := by
  obtain ⟨i, sp, ns, t, tag⟩ := f
  cases ns with
  | nil =>
    obtain ⟨j, sp', form⟩ := t
    obtain ⟨pkg, n, rfl | ⟨k, sp', rfl⟩⟩ := hembedded rfl
    · have hname : tok.kind = .ident := by cases pkg <;> exact htok.2.1
      rw [hname]
      decide
    · exact leads_ne (k := .star) (by decide) htok
  | cons n ns =>
    rw [show tok.kind = .ident from htok.2.1]
    decide

/-- A tag is a string. -/
def IsTag (tag : Option Lit) : Prop :=
  ∀ g ∈ tag, ∃ bytes, g.form = .string bytes

/-- The kinds of the tokens that denote strings. -/
theorem kind_of_decode {k : Token.Kind} {text : String} {bytes : List UInt8}
    (hv : Literal.decode k text = some (.string bytes)) : k = .stringLit ∨ k = .rawStringLit := by
  have other : ∀ {α : Type} {f : α → Literal} {o : Option α}, o.map f = some (.string bytes) →
      (∀ a, f a ≠ .string bytes) → False := by
    intro α f o ho hf
    obtain ⟨a, -, ha⟩ := Option.map_eq_some_iff.mp ho
    exact hf a ha
  cases k with
  | stringLit => exact .inl rfl
  | rawStringLit => exact .inr rfl
  | intLit | floatLit | imagLit | runeLit => exact (other hv nofun).elim
  | _ => exact nomatch hv

/-- The names and the type of a field, or the type alone. -/
theorem fieldParts_rereads {f : FieldForm}
    (hembedded : f.names = [] → IsEmbedded f.type)
    (hnamed : f.names ≠ [] → TypeInParens parse f.type) :
    (fieldParts parse).Rereads h (if f.names.isEmpty then Render.embedded f.type
      else Render.names f.names ++ Render.parens (Render.typeExpr f.type)) EndsEmbedded
      fun r => r.1.map Bare.ident = f.names.map Bare.ident ∧ SameType f.type r.2 := by
  obtain ⟨ns, t, tag⟩ := f
  cases ns with
  | nil =>
    refine (fieldParts_embedded (hembedded rfl)).imp (fun _ ht => ht) fun r hr => ⟨?_, hr.2⟩
    rw [hr.1]
  | cons n ns => exact fieldParts_named (List.cons_ne_nil _ _) (hnamed (List.cons_ne_nil _ _))

theorem leads_tag {tag : Option Lit} (htag : IsTag tag) {t : Token}
    (ht : Leads (tag.toList.map (.literal ·.form)) (·.kind = .semi) t) : EndsEmbedded t := by
  cases tag with
  | none => exact .inr (.inr ht)
  | some g =>
    obtain ⟨bytes, hg⟩ := htag g rfl
    have hv : Literal.decode t.kind t.text = some g.form := ht.2
    rw [hg] at hv
    exact (kind_of_decode hv).imp_right .inl

/-- The string after the type of a field, whatever is done with it. -/
theorem tag_rereads {β : Type} {P : β → Prop} {f : Option Lit → Parser β} {tag : Option Lit}
    (htag : IsTag tag) (hf : ∀ tag', tag'.map Bare.lit = tag.map Bare.lit →
      (f tag').Rereads h [] (·.kind = .semi) P) :
    (kind >>= fun k => match k with
      | .stringLit | .rawStringLit => some <$> literal >>= f
      | _ => pure none >>= f).Rereads h (tag.toList.map (.literal ·.form)) (·.kind = .semi) P := by
  cases tag with
  | none =>
    refine .bind_kind fun t ht => ?_
    rw [show t.kind = .semi from ht]
    exact .bind_pure (hf none rfl)
  | some g =>
    have hread : (some <$> literal >>= f).Rereads h [.literal g.form] (·.kind = .semi) P := by
      refine .bind_last (.map (Rereads.literal.imp (fun _ ht => ht) fun g' hg' => ?_)) hf
      rw [Option.map_some, Option.map_some, Bare.lit, Bare.lit, hg']
    refine .bind_kind fun t ht => ?_
    obtain ⟨bytes, hg⟩ := htag g rfl
    have hv : Literal.decode t.kind t.text = some g.form := ht.2
    rw [hg] at hv
    obtain hk | hk := kind_of_decode hv
    · rw [hk]
      exact hread
    · rw [hk]
      exact hread

theorem fieldDecl_rereads {f : Field} (htag : IsTag f.form.tag)
    (hembedded : f.form.names = [] → IsEmbedded f.form.type)
    (hnamed : f.form.names ≠ [] → TypeInParens parse f.form.type) :
    (fieldDecl parse).Rereads false (Render.field f) (·.kind = .semi)
      fun f' => Bare.field f' = Bare.field f := by
  obtain ⟨i, sp, ns, u, tag⟩ := f
  have hparts := fieldParts_rereads (f := ⟨ns, u, tag⟩) (h := false) hembedded hnamed
  rw [Render.field]
  refine .bind_here fun start => .bind hparts (fun _ ht => leads_tag htag ht)
    fun r ⟨hnames, hu⟩ => tag_rereads htag fun tag' htag' => ?_
  refine .bind_spanFrom fun _ => .building fun _ => ?_
  show Bare.field ⟨_, _, ⟨_, _, _⟩⟩ = _
  rw [Bare.field, Bare.field, hnames, hu, htag']

theorem interfaceElement_method {n : Ident} {sig : Signature} (hsig : SignatureRereads parse sig) :
    InterfaceElementRereads parse (.method n sig) := by
  refine .bind (G := fun _ => True) ident_rereads (fun _ _ => trivial) fun m hm => ?_
  refine .ifAt (fun t ht => ?_) ?_
  · obtain ⟨⟨ps, sp⟩, result, sp'⟩ := sig
    exact ht.2
  · refine .bind_last (hsig.before fun t ht => .of_kind ht (by decide) rfl)
      fun sig' hsig' => .pure ?_
    rw [Bare.interfaceElement, Bare.interfaceElement, hm, hsig']

theorem interfaceElement_embedded {pkg : Option Ident} {n : Ident} :
    InterfaceElementRereads parse (.embedded ⟨i, sp, .name pkg n⟩) := by
  have hfinish : ∀ {m : Ident} {ss : List Slot}, (qualifiedType m).Rereads false ss
      (·.kind = .semi) (SameType ⟨i, sp, .name pkg n⟩) →
      (qualifiedType m >>= fun t => pure (InterfaceElement.embedded t)).Rereads false ss
        (·.kind = .semi) fun e => Bare.interfaceElement e =
          Bare.interfaceElement (.embedded ⟨i, sp, .name pkg n⟩) := by
    intro m ss hread
    refine .bind_last hread fun t ht => .pure ?_
    rw [Bare.interfaceElement, Bare.interfaceElement, ht]
  cases pkg with
  | none =>
    refine .bind_last ident_rereads fun m hm => .ifNotAt (fun t ht => ?_) (hfinish ?_)
    · rw [show t.kind = .semi from ht]
      decide
    · refine (qualifiedType_plain hm).before fun t ht => ?_
      rw [ht]
      decide
  | some pkg =>
    refine .bind (G := fun _ => True) ident_rereads (fun _ _ => trivial) fun m hm => ?_
    exact .ifNotAt (fun _ => leads_ne (k := .dot) (by decide))
      (hfinish (qualifiedType_qualified hm))

theorem leads_interfaceElement {e : InterfaceElement} {tok : Token}
    (he : ∀ t, e = .embedded t → ∃ pkg n, t.form = .name pkg n)
    (htok : Leads (Render.interfaceElement e) F tok) : tok.kind ≠ .rBrace := by
  have hname : tok.kind = .ident := by
    cases e with
    | method n sig => exact htok.2.1
    | embedded t =>
      obtain ⟨i, sp, form⟩ := t
      obtain ⟨pkg, n, rfl⟩ := he _ rfl
      cases pkg <;> exact htok.2.1
  rw [hname]
  decide

theorem interfaceType_rereads {es : List InterfaceElement}
    (hes : ∀ e ∈ es, InterfaceElementRereads parse e)
    (hnamed : ∀ e ∈ es, ∀ t, e = .embedded t → ∃ pkg n, t.form = .name pkg n) :
    (interfaceType parse).Rereads h
      (.kind .kwInterface :: Render.braces (Render.ended .semi (Render.interfaceElements es))) F
      fun es' => es'.map Bare.interfaceElement = es.map Bare.interfaceElement := by
  rw [Render.interfaceElements_eq]
  refine .bind_expect fun _ => .bind_expect fun _ => ?_
  have hopen : ∀ e ∈ es, ∀ t, Leads (Render.interfaceElement e) (·.kind = .semi) t →
      t.kind ≠ .rBrace := fun e he _ => leads_interfaceElement (hnamed e he)
  refine .bind (.unrestricted (items_rereads hes hopen fun _ ht => ht)) (fun _ ht => ht.2)
    fun es' hes' => ?_
  exact .bind_expect fun _ => .bind_recording (.pure hes')

end Grammar

-- ================================================================ forms

namespace Grammar

/-- A function type as an operand: no brace follows that would make it a
function. -/
theorem operand_func {sig : Signature} (hsig : SignatureRereads parse sig) :
    (operand parse).Rereads false (Render.typeForm (.func sig)) Closes
      (SameExpr ⟨i, sp, .type ⟨j, sp', .func sig⟩⟩) := by
  refine .bind_kind_at (.bind_advance fun _ _ => ?_)
  refine .bind_last (hsig.before fun _ ht => ht.typeEnds) fun sig' hsig' => ?_
  refine .bind_isAt_false (fun t ht => ?_) ?_
  · exact kind_ne_of_or ht (by decide) (by decide)
  · rw [if_neg Bool.false_ne_true]
    have hform : Bare.typeForm (.func sig') = Bare.typeForm (.func sig) := by
      rw [Bare.typeForm, Bare.typeForm, hsig']
    refine .bind_last (R := SameType ⟨j, sp', .func sig⟩) (.newType hform) fun u hu => .newExpr ?_
    rw [Bare.exprForm, Bare.exprForm, hu]

/-- An arrow before `chan` is no operator. -/
theorem unaryExpr_receiveChan (ht : TypeInParens parse t) :
    (unaryExpr parse).Rereads false (Render.typeForm (.chan .receive t)) Closes
      (SameExpr ⟨i, sp, .type ⟨j, sp', .chan .receive t⟩⟩) := by
  refine .bind_kind_at ?_
  show Rereads (advance >>= _) _ _ _ _
  refine .bind_advance fun _ _ => .bind_isAt_true (fun _ ht => ht.2) ?_
  rw [if_pos (show (decide (UnaryOp.receive = .receive) && true) = true from rfl)]
  refine .bind_last (R := SameType ⟨j, sp', .chan .receive t⟩) (receiveChan_rereads ht)
    fun u hu => ?_
  refine .bind_last (R := SameExpr ⟨i, sp, .type ⟨j, sp', .chan .receive t⟩⟩) (.newExpr ?_)
    fun x hx => .repeating (.stop (suffix_stops (fun _ ht => ht.detached) hx))
  rw [Bare.exprForm, Bare.exprForm, hu]

end Grammar

namespace Always

theorem typeInParens (ht : Always (TypeRereads · t)) : Always (TypeInParens · t) :=
  ht.deeper fun _ ht _ => .production (Grammar.type_parens ht)

theorem typeName {pkg : Option Ident} {n : Ident} :
    Always (TypeRereads · ⟨i, sp, .name pkg n⟩) := by
  have hname : Always fun parse => (Grammar.type parse).Rereads false
      (Render.typeForm (.name pkg n)) TypeEnds (SameType ⟨i, sp, .name pkg n⟩) :=
    .of_forall fun _ => Grammar.type_name
  exact hname.deeper fun _ hname => .production hname

theorem arrayType {len : ArrayLength} (ht : Always (TypeRereads · t))
    (hlen : ∀ x, len = .expr x → Always (ExprRereads · x)) :
    Always (TypeRereads · ⟨i, sp, .array len t⟩) := by
  have hlen' : Always fun parse => ∀ x, len = .expr x → ExprInParens parse false x := by
    cases len with
    | dots d => exact .of_forall fun _ => nofun
    | expr x =>
      refine ((hlen x rfl).inParens false).imp fun _ hx => ?_
      rintro _ ⟨⟩
      exact hx
  exact (ht.typeInParens.and hlen').deeper fun _ ⟨ht, hlen⟩ =>
    .production (Grammar.type_array ht hlen)

theorem sliceType (ht : Always (TypeRereads · t)) : Always (TypeRereads · ⟨i, sp, .slice t⟩) :=
  ht.typeInParens.deeper fun _ ht => .production (Grammar.type_slice ht)

theorem pointerType (ht : Always (TypeRereads · t)) : Always (TypeRereads · ⟨i, sp, .pointer t⟩) :=
  ht.typeInParens.deeper fun _ ht => .production (Grammar.type_pointer ht)

theorem mapType {key : TypeExpr} (hkey : Always (TypeRereads · key))
    (ht : Always (TypeRereads · t)) :
    Always (TypeRereads · ⟨i, sp, .map key t⟩) :=
  (hkey.typeInParens.and ht.typeInParens).deeper fun _ ⟨hkey, ht⟩ =>
    .production (Grammar.type_map ht hkey)

theorem chanType {dir : ChanDir} (ht : Always (TypeRereads · t)) :
    Always (TypeRereads · ⟨i, sp, .chan dir t⟩) :=
  ht.typeInParens.deeper fun _ ht => .production (Grammar.type_chan ht)

theorem funcType {sig : Signature} (hsig : Always (SignatureRereads · sig)) :
    Always (TypeRereads · ⟨i, sp, .func sig⟩) :=
  hsig.deeper fun _ hsig => .production (Grammar.type_func hsig)

theorem structType {fields : List Field} (hfields : ∀ f ∈ fields, Always (FieldRereads · f))
    (hembedded : ∀ f ∈ fields, f.form.names = [] → Grammar.IsEmbedded f.form.type) :
    Always (TypeRereads · ⟨i, sp, .struct fields⟩) := by
  have hstruct : Always fun parse => ∀ h F, (parse .structType).Rereads h
      (.kind .kwStruct :: Render.braces (Render.ended .semi (Render.fieldList fields))) F
      fun fs => fs.map Bare.field = fields.map Bare.field :=
    (all hfields).deeper fun _ hfields _ _ => .production
      (Grammar.structType_rereads hfields fun f hf _ => Grammar.leads_field (hembedded f hf))
  exact hstruct.deeper fun _ hstruct => .production (Grammar.type_struct (hstruct _ _))

theorem interfaceType {es : List InterfaceElement}
    (hes : ∀ e ∈ es, Always (InterfaceElementRereads · e))
    (hnamed : ∀ e ∈ es, ∀ t, e = .embedded t → ∃ pkg n, t.form = .name pkg n) :
    Always (TypeRereads · ⟨i, sp, .interface es⟩) := by
  have hinterface : Always fun parse => ∀ h F, (parse .interfaceType).Rereads h
      (.kind .kwInterface :: Render.braces (Render.ended .semi (Render.interfaceElements es))) F
      fun es' => es'.map Bare.interfaceElement = es.map Bare.interfaceElement :=
    (all hes).deeper fun _ hes _ _ => .production (Grammar.interfaceType_rereads hes hnamed)
  exact hinterface.deeper fun _ hinterface => .production (Grammar.type_interface (hinterface _ _))

-- ============================================================ signatures

theorem parameters {ps : ParamList} (huniform : Grammar.Uniform ps.params)
    (hdots : Grammar.LastDots ps.params)
    (htypes : ∀ p ∈ ps.params, Always (TypeRereads · p.form.type)) :
    Always (ParamsReread · ps) :=
  (all fun p hp => (htypes p hp).typeInParens).deeper fun _ htypes _ => .production
    (Grammar.parameters_rereads huniform hdots htypes)

theorem signature {sig : Signature} (hparams : Always (ParamsReread · sig.params))
    (hresult : ∀ r ∈ sig.result, Always (Grammar.ResultRereads · r)) :
    Always (SignatureRereads · sig) := by
  exact (hparams.and (option hresult)).deeper fun _ ⟨hparams, hresult⟩ =>
    .production (Grammar.signature_rereads hparams hresult)

theorem field {f : Field} (htag : Grammar.IsTag f.form.tag)
    (hembedded : f.form.names = [] → Grammar.IsEmbedded f.form.type)
    (hnamed : f.form.names ≠ [] → Always (TypeRereads · f.form.type)) :
    Always (FieldRereads · f) := by
  have htype : Always fun parse => f.form.names ≠ [] → TypeInParens parse f.form.type := by
    by_cases hne : f.form.names = []
    · exact .of_forall fun _ hne' => absurd hne hne'
    · exact (hnamed hne).typeInParens.imp fun _ ht _ => ht
  exact htype.deeper fun _ htype => .production (Grammar.fieldDecl_rereads htag hembedded htype)

-- ====================================================== types as operands

/-- The types that show themselves to be types where an operand stands. -/
theorem headedExpr (ht : Always (TypeRereads · t)) (hform : t.form.isHeaded = true) :
    Always (ExprRereads · ⟨i, sp, .type t⟩) := by
  refine ((operandType i sp ht hform).imp fun _ hop => hop.before fun _ ht => ht.typeEnds).ofOperand
    (fun tok htok => ?_) fun _ => Closes.endsExpr
  rw [← List.append_nil (Render.expr _)] at htok
  exact Grammar.leads_headed hform htok

theorem funcExpr {sig : Signature} (hsig : Always (SignatureRereads · sig)) :
    Always (ExprRereads · ⟨i, sp, .type ⟨j, sp', .func sig⟩⟩) := by
  have hop : Always fun parse => (parse .operand).Rereads false
      (Render.typeForm (.func sig)) Closes (SameExpr ⟨i, sp, .type ⟨j, sp', .func sig⟩⟩) :=
    hsig.deeper fun _ hsig => .production (Grammar.operand_func hsig)
  refine hop.ofOperand (fun tok htok => ?_) fun _ => Closes.endsExpr
  rw [show tok.kind = .kwFunc from htok.2]
  rfl

theorem receiveChanExpr (ht : Always (TypeRereads · t)) :
    Always (ExprRereads · ⟨i, sp, .type ⟨j, sp', .chan .receive t⟩⟩) := by
  have hunary : Always fun parse => (parse .unaryExpr).Rereads false
      (Render.typeForm (.chan .receive t)) Closes
      (SameExpr ⟨i, sp, .type ⟨j, sp', .chan .receive t⟩⟩) :=
    ht.typeInParens.deeper fun _ ht => .production (Grammar.unaryExpr_receiveChan ht)
  exact hunary.expression fun _ ht => binary_none ht.endsExpr

end Always

end GoSource
