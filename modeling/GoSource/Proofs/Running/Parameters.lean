/-
Lists of parameters are accepted, those with names and those without.

What a list of parameters is made of shows late. Names and commas are read
until something decides, and by then any number of names may be pending,
which are types or the names of the first group. There are five ways to
decide it: a comma or nothing before the closing parenthesis, a point, a
token that begins a type but is no name, and a token that begins one after
a name. For each of them what is pending goes where it belongs: this is
`types_accept` for lists of types and `leadingNames_named` for groups, both
by induction on what is written, with any names pending.

# What is written

A list is made of items with commas between them (`Joined`), and each item
of its names, its dots and a type (`ParamText`). Types are what the type
production accepts on its own (`AcceptedType`), and nothing else is known of
them, except that a type that begins with a name is a name.
-/
import GoSource.Proofs.Parsing.Accepts
import GoSource.Proofs.Parsing.Rereads
import GoSource.Proofs.Running.Accepted

namespace GoSource

open GoSource.Parser

variable {α : Type} {parse : SubParser} {ts us ds cs : List Token} {u : Token} {t : TypeExpr}
  {F : Token.Kind → Prop}

-- ================================================================ lists

/-- One item or more with commas between them. -/
inductive Joined (Item : List Token → α → Prop) : List Token → List α → Prop
  | one {ts : List Token} {a : α} : Item ts a → Joined Item ts [a]
  | more {ts us : List Token} {c : Token} {a : α} {as : List α} : Item ts a → c.kind = .comma →
      Joined Item us as → Joined Item (ts ++ c :: us) (a :: as)

theorem Joined.ne_nil {Item : List Token → α → Prop} {as : List α} (h : Joined Item ts as) :
    as ≠ [] := by
  cases h <;> exact List.cons_ne_nil _ _

theorem Derives.name_eq {n : Ident} (h : Derives .name ts n) :
    ∃ t, t.kind = .ident ∧ ts = [t] ∧ n = ⟨t.text, t.span⟩ := by
  cases h with
  | name hk => exact ⟨_, hk, rfl, rfl⟩

/-- Dots that may be missing. -/
theorem Derives.dots_cases {dots : Option Span}
    (h : Derives (.optional (.mark .ellipsis)) ds dots) :
    ds = [] ∧ dots = none ∨ ∃ d, d.kind = .ellipsis ∧ ds = [d] ∧ dots = some d.span := by
  cases h with
  | absent => exact .inl ⟨rfl, rfl⟩
  | present h =>
    cases h with
    | mark hk => exact .inr ⟨_, hk, rfl, rfl⟩

-- ================================================================ types

/-- The tokens are taken as the type where a parameter ends behind them. -/
def TypeTaken (parse : SubParser) (ts : List Token) (t : TypeExpr) : Prop :=
  (parse .type).Accepts ts (·.endsParam = true) fun u => ∃ δ, u = Renumber.typeExpr δ t

theorem Derives.startsType (h : Derives .type us t) (hus : us = u :: ts) :
    Grammar.startsType u.kind = true := by
  cases h with
  | typeName h =>
    cases h with
    | plainName h =>
      obtain ⟨v, hv, rfl, -⟩ := h.name_eq
      cases hus
      rw [hv]
      rfl
    | qualifiedName h =>
      obtain ⟨v, hv, rfl, -⟩ := h.name_eq
      cases hus
      rw [hv]
      rfl
  | parenType hk | arrayType hk | sliceType hk | pointerType hk | mapType hk | chanType hk
  | sendChan hk | receiveChan hk | funcType hk | structType hk | interfaceType hk =>
    cases hus
    rw [hk]
    rfl

theorem Parser.ident_types {s s' : Parsing} {n : Ident} (h : ident s = .ok n s') :
    s'.arena.types = s.arena.types := by
  obtain ⟨b, s₁, hb, h⟩ := bind_eq_ok.mp h
  cases hb
  split at h
  · cases h
    rfl
  · exact absurd h unexpected_ne_ok

/-- A type that is a name is the next type of the arena. -/
theorem Grammar.typeName_id {s s' : Parsing} (h : typeName s = .ok t s') :
    t.id = s.arena.types.size := by
  obtain ⟨n, s₁, hn, h⟩ := bind_eq_ok.mp h
  obtain ⟨o, s₂, ho, h⟩ := bind_eq_ok.mp h
  have h₂ : s₂.arena.types = s₁.arena.types := by
    obtain ⟨b, s₃, hb, ho⟩ := bind_eq_ok.mp ho
    cases hb
    split at ho <;> cases ho <;> rfl
  rw [← ident_types hn, ← h₂]
  cases o with
  | none =>
    cases h
    rfl
  | some sp =>
    obtain ⟨m, s₄, hm, h⟩ := bind_eq_ok.mp h
    rw [← ident_types hm]
    cases h
    rfl

namespace AcceptedType

theorem always (h : AcceptedType ts t) : Always fun parse => TypeTaken parse ts t := by
  obtain ⟨least, hleast⟩ := h.parse_eq
  refine Filter.eventually_atTop.mpr ⟨least, fun depth hdepth s d hs hd hend => ?_⟩
  obtain ⟨δ, s', hs', hcursor, hready⟩ := hleast depth hdepth s d hs hd hend
  exact ⟨_, s', hs', hcursor, hready, δ, rfl⟩

theorem heads (h : AcceptedType ts t) {k : Token.Kind} (hk : Heads (ts ++ us) F k) :
    Grammar.startsType k = true := by
  obtain ⟨u, ts, rfl⟩ := List.exists_cons_of_ne_nil h.ne_nil
  rw [show k = u.kind from hk]
  exact h.derives.startsType rfl

theorem id_eq_zero (h : AcceptedType (u :: us) t) (hu : u.kind = .ident) : t.id = 0 := by
  obtain ⟨_ | depth, s, hs, -⟩ := h
  · cases hs
  rw [Grammar.parse_succ, during] at hs
  split at hs
  · next s₁ hs₁ =>
    cases hs
    obtain ⟨l, _, hl, hs₁⟩ := bind_eq_ok.mp hs₁
    cases hl
    obtain ⟨k, _, hk, hs₁⟩ := bind_eq_ok.mp hs₁
    cases hk
    rw [show (Parsing.start (.ofTokens (u :: us)) .empty).current.kind = .ident from hu] at hs₁
    exact Grammar.typeName_id hs₁
  · cases hs

/-- A type that begins with a name is this name, or qualified by it. -/
theorem of_ident (h : AcceptedType (u :: us) t) (hu : u.kind = .ident) :
    us = [] ∧ t = ⟨0, u.span, .name none ⟨u.text, u.span⟩⟩ ∨
      ∃ p n, us = [p, n] ∧ p.kind = .dot ∧ n.kind = .ident ∧
        t = ⟨0, ⟨u.span.start, n.span.stop⟩,
          .name (some ⟨u.text, u.span⟩) ⟨n.text, n.span⟩⟩ := by
  have hid := h.id_eq_zero hu
  have hderives := h.derives
  generalize hts : u :: us = ts at hderives
  cases hderives with
  | typeName hname =>
    cases hname with
    | plainName hn =>
      obtain ⟨v, -, rfl, rfl⟩ := hn.name_eq
      cases hts
      obtain rfl : _ = 0 := hid
      exact .inl ⟨rfl, rfl⟩
    | qualifiedName hpkg hp hn =>
      obtain ⟨v, -, rfl, rfl⟩ := hpkg.name_eq
      obtain ⟨n, hk, rfl, rfl⟩ := hn.name_eq
      cases hts
      obtain rfl : _ = 0 := hid
      exact .inr ⟨_, n, rfl, hp, hk, rfl⟩
  | parenType hk | arrayType hk | sliceType hk | pointerType hk | mapType hk | chanType hk
  | sendChan hk | receiveChan hk | funcType hk | structType hk | interfaceType hk =>
    cases hts
    exact nomatch hu.symm.trans hk

end AcceptedType

-- =========================================================== parameters

/-- A type, which may be variadic, or a group of names with such a type. -/
inductive ParamText : (named : Bool) → List Token → ParamForm → Prop
  | type {ds ts : List Token} {dots : Option Span} {t : TypeExpr} :
      Derives (.optional (.mark .ellipsis)) ds dots → AcceptedType ts t →
        ParamText false (ds ++ ts) ⟨[], dots, t⟩
  | group {ns ds ts : List Token} {names : List Ident} {dots : Option Span} {t : TypeExpr} :
      Joined (Derives .name) ns names → Derives (.optional (.mark .ellipsis)) ds dots →
        AcceptedType ts t → ParamText true (ns ++ (ds ++ ts)) ⟨names, dots, t⟩

theorem Joined.heads_names {names : List Ident} {k : Token.Kind}
    (h : Joined (Derives .name) ts names) (hk : Heads (ts ++ us) F k) : k = .ident := by
  cases h with
  | one hn =>
    obtain ⟨v, hv, rfl, -⟩ := hn.name_eq
    exact Eq.trans hk hv
  | more hn =>
    obtain ⟨v, hv, rfl, -⟩ := hn.name_eq
    exact Eq.trans hk hv

/-- Dots and a type begin with none of the tokens that names go with. -/
theorem AcceptedType.heads_dots {dots : Option Span} {k : Token.Kind} (h : AcceptedType ts t)
    (hds : Derives (.optional (.mark .ellipsis)) ds dots) (hk : Heads (ds ++ ts ++ us) F k) :
    k ≠ .rParen ∧ k ≠ .comma ∧ k ≠ .dot := by
  obtain ⟨rfl, -⟩ | ⟨d, hd, rfl, -⟩ := hds.dots_cases
  · have hstarts := h.heads hk
    refine ⟨?_, ?_, ?_⟩ <;> exact fun hk => nomatch hk ▸ hstarts
  · rw [show k = .ellipsis from Eq.trans hk hd]
    decide

theorem Joined.heads_params {named : Bool} {fs : List ParamForm} {k : Token.Kind}
    (h : Joined (ParamText named) ts fs) (hk : Heads (ts ++ us) F k) : k ≠ .rParen := by
  have item : ∀ {ts us f}, ParamText named ts f → Heads (ts ++ us) F k → k ≠ .rParen := by
    rintro ts us f hitem hk
    cases hitem with
    | type hds ht => exact (ht.heads_dots hds hk).1
    | group hnames hds ht =>
      rw [List.append_assoc] at hk
      rw [hnames.heads_names hk]
      decide
  cases h with
  | one hitem => exact item hitem hk
  | more hitem =>
    rw [List.append_assoc] at hk
    exact item hitem hk

/-- The parameters are what is written, but for the numbers of nodes. -/
def SameParams (ps : List Param) (forms : List ParamForm) : Prop :=
  List.Forall₂ (fun p f => ∃ δ, p.form = Renumber.paramForm δ f) ps forms

theorem SameParams.snoc {ps : List Param} {fs : List ParamForm} {p : Param} {f : ParamForm}
    (h : SameParams ps.reverse fs) (hp : ∃ δ, p.form = Renumber.paramForm δ f) :
    SameParams (p :: ps).reverse (fs ++ [f]) := by
  rw [List.reverse_cons]
  exact List.rel_append h (.cons hp .nil)

namespace Grammar

theorem moreParams_true {c : Token} (hc : c.kind = .comma) :
    moreParams.Accepts [c] (· ≠ .rParen) (· = true) :=
  .bind_eat hc (.bind_isAt fun k hk => .pure (by rw [decide_eq_false hk]; rfl))

theorem moreParams_false (hcs : Possibly .comma cs) :
    moreParams.Accepts cs (· = .rParen) (· = false) := by
  obtain rfl | ⟨c, hc, rfl⟩ := hcs
  · refine .bind_eat_none (fun k hk => ?_) (.pure rfl)
    rw [show k = .rParen from hk]
    decide
  · exact .bind_eat hc (.bind_isAt fun k hk => .pure (by rw [show k = .rParen from hk]; rfl))

theorem finishParam_accepts {names : List Ident} {dots : Option Span} {start : Location}
    {δ : NodeKind → Nat} :
    (finishParam names dots (Renumber.typeExpr δ t) start).Accepts [] F
      fun p => ∃ δ, p.form = Renumber.paramForm δ ⟨names, dots, t⟩ :=
  .bind_taking_none .recording fun _ _ => .bind_spanFrom fun _ => .building fun _ => ⟨δ, rfl⟩

section

variable {names : List Ident} {dots : Option Span} {start : Location} (ht : AcceptedType ts t)
  (htype : TypeTaken parse ts t)

include ht htype

theorem paramAfter_accepts_last (hdots : Derives (.optional (.mark .ellipsis)) ds dots)
    (hcs : Possibly .comma cs) :
    (paramAfter parse names start).Accepts (ds ++ ts ++ cs) (· = .rParen) fun r =>
      (∃ δ, r.1.form = Renumber.paramForm δ ⟨names, dots, t⟩) ∧ r.2 = false := by
  have hend : ∀ k, Heads cs (· = .rParen) k → k.endsParam = true := by
    obtain rfl | ⟨c, hc, rfl⟩ := hcs
    · rintro k rfl
      rfl
    · rintro k rfl
      rw [hc]
      rfl
  obtain ⟨rfl, rfl⟩ | ⟨d, hd, rfl, rfl⟩ := hdots.dots_cases
  · refine .bind_eat_none (fun k hk hk' => nomatch hk' ▸ ht.heads hk) ?_
    refine .bind htype hend ?_
    rintro _ ⟨δ, rfl⟩
    refine .bind_taking_none finishParam_accepts fun p hp => ?_
    rw [if_neg (by simp)]
    exact .bind_last (moreParams_false hcs) fun more hmore => .pure ⟨hp, hmore⟩
  · refine .bind_eat hd (.bind htype hend ?_)
    rintro _ ⟨δ, rfl⟩
    refine .bind_taking_none finishParam_accepts fun p hp => ?_
    rw [if_pos Option.isSome_some]
    refine .bind_last (.eat_possibly hcs fun k hk => ?_) fun _ _ => .pure ⟨hp, rfl⟩
    rw [hk]
    decide

theorem paramAfter_accepts_more {c : Token} (hc : c.kind = .comma) :
    (paramAfter parse names start).Accepts (ts ++ [c]) (· ≠ .rParen) fun r =>
      (∃ δ, r.1.form = Renumber.paramForm δ ⟨names, none, t⟩) ∧ r.2 = true := by
  refine .bind_eat_none (fun k hk hk' => nomatch hk' ▸ ht.heads hk) ?_
  refine .bind htype (fun k hk => by rw [show k = c.kind from hk, hc]; rfl) ?_
  rintro _ ⟨δ, rfl⟩
  refine .bind_taking_none finishParam_accepts fun p hp => ?_
  rw [if_neg (by simp)]
  exact .bind_last (moreParams_true hc) fun more hmore => .pure ⟨hp, hmore⟩

end

-- ========================================================== only types

/-- What decides is known, and so is what the pending names are. -/
def afterLeading (parse : SubParser) : LeadingNames → Parser (List Param)
  | .named names => namedParams parse names.reverse
  | .qualified names pkg => do
    let params ← typeNameParams names
    let type ← qualifiedType pkg
    let params := (← finishParam [] none type pkg.span.start) :: params
    if (← moreParams) then unnamedParams parse params else pure params
  | .types names | .undecided names => do
    let params ← typeNameParams names
    if (← isAt .rParen) then pure params else unnamedParams parse params

theorem params_eq : params parse = leadingNames >>= afterLeading parse := rfl

/-- A parameter that is nothing but a name, which is a type. -/
def nameForm (n : Ident) : ParamForm := ⟨[], none, ⟨0, n.span, .name none n⟩⟩

/-- The same with a name that is qualified by another. -/
def qualifiedForm (pkg n : Token) : ParamForm :=
  ⟨[], none, ⟨0, ⟨pkg.span.start, n.span.stop⟩,
    .name (some ⟨pkg.text, pkg.span⟩) ⟨n.text, n.span⟩⟩⟩

theorem typeNameParams_accepts (names : List Ident) :
    (typeNameParams names).Accepts [] (fun _ => True) fun ps =>
      SameParams ps.reverse (names.reverse.map nameForm) := by
  unfold typeNameParams
  induction names with
  | nil => exact .pure .nil
  | cons n names ih =>
    rw [List.foldrM_cons, List.reverse_cons, List.map_append]
    refine .bind_taking_none ih fun ps hps => ?_
    refine .bind_taking_none (P := fun t => ∃ i, t = ⟨i, n.span, .name none n⟩)
      (.building fun _ => ⟨_, rfl⟩) ?_
    rintro _ ⟨i, rfl⟩
    refine .bind_taking_none (P := fun p => p.form = ⟨[], none, ⟨i, n.span, .name none n⟩⟩)
      (.building fun _ => rfl) fun p hp => .pure (hps.snoc ⟨fun _ => i, ?_⟩)
    rw [hp]
    simp [nameForm, Renumber.paramForm, Renumber.typeExpr, Renumber.typeForm]

variable {fs gs : List ParamForm} {acc : List Param}

/-- Types after parameters that have been read. -/
theorem unnamedParams_accepts (h : Joined (ParamText false) ts fs)
    (hdots : ∀ f ∈ fs.dropLast, f.dots = none) (hcs : Possibly .comma cs) :
    Always fun parse => ∀ acc gs, SameParams acc.reverse gs →
      (unnamedParams parse acc).Accepts (ts ++ cs) (· = .rParen) fun ps =>
        SameParams ps.reverse (gs ++ fs) := by
  have hsound : Always fun parse => parse.Sound := Filter.Eventually.of_forall parse_sound
  induction h with
  | one hitem =>
    cases hitem with
    | type hds ht =>
      refine (hsound.and ht.always).imp fun parse ⟨hsound, htype⟩ acc gs hacc => ?_
      refine .repeating_stop (unnamedParam_advances hsound) (.bind_here fun _ => ?_)
      refine .bind_last (paramAfter_accepts_last ht htype hds hcs) fun ⟨p, more⟩ ⟨hp, hmore⟩ => ?_
      obtain rfl : more = false := hmore
      exact .pure ⟨_, rfl, hacc.snoc hp⟩
  | @more _ us c f fs hitem hc hjoined ih =>
    rw [List.dropLast_cons_of_ne_nil hjoined.ne_nil] at hdots
    cases hitem with
    | @type ds ts dots t hds ht =>
      obtain ⟨rfl, rfl⟩ | ⟨_, _, _, rfl⟩ := hds.dots_cases
      · have hrest := ih fun f hf => hdots f (List.mem_cons_of_mem _ hf)
        refine (hsound.and (ht.always.and hrest)).imp
          fun parse ⟨hsound, htype, hrest⟩ acc gs hacc => ?_
        have htokens : [] ++ ts ++ c :: us ++ cs = ts ++ [c] ++ (us ++ cs) := by simp
        rw [htokens, List.append_cons gs]
        refine .repeating_again (I := fun ps => SameParams ps.reverse (gs ++ [_]))
          (unnamedParam_advances hsound) (.bind_here fun _ => ?_)
          (fun k hk => hjoined.heads_params hk) fun ps hps => hrest ps _ hps
        refine .bind_last (paramAfter_accepts_more ht htype hc) fun ⟨p, more⟩ ⟨hp, hmore⟩ => ?_
        obtain rfl : more = true := hmore
        exact .pure ⟨_, rfl, hacc.snoc hp⟩
      · exact nomatch hdots _ List.mem_cons_self

variable {names : List Ident} {n : Token}

theorem leadingNames_types (names : List Ident) :
    (repeating leadingName (.undecided names)).Accepts [] (· ≠ .ident) (· = .types names) :=
  .repeating_stop leadingName_advances (.ifNotAt (fun _ h => h) (.pure ⟨_, rfl, rfl⟩))

/-- A name, and what the token after it says. -/
theorem leadingName_accepts {R : Turn LeadingNames → Prop} (hn : n.kind = .ident)
    (h : ∀ k, Heads ts F k → (match k with
      | .comma => do
        let _ ← advance
        if (← isAt .rParen) then pure (.stop (.types (⟨n.text, n.span⟩ :: names)))
        else pure (.again (.undecided (⟨n.text, n.span⟩ :: names)))
      | .rParen => pure (.stop (.types (⟨n.text, n.span⟩ :: names)))
      | .dot => pure (.stop (.qualified names ⟨n.text, n.span⟩))
      | _ => pure (.stop (.named (⟨n.text, n.span⟩ :: names))) :
        Parser (Turn LeadingNames)).Accepts ts F R) :
    (leadingName (.undecided names)).Accepts (n :: ts) F R := by
  refine .ifAt (fun _ h => h.trans hn) (.bind_first (.ident hn) ?_)
  rintro _ rfl
  exact .bind_kind h

theorem leadingNames_end (hn : n.kind = .ident) (hcs : Possibly .comma cs) :
    (repeating leadingName (.undecided names)).Accepts (n :: cs) (· = .rParen)
      (· = .types (⟨n.text, n.span⟩ :: names)) := by
  refine .repeating_stop leadingName_advances (leadingName_accepts hn fun k hk => ?_)
  obtain rfl | ⟨c, hc, rfl⟩ := hcs
  · rw [show k = .rParen from hk]
    exact .pure ⟨_, rfl, rfl⟩
  · rw [show k = .comma from Eq.trans hk hc]
    exact .bind_advance (.ifAt (fun _ h => h) (.pure ⟨_, rfl, rfl⟩))

theorem leadingNames_dot (hn : n.kind = .ident) :
    (repeating leadingName (.undecided names)).Accepts [n] (· = .dot)
      (· = .qualified names ⟨n.text, n.span⟩) := by
  refine .repeating_stop leadingName_advances (leadingName_accepts hn fun k hk => ?_)
  rw [show k = .dot from hk]
  exact .pure ⟨_, rfl, rfl⟩

theorem leadingName_comma {c : Token} (hn : n.kind = .ident) (hc : c.kind = .comma) :
    (leadingName (.undecided names)).Accepts [n, c] (· ≠ .rParen)
      fun r => ∃ b, r = .again b ∧ b = .undecided (⟨n.text, n.span⟩ :: names) := by
  refine leadingName_accepts hn fun k hk => ?_
  rw [show k = .comma from Eq.trans hk hc]
  exact .bind_advance (.ifNotAt (fun _ h => h) (.pure ⟨_, rfl, rfl⟩))

theorem qualifiedType_accepts {p : Token} (pkg : Ident) (hp : p.kind = .dot)
    (hn : n.kind = .ident) : (qualifiedType pkg).Accepts [p, n] F fun t => ∃ i, t =
      ⟨i, ⟨pkg.span.start, n.span.stop⟩, .name (some pkg) ⟨n.text, n.span⟩⟩ := by
  have hname : (ident >>= fun name => spanFrom pkg.span.start >>= fun sp =>
      newType (.name (some pkg) name) sp).Accepts [n] F fun t => ∃ i, t =
        ⟨i, ⟨pkg.span.start, n.span.stop⟩, .name (some pkg) ⟨n.text, n.span⟩⟩ := by
    refine .bind_spanFrom_last (List.cons_ne_nil _ _) (.ident hn) ?_
    rintro _ rfl
    exact .building fun _ => ⟨_, rfl⟩
  exact .bind_eat hp hname

end Grammar

/-- A type without dots that begins with a name is the name, or qualified by
it. -/
theorem ParamText.type_cases {f : ParamForm} (h : ParamText false ts f) :
    (∃ n, n.kind = .ident ∧ ts = [n] ∧ f = Grammar.nameForm ⟨n.text, n.span⟩) ∨
    (∃ q p n, q.kind = .ident ∧ p.kind = .dot ∧ n.kind = .ident ∧ ts = [q, p, n] ∧
      f = Grammar.qualifiedForm q n) ∨
    ∃ u us, ts = u :: us ∧ u.kind ≠ .ident := by
  cases h with
  | @type ds ts dots t hds ht =>
    obtain ⟨rfl, rfl⟩ | ⟨d, hd, rfl, -⟩ := hds.dots_cases
    · obtain ⟨u, us, rfl⟩ := List.exists_cons_of_ne_nil ht.ne_nil
      by_cases hu : u.kind = .ident
      · obtain ⟨rfl, rfl⟩ | ⟨p, n, rfl, hp, hn, rfl⟩ := ht.of_ident hu
        · exact .inl ⟨u, hu, rfl, rfl⟩
        · exact .inr (.inl ⟨u, p, n, hu, hp, hn, rfl, rfl⟩)
      · exact .inr (.inr ⟨u, us, rfl, hu⟩)
    · exact .inr (.inr ⟨d, ts, rfl, by rw [hd]; decide⟩)

namespace Grammar

variable {fs : List ParamForm}

/-- A token that is no name shows that the pending names are types. -/
theorem types_accept_other (h : Joined (ParamText false) ts fs)
    (hdots : ∀ f ∈ fs.dropLast, f.dots = none) (hcs : Possibly .comma cs)
    (hother : ∀ k, Heads (ts ++ cs) (· = .rParen) k → k ≠ .ident) :
    Always fun parse => ∀ names,
      (repeating leadingName (.undecided names) >>= afterLeading parse).Accepts (ts ++ cs)
        (· = .rParen) fun ps => SameParams ps.reverse (names.reverse.map nameForm ++ fs) := by
  refine (unnamedParams_accepts h hdots hcs).imp fun parse hrest names => ?_
  refine .bind_none (leadingNames_types names) hother ?_
  rintro _ rfl
  refine .bind_taking_none (typeNameParams_accepts names) fun ps hps => ?_
  exact .ifNotAt (fun k hk => h.heads_params hk) (hrest ps _ hps)

/-- A point shows that the last of the pending names qualifies the next. -/
theorem types_accept_dot {q p : Token} {R : List Param → Prop} (hq : q.kind = .ident)
    (hp : p.kind = .dot) (hn : n.kind = .ident)
    (hmore : ∀ ps, SameParams ps.reverse (names.reverse.map nameForm ++ [qualifiedForm q n]) →
      (moreParams >>= fun b => if b = true then unnamedParams parse ps else pure ps).Accepts
        ts F R) :
    (repeating leadingName (.undecided names) >>= afterLeading parse).Accepts
      ([q] ++ ([p, n] ++ ts)) F R := by
  refine .bind (leadingNames_dot hq) (fun k hk => Eq.trans hk hp) ?_
  rintro _ rfl
  refine .bind_taking_none (typeNameParams_accepts names) fun ps hps => ?_
  refine .bind (G := fun _ => True) (qualifiedType_accepts _ hp hn) (fun _ _ => trivial) ?_
  rintro _ ⟨i, rfl⟩
  refine .bind_taking_none (P := fun p => ∃ δ, p.form = Renumber.paramForm δ (qualifiedForm q n))
    ?_ fun p hp => hmore _ (hps.snoc hp)
  refine .bind_taking_none .recording fun _ _ => .bind_spanFrom fun _ =>
    .building fun _ => ⟨fun _ => i, ?_⟩
  simp [Arena.addParam, Arena.nextNode, qualifiedForm, Renumber.paramForm, Renumber.typeExpr,
    Renumber.typeForm]

/-- Types, before which any number of names have been read that turn out to
be types as well. -/
theorem types_accept (h : Joined (ParamText false) ts fs)
    (hdots : ∀ f ∈ fs.dropLast, f.dots = none) (hcs : Possibly .comma cs) :
    Always fun parse => ∀ names,
      (repeating leadingName (.undecided names) >>= afterLeading parse).Accepts (ts ++ cs)
        (· = .rParen) fun ps => SameParams ps.reverse (names.reverse.map nameForm ++ fs) := by
  induction h with
  | @one ts f hitem =>
    obtain ⟨n, hn, rfl, rfl⟩ | ⟨q, p, n, hq, hp, hn, rfl, rfl⟩ | ⟨u, us, rfl, hu⟩ :=
      hitem.type_cases
    · refine .of_forall fun parse names => .bind_last (leadingNames_end hn hcs) ?_
      rintro _ rfl
      refine .bind_taking_none (typeNameParams_accepts _) fun ps hps => ?_
      rw [List.reverse_cons, List.map_append] at hps
      exact .ifAt (fun _ h => h) (.pure hps)
    · refine .of_forall fun parse names => types_accept_dot hq hp hn fun ps hps => ?_
      refine .bind_last (moreParams_false hcs) ?_
      rintro _ rfl
      exact .pure hps
    · exact types_accept_other (.one hitem) hdots hcs fun k hk => (show k = u.kind from hk) ▸ hu
  | @more ts us c f fs hitem hc hjoined ih =>
    have hlater : ∀ f ∈ fs.dropLast, f.dots = none := fun f hf => by
      rw [List.dropLast_cons_of_ne_nil hjoined.ne_nil] at hdots
      exact hdots f (List.mem_cons_of_mem _ hf)
    obtain ⟨n, hn, rfl, rfl⟩ | ⟨q, p, n, hq, hp, hn, rfl, rfl⟩ | ⟨u, vs, rfl, hu⟩ :=
      hitem.type_cases
    · refine (ih hlater).imp fun parse hrest names => ?_
      have htokens : [n] ++ c :: us ++ cs = [n, c] ++ (us ++ cs) := rfl
      rw [htokens]
      refine .bind_repeating_again leadingName_advances (leadingName_comma hn hc)
        (fun k hk => hjoined.heads_params hk) ?_
      rintro _ rfl
      simpa using hrest (⟨n.text, n.span⟩ :: names)
    · refine (unnamedParams_accepts hjoined hlater hcs).imp fun parse hrest names => ?_
      refine types_accept_dot hq hp hn fun ps hps => ?_
      show Accepts _ ([c] ++ (us ++ cs)) _ _
      refine .bind (moreParams_true hc) (fun k hk => hjoined.heads_params hk) ?_
      rintro _ rfl
      rw [List.append_cons]
      exact hrest ps _ hps
    · exact types_accept_other (.more hitem hc hjoined) hdots hcs
        fun k hk => (show k = u.kind from hk) ▸ hu

-- ================================================================ groups

/-- A token that begins a type shows that the pending names are those of a
group. -/
theorem leadingNames_named {ns : List Token} {found : List Ident}
    (h : Joined (Derives .name) ns found) :
    ∀ names, (repeating leadingName (.undecided names)).Accepts ns
      (fun k => k ≠ .rParen ∧ k ≠ .comma ∧ k ≠ .dot) (· = .named (found.reverse ++ names)) := by
  induction h with
  | one hname =>
    obtain ⟨n, hn, rfl, rfl⟩ := hname.name_eq
    intro names
    refine .repeating_stop leadingName_advances (leadingName_accepts hn fun k hk => ?_)
    obtain ⟨hparen, hcomma, hdot⟩ := hk
    split
    · exact absurd rfl hcomma
    · exact absurd rfl hparen
    · exact absurd rfl hdot
    · exact .pure ⟨_, rfl, rfl⟩
  | @more _ us c _ found hname hc hjoined ih =>
    obtain ⟨n, hn, rfl, rfl⟩ := hname.name_eq
    intro names
    have htokens : [n] ++ c :: us = [n, c] ++ us := rfl
    rw [htokens]
    refine .repeating_again leadingName_advances (leadingName_comma hn hc) (fun k hk => ?_) ?_
    · rw [← List.append_nil us] at hk
      rw [hjoined.heads_names hk]
      decide
    · rintro _ rfl
      simpa using ih (⟨n.text, n.span⟩ :: names)

theorem commaSeparated_accepts {ns : List Token} {found : List Ident}
    (h : Joined (Derives .name) ns found) :
    (commaSeparated ident).Accepts ns (· ≠ .comma) (· = found) := by
  have hadvances : Advances (afterComma ident) :=
    afterComma_advances fun _ _ => ident_reads.imp fun _ _ _ _ => trivial
  obtain ⟨n, rest, rfl, hn, hrest⟩ : ∃ n rest, ns = n :: rest ∧ n.kind = .ident ∧
      ∀ items, (repeating (afterComma ident) (⟨n.text, n.span⟩ :: items)).Accepts rest
        (· ≠ .comma) (· = found.reverse ++ items) := by
    induction h with
    | one hname =>
      obtain ⟨n, hn, rfl, rfl⟩ := hname.name_eq
      refine ⟨n, [], rfl, hn, fun items => .repeating_stop hadvances ?_⟩
      exact .bind_eat_none (fun _ h => h) (.pure ⟨_, rfl, rfl⟩)
    | @more _ us c _ found hname hc _ ih =>
      obtain ⟨n, hn, rfl, rfl⟩ := hname.name_eq
      obtain ⟨m, rest, rfl, hm, hrest⟩ := ih
      refine ⟨n, c :: m :: rest, rfl, hn, fun items => ?_⟩
      have htokens : c :: m :: rest = [c, m] ++ rest := rfl
      rw [htokens]
      refine .repeating_again (G := fun _ => True) hadvances
        (I := (· = ⟨m.text, m.span⟩ :: ⟨n.text, n.span⟩ :: items)) (.bind_eat hc ?_)
        (fun _ _ => trivial) ?_
      · refine .bind_last (.ident hm) ?_
        rintro _ rfl
        exact .pure ⟨_, rfl, rfl⟩
      · rintro _ rfl
        simpa using hrest (⟨n.text, n.span⟩ :: items)
  refine .bind_first (.ident hn) ?_
  rintro _ rfl
  refine .bind_last (hrest []) ?_
  rintro _ rfl
  exact .pure (by simp)

/-- The type of a group, and the names of the next if there is one. -/
theorem namedParam_accepts {R : Turn (List Ident × List Param) → Prop}
    (h : ∀ start, (paramAfter parse names start >>= fun r =>
      if r.2 = true then do pure (.again (← commaSeparated ident, r.1 :: acc))
      else pure (.stop ([], r.1 :: acc))).Accepts ts F R) :
    (namedParam parse (names, acc)).Accepts ts F R := by
  cases names with
  | nil => exact .bind_here h
  | cons n names => exact .bind_pure (h n.span.start)

/-- Groups, the names of the first of which have been read, after parameters
that have been read. -/
theorem namedParams_accept (h : Joined (ParamText true) ts fs)
    (hdots : ∀ f ∈ fs.dropLast, f.dots = none) (hcs : Possibly .comma cs) :
    ∃ ns us f, ts = ns ++ us ∧ f ∈ fs.head? ∧ Joined (Derives .name) ns f.names ∧
      (∀ k, Heads (us ++ cs) (· = .rParen) k → k ≠ .rParen ∧ k ≠ .comma ∧ k ≠ .dot) ∧
      Always fun parse => ∀ acc gs, SameParams acc.reverse gs →
        (repeating (namedParam parse) (f.names, acc)).Accepts (us ++ cs) (· = .rParen) fun st =>
          SameParams st.2.reverse (gs ++ fs) := by
  have hsound : Always fun parse => parse.Sound := Filter.Eventually.of_forall parse_sound
  induction h with
  | one hitem =>
    cases hitem with
    | @group ns ds ts names dots t hnames hds ht =>
      refine ⟨ns, ds ++ ts, _, rfl, rfl, hnames, fun k hk => ht.heads_dots hds hk, ?_⟩
      refine (hsound.and ht.always).imp fun parse ⟨hsound, htype⟩ acc gs hacc => ?_
      refine .repeating_stop (namedParam_advances hsound) (namedParam_accepts fun _ => ?_)
      refine .bind_last (paramAfter_accepts_last ht htype hds hcs) fun ⟨p, more⟩ ⟨hp, hmore⟩ => ?_
      obtain rfl : more = false := hmore
      exact .pure ⟨_, rfl, hacc.snoc hp⟩
  | @more _ us c f fs hitem hc hjoined ih =>
    rw [List.dropLast_cons_of_ne_nil hjoined.ne_nil] at hdots
    obtain ⟨ms, us, g, rfl, hg, hms, hheads, hrest⟩ := ih fun f hf => hdots f (.tail _ hf)
    cases hitem with
    | @group ns ds ts names dots t hnames hds ht =>
      obtain ⟨rfl, rfl⟩ | ⟨_, _, _, rfl⟩ := hds.dots_cases
      · refine ⟨ns, ts ++ c :: (ms ++ us), _, by simp, rfl, hnames, fun k hk => ?_, ?_⟩
        · rw [List.append_assoc] at hk
          exact ht.heads_dots .absent hk
        refine (hsound.and (ht.always.and hrest)).imp
          fun parse ⟨hsound, htype, hrest⟩ acc gs hacc => ?_
        have htokens : ts ++ c :: (ms ++ us) ++ cs = (ts ++ [c]) ++ ms ++ (us ++ cs) := by simp
        rw [htokens, List.append_cons gs]
        refine .repeating_again (I := fun st => ∃ ps, st = (g.names, ps) ∧
          SameParams ps.reverse (gs ++ [⟨names, none, t⟩])) (namedParam_advances hsound)
          (namedParam_accepts fun _ => ?_) hheads ?_
        · refine .bind (paramAfter_accepts_more ht htype hc) (fun k hk => ?_)
            fun ⟨p, more⟩ ⟨hp, hmore⟩ => ?_
          · rw [← List.append_nil ms] at hk
            rw [hms.heads_names hk]
            decide
          · obtain rfl : more = true := hmore
            refine .bind_last ((commaSeparated_accepts hms).imp (fun k hk => hk.2.1)
              fun _ h => h) ?_
            rintro _ rfl
            exact .pure ⟨_, rfl, _, rfl, hacc.snoc hp⟩
        · rintro _ ⟨ps, rfl, hps⟩
          exact hrest ps _ hps
      · exact nomatch hdots _ List.mem_cons_self

-- ================================================================ lists

theorem params_accepts {named : Bool} (h : Joined (ParamText named) ts fs)
    (hdots : ∀ f ∈ fs.dropLast, f.dots = none) (hcs : Possibly .comma cs) :
    Always fun parse => (params parse).Accepts (ts ++ cs) (· = .rParen) fun ps =>
      SameParams ps.reverse fs := by
  cases named with
  | false =>
    refine (types_accept h hdots hcs).imp fun parse hrest => ?_
    rw [params_eq]
    exact hrest []
  | true =>
    obtain ⟨ns, us, f, rfl, -, hnames, hheads, hrest⟩ := namedParams_accept h hdots hcs
    refine hrest.imp fun parse hrest => ?_
    rw [params_eq, List.append_assoc]
    refine .bind (leadingNames_named hnames []) hheads ?_
    rintro _ rfl
    rw [List.append_nil]
    show (namedParams parse f.names.reverse.reverse).Accepts _ _ _
    rw [List.reverse_reverse]
    exact .bind_last (hrest [] [] .nil) fun st hst => .pure hst

/-- A list in parentheses, with or without a comma after the last
parameter, comes out as it is written. -/
theorem parameters_accept {named : Bool} {l r : Token} (h : Joined (ParamText named) ts fs)
    (hdots : ∀ f ∈ fs.dropLast, f.dots = none) (hcs : Possibly .comma cs)
    (hl : l.kind = .lParen) (hr : r.kind = .rParen) :
    ∃ least, ∀ depth ≥ least, ∀ s d, s.Fueled → s.cursor.Takes (l :: (ts ++ cs ++ [r])) d →
      ∃ ps s', Grammar.parse depth .parameters s = .ok ps s' ∧ s'.cursor = d ∧
        SameParams ps.params fs := by
  have halways : Always fun parse => ∀ s d, s.Fueled →
      s.cursor.Takes (l :: (ts ++ cs ++ [r])) d → ∃ ps s', parse .parameters s = .ok ps s' ∧
        s'.cursor = d ∧ SameParams ps.params fs := by
    refine (params_accepts h hdots hcs).deeper fun depth hparams s d hs hd => ?_
    let inner : Parsing := { s with trace := "Parameters" :: s.trace }
    obtain ⟨ps, s', hs', hcursor, hps⟩ : ∃ ps s', parameters (Grammar.parse depth) inner =
        .ok ps s' ∧ s'.cursor = d ∧ SameParams ps.params fs := by
      refine Accepts.unrestricted (s := inner) (F := fun _ => True) ?_ hs hd trivial
      refine .bind_expect hl (.ifNotAt (fun k hk => ?_) ?_)
      · rw [List.append_assoc] at hk
        exact h.heads_params hk
      refine .bind (P := (SameParams · fs)) (.map hparams) (fun k hk => Eq.trans hk hr)
        fun ps hps => ?_
      exact .bind_expect hr (.bind_taking_none .recording fun _ _ => .pure hps)
    refine ⟨ps, { s' with trace := s.trace }, ?_, hcursor, hps⟩
    show Grammar.parse (depth + 1) .parameters s = _
    rw [Grammar.parse_succ]
    show Parser.during "Parameters" (parameters (Grammar.parse depth)) s = _
    simp only [Parser.during]
    rw [show parameters (Grammar.parse depth) { s with trace := "Parameters" :: s.trace } =
      .ok ps s' from hs']
  obtain ⟨least, hleast⟩ := Filter.eventually_atTop.mp halways
  exact ⟨least, hleast⟩

end Grammar

end GoSource
