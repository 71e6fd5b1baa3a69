/-
Types, signatures and fields that the parser returns are derivable.

# Extents

Most nodes here reach from the first token read to the last. What is shown
of a part that finishes such a node speaks of all tokens of the node, also
of those taken before the part began: it holds for whatever passage the
node turns out to be (`Passes`), and the caller knows that passage.

# Parameters

While the beginning of a parameter list is undecided, all that is known of
it is that names with commas after them have been read. Whichever way it
is decided, the names fit: as types of parameters each of its own
(`typeNameParams_reads`), or as the names of the first group.
-/
import GoSource.Proofs.Derivation.Expression

namespace GoSource.Grammar

open GoSource.Parser

variable {m : Mode} {s : Parsing} {parse : SubParser}

-- ================================================================ names

theorem finishType_reads {start : Location} {form : TypeForm}
    {P : List Token → TypeExpr → Parsing → Prop}
    (h : ∀ i arena, P [] ⟨i, ⟨start, s.previousEnd⟩, form⟩ { s with arena }) :
    (finishType start form).Reads m s P :=
  .bind_spanFrom (.new (fun _ => ⟨_, rfl⟩) h)

/-- A name ends where the state after it says. -/
theorem name_ends {s' : Parsing} {ns : List Token} {n : Ident} (h : Derives .name ns n)
    (hpass : s.Passes ns s') : s'.previousEnd = n.span.stop := by
  cases h with
  | name => exact hpass.takes.previousEnd (by simp)

/-- A name that has just been read, and with a point after it another
one. -/
theorem qualifiedType_reads {first : Ident} {ns : List Token} (hfirst : Derives .name ns first)
    (hend : s.previousEnd = first.span.stop) :
    (qualifiedType first).Reads m s fun ts t s' =>
      Derives .typeName (ns ++ ts) t ∧ t.span = ⟨first.span.start, s'.previousEnd⟩ := by
  obtain ⟨t, rfl, hspan⟩ : ∃ t, ns = [t] ∧ first.span = t.span := by
    cases hfirst
    exact ⟨_, rfl, rfl⟩
  refine .passing (.bind_eat (by decide) (fun hd => ?_) fun _ => ?_)
  · refine .bind ident_reads fun ns n s₁ hn => .bind_pure ?_
    refine finishType_reads fun i _ hpass => ⟨?_, rfl⟩
    rw [List.append_nil] at hpass ⊢
    rw [hspan, hpass.extent_cons (by simp)]
    exact .qualifiedName hfirst hd hn
  · refine .bind_pure (finishType_reads fun i _ _ => ⟨?_, rfl⟩)
    rw [hend, hspan]
    exact .plainName hfirst

theorem typeName_reads : typeName.Reads m s fun ts t _ => Derives .typeName ts t := by
  refine .bind_passing ident_reads fun ns n s₁ hpass hn => ?_
  exact (qualifiedType_reads hn (name_ends hn hpass)).imp fun ts t s₂ h => h.1

-- ================================================================ types

variable (hp : parse.Sound)

include hp

/-- What follows an opening bracket. -/
theorem bracketType_reads {l : Token} (hl : l.kind = .lBrack) :
    (bracketType parse l.span.start).Reads m s fun ts t _ => Derives .type (l :: ts) t := by
  refine .passing (.bind_eat (by decide) (fun hr => ?_) fun _ => ?_)
  · refine .bind hp.type fun ts t s₁ ht => finishType_reads fun i _ hpass => ?_
    rw [List.append_nil] at hpass ⊢
    rw [hpass.extent_cons (by simp)]
    exact .sliceType hl hr ht
  · refine .joinEat (fun ts len _ => Derives .arrayLength ts len) (by decide)
      (fun hd => .pure (.dotsLength hd))
      (fun _ => .map ((Reads.inside (P := fun ts x => Derives (.expr .inside) ts x)
        fun _ => hp.anyExpression).imp fun _ _ _ => .exprLength))
      fun ns len s₁ hlen => .bind_expect (by decide) fun hr => ?_
    refine .bind hp.type fun ts t s₂ ht => finishType_reads fun i _ hpass => ?_
    rw [List.append_nil] at hpass ⊢
    rw [hpass.extent_cons (by simp)]
    exact .arrayType hl hlen hr ht

theorem type_reads : (type parse).Reads m s (Production.type.Meets m s) := by
  refine .passing (.bind_here (.bind_kind ?_))
  split
  · exact typeName_reads.imp fun ts t _ ht _ => .typeName ht
  · next hk =>
    refine .bind_advance (by rw [hk]; decide) ?_
    refine .bind (.inside fun _ => hp.type) fun ts t s₁ ht => ?_
    exact .bind_expect (by decide) fun hr => .pure fun _ => .parenType hk ht hr
  · next hk =>
    refine .bind_advance (by rw [hk]; decide) ?_
    exact (receiveChan_reads hp hk).imp fun ts t _ ht _ => ht.1
  · next hk =>
    refine .bind_advance (by rw [hk]; decide) ?_
    exact (bracketType_reads hp hk).imp fun ts t _ ht _ => ht
  · next hk =>
    refine .bind_advance (by rw [hk]; decide) (.bind hp.type fun ts t s₁ ht => ?_)
    refine finishType_reads fun i _ hpass => ?_
    rw [List.append_nil] at hpass ⊢
    rw [hpass.extent (by simp)]
    exact .pointerType hk ht
  · next hk =>
    refine .bind_advance (by rw [hk]; decide) (.bind_expect (by decide) fun hl => ?_)
    refine .bind (.inside fun _ => hp.type) fun ks key s₁ hkey => ?_
    refine .bind_expect (by decide) fun hr => .bind hp.type fun ts t s₂ ht => ?_
    refine finishType_reads fun i _ hpass => ?_
    rw [List.append_nil] at hpass ⊢
    rw [hpass.extent (by simp)]
    exact .mapType hk hl hkey hr ht
  · next hk =>
    refine .bind_advance (by rw [hk]; decide) ?_
    refine .joinEat (fun ds dir _ => ∀ i ts t, Derives .type ts t →
        Derives .type (s.current :: (ds ++ ts)) ⟨i, extent (s.current :: (ds ++ ts)), .chan dir t⟩)
      (by decide) (fun ha => .pure fun i ts t ht => .sendChan hk ha ht)
      (fun _ => .pure fun i ts t ht => .chanType hk ht) fun ds dir s₁ hdir => ?_
    refine .bind hp.type fun ts t s₂ ht => finishType_reads fun i _ hpass => ?_
    rw [List.append_nil] at hpass ⊢
    rw [hpass.extent (by simp)]
    exact hdir i ts t ht
  · next hk =>
    refine .bind_advance (by rw [hk]; decide) (.bind hp.signature fun ts sig s₁ hsig => ?_)
    refine finishType_reads fun i _ hpass => ?_
    rw [List.append_nil] at hpass ⊢
    rw [hpass.extent (by simp)]
    exact .funcType hk hsig
  · refine .bind (hp .structType m s trivial) fun _ fields s₁ h => ?_
    obtain ⟨w, l, ts, r, rfl, hw, hl, hr, hts⟩ := h
    refine finishType_reads fun i _ hpass => ?_
    rw [List.append_nil] at hpass ⊢
    rw [hpass.extent (by simp)]
    exact .structType hw hl hts hr
  · refine .bind (hp .interfaceType m s trivial) fun _ elements s₁ h => ?_
    obtain ⟨w, l, ts, r, rfl, hw, hl, hr, hts⟩ := h
    refine finishType_reads fun i _ hpass => ?_
    rw [List.append_nil] at hpass ⊢
    rw [hpass.extent (by simp)]
    exact .interfaceType hw hl hts hr
  · exact .unexpected

-- =========================================================== parameters

omit hp

/-- What has been read of a parameter list when it is known what the
beginning is. -/
def LeadingNames.Fits : LeadingNames → List Token → Parsing → Prop
  | .undecided names, ts, _ => Derives (.terminated .comma .name) ts names.reverse
  | .types names, ts, s =>
    Derives (.terminated .comma .name) ts names.reverse ∨
      Derives .names ts names.reverse ∧ s.current.kind = .rParen
  | .qualified names pkg, ts, s =>
    s.previousEnd = pkg.span.stop ∧ ∃ us vs, ts = us ++ vs ∧
      Derives (.terminated .comma .name) us names.reverse ∧ Derives .name vs pkg
  | .named names, ts, _ => Derives .names ts names.reverse

theorem leadingNames_reads :
    leadingNames.Reads m s fun ts found s' => found.Fits ts s' := by
  refine .repeating (I := fun ts found s' => found.Fits ts s') Derives.terminatedNil
    fun ts found s' hfits => ?_
  cases found with
  | undecided names =>
    refine .ifAt (fun hk => ?_) fun _ => .stop (.inl hfits)
    refine .bind_passing ident_reads fun ns n s₁ hpass hn => .bind_kind ?_
    have hnames : Derives .names (ts ++ ns) (n :: names).reverse := by
      rw [List.reverse_cons]
      exact .separated hfits hn
    split
    · next hc =>
      have hmore : Derives (.terminated .comma .name) (ts ++ (ns ++ [s₁.current]))
          (n :: names).reverse := by
        rw [List.reverse_cons]
        exact .terminatedSnoc hfits hn hc rfl
      refine .bind_advance (by rw [hc]; decide) (.ifAt (fun _ => .pure ?_) fun _ => .pure ?_)
      · exact .inl hmore
      · exact ⟨by simp, hmore⟩
    · next hr =>
      refine .pure (.inr ⟨?_, hr⟩)
      rwa [List.append_nil]
    · refine .pure ⟨name_ends hn hpass, ts, ns, ?_, hfits, hn⟩
      rw [List.append_nil]
    · refine .pure ?_
      rw [List.append_nil]
      exact hnames
  | types names => exact .stop hfits
  | qualified names pkg => exact .stop hfits
  | named names => exact .stop hfits

theorem finishParam_reads {names : List Ident} {dots : Option Span} {t : TypeExpr}
    {start : Location} {P : List Token → Param → Parsing → Prop}
    (h : ∀ i arena, P [] ⟨i, ⟨start, s.previousEnd⟩, ⟨names, dots, t⟩⟩ { s with arena }) :
    (finishParam names dots t start).Reads m s P :=
  .bind_recording fun _ => .bind_spanFrom (.new (fun _ => ⟨_, rfl⟩) h)

/-- A parameter that is nothing but a type. -/
theorem onlyType {ts : List Token} {t : TypeExpr} {i : Nat} (h : Derives .type ts t) :
    Derives (.param false) ts ⟨i, extent ts, ⟨[], none, t⟩⟩ :=
  .typeParam .absent h

/-- A parameter of which only the type is given, and that by a name. -/
def IsNamed (n : Ident) (p : Param) : Prop :=
  ∃ i j, p = ⟨i, n.span, ⟨[], none, ⟨j, n.span, .name none n⟩⟩⟩

theorem IsNamed.derives {n : Ident} {p : Param} (h : IsNamed n p) {ts : List Token}
    (hn : Derives .name ts n) : Derives (.param false) ts p := by
  obtain ⟨i, j, rfl⟩ := h
  have htype := Derives.typeName (.plainName (i := j) hn)
  cases hn
  exact onlyType htype

theorem IsNamed.dots {n : Ident} {p : Param} (h : IsNamed n p) : p.form.dots = none := by
  obtain ⟨i, j, rfl⟩ := h
  rfl

theorem typeNameParams_reads {names : List Ident} {P : List Token → List Param → Parsing → Prop}
    (h : ∀ ps arena, List.Forall₂ IsNamed names ps → P [] ps { s with arena }) :
    (typeNameParams names).Reads m s P := by
  unfold typeNameParams
  induction names generalizing P with
  | nil => exact .pure (h [] s.arena .nil)
  | cons n names ih =>
    rw [List.foldrM_cons]
    refine .bind (P := fun ts ps s' => ts = [] ∧ List.Forall₂ IsNamed names ps ∧
      ∃ arena, s' = { s with arena }) (ih fun ps arena hps => ⟨rfl, hps, arena, rfl⟩) ?_
    rintro _ ps _ ⟨rfl, hps, arena, rfl⟩
    refine .bind_new (fun _ => ⟨_, rfl⟩) fun j _ => .bind_new (fun _ => ⟨_, rfl⟩) fun i _ => ?_
    exact .pure (h _ _ (.cons ⟨i, j, rfl⟩ hps))

/-- Whether the list goes on is whether there was a comma, except before
the closing parenthesis. -/
theorem moreParams_reads : moreParams.Reads m s fun ts more _ =>
    (more = true → ∃ c : Token, c.kind = .comma ∧ ts = [c]) ∧ Possibly .comma ts := by
  refine .bind_eat (by decide) (fun hc => ?_) fun _ => .pure ⟨nofun, .inl rfl⟩
  refine .bind_isAt (fun _ => .pure ⟨nofun, .inr ⟨_, hc, rfl⟩⟩) fun _ => .pure ⟨fun _ => ?_, ?_⟩
  · exact ⟨_, hc, rfl⟩
  · exact .inr ⟨_, hc, rfl⟩

/-- Parameters so far, the latest first, each with a comma after it and
none of them variadic. -/
def Ongoing (named : Bool) (ts : List Token) (ps : List Param) : Prop :=
  Derives (.terminated .comma (.param named)) ts ps.reverse ∧ ∀ p ∈ ps, p.form.dots = none

theorem Ongoing.finish {named : Bool} {ts us cs : List Token} {p : Param} {ps : List Param}
    (h : Ongoing named ts ps) (hp : Derives (.param named) us p) (hcs : Possibly .comma cs) :
    Derives .params (ts ++ (us ++ cs)) (p :: ps).reverse := by
  rw [List.reverse_cons]
  refine .params (h.1.listed_snoc hp hcs rfl) fun q hq => h.2 q ?_
  rwa [List.dropLast_concat, List.mem_reverse] at hq

theorem Ongoing.goOn {named : Bool} {ts us : List Token} {c : Token} {p : Param} {ps : List Param}
    (h : Ongoing named ts ps) (hp : Derives (.param named) us p) (hdots : p.form.dots = none)
    (hc : c.kind = .comma) : Ongoing named (ts ++ (us ++ [c])) (p :: ps) := by
  refine ⟨?_, fun q hq => ?_⟩
  · rw [List.reverse_cons]
    exact .terminatedSnoc h.1 hp hc rfl
  · obtain rfl | hq := List.mem_cons.mp hq
    · exact hdots
    · exact h.2 q hq

theorem Ongoing.params {named : Bool} {ts : List Token} {ps : List Param}
    (h : Ongoing named ts ps) : Derives .params ts ps.reverse :=
  .params (.listedClosed h.1) fun p hp =>
    h.2 p (List.mem_reverse.mp (List.dropLast_subset _ hp))

/-- Names that turned out to be types. -/
theorem ongoing_of_names {names : List Ident} {ps : List Param}
    (hps : List.Forall₂ IsNamed names ps) {ts : List Token}
    (h : Derives (.terminated .comma .name) ts names.reverse) : Ongoing false ts ps := by
  refine ⟨h.terminated_imp (fun ts n p hp hn => hp.derives hn) hps, fun p hp => ?_⟩
  obtain ⟨i, hi, rfl⟩ := List.getElem_of_mem hp
  exact (hps.get (hps.length_eq ▸ hi) hi).dots

include hp

/-- A parameter whose names, if it has any, were read from `ns`, and the
comma after it. -/
theorem paramAfter_reads (named : Bool) (ns : List Token) {names : List Ident} {start : Location}
    (hparam : ∀ ds dots ts t stop i, Derives (.optional (.mark .ellipsis)) ds dots →
      Derives .type ts t → (⟨s.current.span.start, stop⟩ : Span) = extent (ds ++ ts) →
      Derives (.param named) (ns ++ (ds ++ ts)) ⟨i, ⟨start, stop⟩, ⟨names, dots, t⟩⟩) :
    (paramAfter parse names start).Reads m s fun us r _ => ∃ ts cs, us = ts ++ cs ∧
      Derives (.param named) (ns ++ ts) r.1 ∧ Possibly .comma cs ∧
      (r.2 = true → r.1.form.dots = none ∧ ∃ c : Token, c.kind = .comma ∧ cs = [c]) := by
  refine .bind_passing (eat_reads (by decide) rfl) fun ds dots s₁ hpass₁ hdots => ?_
  refine .bind_passing hp.type fun ts t s₂ hpass₂ ht => ?_
  refine .bind (P := fun us p _ => us = [] ∧ p.form.dots = dots ∧
    Derives (.param named) (ns ++ (ds ++ ts)) p) (finishParam_reads fun i _ => ⟨rfl, rfl, ?_⟩) ?_
  · exact hparam ds dots ts t _ i hdots ht ((hpass₁.trans hpass₂).extent (by simp [ht.ne_nil rfl]))
  rintro _ p s₃ ⟨rfl, hpdots, hderives⟩
  split
  · refine .bind (eat_possibly (by decide)) fun cs _ s₄ hcs =>
      .pure ⟨ds ++ ts, cs, ?_, hderives, hcs, nofun⟩
    simp only [List.append_assoc, List.nil_append, List.append_nil]
  · next hnone =>
    refine .bind moreParams_reads fun cs more s₄ ⟨hmore, hcs⟩ => ?_
    refine .pure ⟨ds ++ ts, cs, ?_, hderives, hcs, fun hgo => ⟨?_, hmore hgo⟩⟩
    · simp only [List.append_assoc, List.nil_append, List.append_nil]
    · rw [hpdots]
      simpa using hnone

theorem unnamedParams_reads {ts : List Token} {ps : List Param} (hps : Ongoing false ts ps) :
    (unnamedParams parse ps).Reads m s fun us qs _ => Derives .params (ts ++ us) qs.reverse := by
  refine .repeating (I := fun us qs _ => Ongoing false (ts ++ us) qs) (by rwa [List.append_nil])
    fun us qs s' hqs => .bind_here ?_
  refine .bind (paramAfter_reads hp false []
    fun ds dots vs t stop i hdots ht hspan => ?_) fun vs r s₁ hr => ?_
  · rw [hspan, List.nil_append]
    exact .typeParam hdots ht
  obtain ⟨p, more⟩ := r
  obtain ⟨ws, cs, rfl, hparam, hcs, hmore⟩ := hr
  show (if more = true then _ else _ : Parser (Turn (List Param))).Reads m s₁ _
  split
  · next hgo =>
    obtain ⟨hdots, c, hc, rfl⟩ := hmore hgo
    have := hqs.goOn hparam hdots hc
    refine .pure ⟨by simp, ?_⟩
    simpa only [List.append_assoc, List.nil_append, List.append_nil] using this
  · refine .pure ?_
    have := hqs.finish hparam hcs
    simpa only [Reads.TurnKeeps, List.append_assoc, List.nil_append, List.append_nil] using this

omit hp in
/-- A list of names starts with the first of them. -/
theorem names_head {ts : List Token} {names : List Ident} (h : Derives .names ts names) :
    ∃ t us rest, ts = t :: us ∧ t.kind = .ident ∧ names = ⟨t.text, t.span⟩ :: rest := by
  obtain ⟨us, ns, vs, n, rfl, rfl, hus, hn⟩ := h.separated_cases
  clear h
  -- The names before the last are looked at from the last one back.
  obtain ⟨rs, rfl⟩ : ∃ rs : List Ident, ns = rs.reverse := ⟨ns.reverse, by simp⟩
  induction rs generalizing us vs n with
  | nil =>
    obtain ⟨rfl, -⟩ | ⟨_, _, _, _, _, -, has, -⟩ := hus.terminated_cases
    · cases hn with
      | name hk => exact ⟨_, [], [], rfl, hk, rfl⟩
    · simp at has
  | cons r rs ih =>
    obtain ⟨-, has⟩ | ⟨us, as, ws, a, c, rfl, has, h, ha, hc, -⟩ := hus.terminated_cases
    · simp at has
    · rw [List.reverse_cons] at has ⊢
      obtain ⟨rfl, hlast⟩ := List.append_inj' has rfl
      obtain rfl : r = a := by simpa using hlast
      obtain ⟨t, xs, rest, hxs, hk, hrest⟩ := ih us ws r ha h
      refine ⟨t, xs ++ (c :: vs), rest ++ [n], ?_, hk, by rw [hrest]; rfl⟩
      rw [← List.append_assoc, hxs]
      simp

omit hp in
/-- A list of names starts where the first of them does. -/
theorem names_start {ts : List Token} {names : List Ident} (h : Derives .names ts names) :
    ∃ n rest, names = n :: rest ∧ n.span.start = (extent ts).start := by
  obtain ⟨t, us, rest, rfl, -, rfl⟩ := names_head h
  exact ⟨_, rest, rfl, rfl⟩

theorem namedParams_reads {ns : List Token} {names : List Ident}
    (hnames : Derives .names ns names) :
    (namedParams parse names).Reads m s fun us qs _ => Derives .params (ns ++ us) qs.reverse := by
  refine .bind (P := fun us st _ => Derives .params (ns ++ us) st.2.reverse)
    (.repeating (I := fun us st _ => ∃ ts ms, ns ++ us = ts ++ ms ∧ Ongoing true ts st.2 ∧
      Derives .names ms st.1) ?_ ?_) fun us st _ h => .pure ?_
  · exact ⟨[], ns, by simp, ⟨.terminatedNil, by simp⟩, hnames⟩
  · rintro us ⟨names, ps⟩ s' ⟨ts, ms, heq, hps, hnames⟩
    obtain ⟨n, rest, hcons, hstart⟩ := names_start hnames
    obtain rfl : names = n :: rest := hcons
    refine .bind_pure (.bind (paramAfter_reads hp true ms
      fun ds dots vs t stop i hdots ht hspan => ?_) fun vs r s₁ hr => ?_)
    · have hwhole : (⟨n.span.start, stop⟩ : Span) = extent (ms ++ (ds ++ vs)) := by
        rw [extent_append (hnames.ne_nil rfl) (by simp [ht.ne_nil rfl]), ← hspan, hstart]
        rfl
      rw [hwhole]
      exact .namedParam hnames hdots ht
    obtain ⟨p, more⟩ := r
    obtain ⟨ws, cs, rfl, hparam, hcs, hmore⟩ := hr
    show (if more = true then _ else _ : Parser (Turn (List Ident × List Param))).Reads m s₁ _
    split
    · next hgo =>
      obtain ⟨hdots, c, hc, rfl⟩ := hmore hgo
      refine .bind (commaSeparated_reads (p := .name) (L := fun _ _ => True)
        fun s => ident_reads.imp fun _ _ _ h => ⟨h, trivial⟩) fun ms' names' s₅ hnames' => ?_
      refine .pure ⟨by simp, _, ms', ?_, hps.goOn hparam hdots hc, hnames'.1⟩
      simp only [← List.append_assoc, heq, List.append_nil]
    · refine .pure ?_
      have := hps.finish hparam hcs
      simpa only [Reads.TurnKeeps, ← List.append_assoc, heq, List.append_nil] using this
  · rwa [List.append_nil]

theorem params_reads : (params parse).Reads m s fun ts ps _ => Derives .params ts ps.reverse := by
  have types : ∀ {names ts s'}, LeadingNames.Fits (.types names) ts s' →
      (typeNameParams names >>= fun ps => isAt .rParen >>= fun atEnd =>
        if atEnd = true then pure ps else unnamedParams parse ps).Reads m s'
        fun us ps _ => Derives .params (ts ++ us) ps.reverse := by
    intro names ts s' hfits
    refine .bind (P := fun us ps s₁ => us = [] ∧ List.Forall₂ IsNamed names ps ∧
      s₁.current = s'.current) (typeNameParams_reads fun ps _ hps => ⟨rfl, hps, rfl⟩) ?_
    rintro _ ps s₁ ⟨rfl, hps, hcurrent⟩
    obtain hnames | ⟨hnames, hparen⟩ := hfits
    · have hon := ongoing_of_names hps hnames
      refine .ifAt (fun _ => .pure ?_) fun _ => unnamedParams_reads hp hon
      simpa only [List.append_nil] using hon.params
    · refine .ifAt (fun _ => .pure ?_) fun hno => absurd (hcurrent ▸ hparen) hno
      rw [List.append_nil]
      have hlist : Derives (.separated .comma (.param false)) ts ps.reverse :=
        hnames.separated_imp (fun _ _ _ h hn => IsNamed.derives h hn) hps
      rw [List.append_nil]
      refine .params (.listedOpen hlist) fun p hp => ?_
      obtain ⟨i, hi, rfl⟩ := List.getElem_of_mem
        (List.mem_reverse.mp (List.dropLast_subset _ hp))
      exact (hps.get (hps.length_eq ▸ hi) hi).dots
  refine .bind leadingNames_reads fun ts found s₁ hfits => ?_
  cases found with
  | named names => exact namedParams_reads hp hfits
  | qualified names pkg =>
    obtain ⟨hend, us, vs, rfl, hnames, hpkg⟩ := hfits
    refine .bind (P := fun ts ps s' => ts = [] ∧ List.Forall₂ IsNamed names ps ∧
      s'.previousEnd = s₁.previousEnd) (typeNameParams_reads fun ps _ hps => ⟨rfl, hps, rfl⟩) ?_
    rintro _ ps s₂ ⟨rfl, hps, hstop⟩
    have hon := ongoing_of_names hps hnames
    refine .bind (qualifiedType_reads hpkg (hstop.trans hend)) fun ts t s₃ ⟨ht, hspan⟩ => ?_
    refine .bind (P := fun ws p _ => ws = [] ∧ p.form.dots = none ∧
      Derives (.param false) (vs ++ ts) p) (finishParam_reads fun i _ => ⟨rfl, rfl, ?_⟩) ?_
    · rw [← hspan, ht.typeName_span]
      exact onlyType (.typeName ht)
    rintro _ p s₄ ⟨rfl, hdots, hparam⟩
    refine .bind moreParams_reads fun cs more s₅ ⟨hmore, hcs⟩ => ?_
    split
    · next hgo =>
      obtain ⟨c, hc, rfl⟩ := hmore hgo
      refine (unnamedParams_reads hp (hon.goOn hparam hdots hc)).imp fun ts qs _ hqs => ?_
      simpa only [List.append_assoc, List.nil_append] using hqs
    · refine .pure ?_
      simpa only [List.append_assoc, List.nil_append, List.append_nil] using hon.finish hparam hcs
  | types names => exact types hfits
  | undecided names => exact types (.inl hfits)

theorem parameters_reads :
    (parameters parse).Reads m s (Production.parameters.Meets m s) := by
  refine .inside fun s => .bind_expect (by decide) fun hl => ?_
  refine .joinAt (fun ts ps _ => Derives .params ts ps)
    (fun _ => .pure (.params (.listedClosed
      (.terminatedNil : Derives (.terminated .comma (.param true)) [] [])) (by simp)))
    (fun _ => .map (params_reads hp)) fun ts ps s₁ hps => ?_
  refine .bind_expect (by decide) fun hr => .bind_recording fun _ => .pure ?_
  rw [← extent_bracketed]
  exact .parameters hl hps hr

theorem signature_reads : (signature parse).Reads m s (Production.signature.Meets m s) := by
  refine .bind_passing hp.parameters fun ps params s₁ hpass₁ hparams => ?_
  have finish : ∀ {rs result s₂}, s₁.Passes rs s₂ → Derives (.optional .result) rs result →
      (spanFrom params.span.start >>= fun sp => pure (⟨params, result, sp⟩ : Signature)).Reads m s₂
        fun ts sig _ => Derives .signature (ps ++ (rs ++ ts)) sig := by
    intro rs result s₂ hpass₂ hresult
    refine .bind_spanFrom (.pure ?_)
    have hspan := (hpass₁.trans hpass₂).extent (by simp [hparams.ne_nil rfl])
    have hstart := hpass₁.extent (hparams.ne_nil rfl)
    rw [hparams.parameters_span, ← hstart, hspan, List.append_nil]
    exact .signature hparams hresult
  have read : ∀ {p : Parser (Option FuncResult)}, p.Reads m s₁ (fun ts r _ =>
      Derives (.optional .result) ts r) → (p >>= fun result =>
        spanFrom params.span.start >>= fun sp => pure (⟨params, result, sp⟩ : Signature)).Reads m s₁
          fun ts sig _ => Derives .signature (ps ++ ts) sig :=
    fun hr => .bind_passing hr fun _ _ _ => finish
  refine .ifAt (fun _ => read (.map (.map (hp.parameters.imp ?_)))) fun _ => ?_
  · exact fun _ _ _ h => .present (.paramsResult h)
  · split
    · exact read (.map (.map (hp.type.imp fun _ _ _ h => .present (.typeResult h))))
    · exact read (.pure .absent)

-- =============================================== structs and interfaces

omit hp in
/-- A string literal has a string as its value. -/
theorem decode_string {k : Token.Kind} {text : String} {v : Literal}
    (hk : k = .stringLit ∨ k = .rawStringLit) (h : Literal.decode k text = some v) :
    ∃ bytes, v = .string bytes := by
  obtain rfl | rfl := hk <;>
    · obtain ⟨bytes, -, rfl⟩ := Option.map_eq_some_iff.mp h
      exact ⟨bytes, rfl⟩

omit hp in
theorem tag_reads (hk : s.current.kind = .stringLit ∨ s.current.kind = .rawStringLit) :
    literal.Reads m s fun ts lit _ => Derives .tag ts lit := by
  refine .bind (P := fun ts r _ => ∀ i, Derives .tag ts ⟨i, r.2, r.1⟩)
    (literalValue_reads fun v hv i => ?_) fun ts r s' h => ?_
  · obtain ⟨bytes, rfl⟩ := decode_string hk hv
    exact .tag hv
  · refine .new (fun _ => ⟨_, rfl⟩) fun i _ => ?_
    rw [List.append_nil]
    exact h i

theorem structType_reads :
    (structType parse).Reads m s (Production.structType.Meets m s) := by
  refine .bind_expect (by decide) fun hw => .bind_expect (by decide) fun hl => ?_
  refine .bind (.inside fun _ => items_reads (p := .field) (by decide) rfl fun s =>
    hp .fieldDecl .inside s trivial) fun fs fields s₁ hfs => ?_
  refine .bind_expect (by decide) fun hr => .bind_recording fun _ => .pure ?_
  exact ⟨_, _, fs, _, rfl, hw, hl, hr, hfs⟩

/-- Names and a type, or the type of an embedded field, are a field with
any tag. -/
theorem fieldParts_reads : (fieldParts parse).Reads m s fun ts parts _ =>
    ∀ {gs tag i}, Derives (.optional .tag) gs tag →
      Derives .field (ts ++ gs) ⟨i, extent (ts ++ gs), ⟨parts.1, parts.2, tag⟩⟩ := by
  refine .passing (.bind_here (.bind_kind ?_))
  split
  · next hk =>
    refine .bind_advance (by rw [hk]; decide) (.bind typeName_reads fun ts t s₁ ht => ?_)
    refine .bind (P := fun us t s' => s.Passes (s.current :: (ts ++ us)) s' →
      Derives .embedded (s.current :: (ts ++ us)) t) (finishType_reads fun i _ hpass => ?_)
      fun us t s' h => .pure fun hpass gs tag i hgs => ?_
    · rw [List.append_nil] at hpass ⊢
      rw [hpass.extent (by simp)]
      exact .embeddedPointer hk ht
    · rw [List.append_nil] at hpass ⊢
      exact .embeddedField (h hpass) hgs
  · refine .bind_passing ident_reads fun ns n s₁ hpass hn => .bind_kind ?_
    have embedded : (qualifiedType n >>= fun t => pure (([] : List Ident), t)).Reads m s₁
        fun us parts s' => s.Passes (ns ++ us) s' → ∀ {gs tag i}, Derives (.optional .tag) gs tag →
          Derives .field (ns ++ us ++ gs)
            ⟨i, extent (ns ++ us ++ gs), ⟨parts.1, parts.2, tag⟩⟩ := by
      refine .bind (qualifiedType_reads hn (name_ends hn hpass)) fun us t s₂ ht => ?_
      refine .pure fun _ gs tag i hgs => ?_
      rw [List.append_nil]
      exact .embeddedField (.embeddedName ht.1) hgs
    split
    iterate 5 exact embedded
    · refine .bind (afterCommas_reads (p := .name) (L := fun _ _ => True) hn trivial
        fun _ => ident_reads.imp fun _ _ _ h => ⟨h, trivial⟩) fun us names s₂ hnames => ?_
      refine .bind hp.type fun ts t s₃ ht => .bind_recording fun _ => .pure fun _ gs tag i hgs => ?_
      have hfield := Derives.namedField (i := i) hnames.1 ht hgs
      simpa only [List.append_assoc, List.append_nil] using hfield
  · exact .unexpected

theorem fieldDecl_reads : (fieldDecl parse).Reads m s (Production.fieldDecl.Meets m s) := by
  refine .passing (.bind_here (.bind (fieldParts_reads hp) fun ts parts s₁ hparts => ?_))
  have finish : ∀ {gs tag s₂}, Derives (.optional .tag) gs tag →
      (spanFrom s.current.span.start >>= newField ⟨parts.1, parts.2, tag⟩).Reads m s₂
        fun us f s' => s.Passes (ts ++ (gs ++ us)) s' → Derives .field (ts ++ (gs ++ us)) f := by
    intro gs tag s₂ hgs
    refine .bind_spanFrom (.new (fun _ => ⟨_, rfl⟩) fun i _ hpass => ?_)
    rw [List.append_nil] at hpass ⊢
    have hfield := hparts (i := i) hgs
    rw [hpass.extent (hfield.ne_nil rfl)]
    exact hfield
  refine .bind_kind ?_
  split
  · next hk => exact .bind_map (tag_reads (.inl hk)) fun gs tag s₂ hg => finish (.present hg)
  · next hk => exact .bind_map (tag_reads (.inr hk)) fun gs tag s₂ hg => finish (.present hg)
  · exact .bind_pure (finish .absent)

theorem interfaceElement_reads :
    (interfaceElement parse).Reads m s fun ts e _ => Derives .interfaceElement ts e := by
  refine .bind_passing ident_reads fun ns n s₁ hpass hn => .ifAt (fun _ => ?_) fun _ => ?_
  · refine .bind hp.signature fun ts sig s₂ hsig => .pure ?_
    rw [List.append_nil]
    exact .methodElement hn hsig
  · refine .bind (qualifiedType_reads hn (name_ends hn hpass)) fun ts t s₂ ht => .pure ?_
    rw [List.append_nil]
    exact .embeddedElement ht.1

theorem interfaceType_reads :
    (interfaceType parse).Reads m s (Production.interfaceType.Meets m s) := by
  refine .bind_expect (by decide) fun hw => .bind_expect (by decide) fun hl => ?_
  refine .bind (.inside fun _ => items_reads (p := .interfaceElement) (by decide) rfl fun _ =>
    interfaceElement_reads hp) fun es elements s₁ hes => ?_
  refine .bind_expect (by decide) fun hr => .bind_recording fun _ => .pure ?_
  exact ⟨_, _, es, _, rfl, hw, hl, hr, hes⟩

end GoSource.Grammar
