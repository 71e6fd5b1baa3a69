/-
Expressions that the parser returns are derivable.

`SubParser.Sound` is what a way to parse further productions has to
fulfil: of each production it returns what `Production.Meets` says. The
bodies of the productions are then looked at one by one, under the
hypothesis that everything they call is sound; how that hypothesis is
discharged, by induction over the limit on nesting, is not their business.

# Before a brace

An expression is finished when what follows cannot be attached to it. For
a brace this depends on the expression and on whether a header is being
read; `Settled` records it, because in a header the brace that follows is
that of the body.

# Once

Where a mode allows `x.(type)`, it may be derived any number of times. The
parser reads it once: from then on it is acceptable no longer. So where it
still is acceptable, what has been read is derivable without it
(`Spared`), and what it is attached to holds no other (`Lone`).
-/
import GoSource.Proofs.Derivation
import GoSource.Proofs.Parsing.Reads

namespace GoSource

open GoSource.Parser

-- =============================================================== guards

/-- A guard is read in a mode that allows it. -/
def Phrase.Guarded : (p : Phrase) → p.Result → Prop
  | .expr m, x => Grammar.isGuard x = true → m.guard = true
  | _, _ => True

theorem Derives.guarded {p : Phrase} {ts : List Token} {a : p.Result} (h : Derives p ts a) :
    p.Guarded a := by
  induction h with
  | typeGuard hguard => exact fun _ => hguard
  | parenExpr _ _ _ ih => exact fun hx => nomatch ih hx
  | identExpr | literalExpr | typeExpr | selector | typeAssert | index | slice | fullSlice | call
  | composite | unary | binary => exact nofun
  | _ => trivial

/-- The same mode with guards allowed or not. -/
def Mode.guarded (m : Mode) (guard : Bool) : Mode := { m with guard }

/-- What a guard is attached to is read without guards. -/
def Lone (m : Mode) (x : Expr) : Prop :=
  ∀ y r, x.form = .typeAssert y none r → ∃ ys, Derives (.expr (m.guarded false)) ys y

/-- The expression has been read; without a guard, if one is acceptable
behind it. -/
def Spared (m : Mode) (ts : List Token) (x : Expr) (s : Parsing) : Prop :=
  ∀ g, g = m.guard ∨ s.guardAllowed = true → Derives (.expr (m.guarded g)) ts x

theorem Lone.of_isGuard {m : Mode} {x : Expr} (h : Grammar.isGuard x = false) : Lone m x := by
  intro y r hx
  rw [Grammar.isGuard, hx] at h
  exact nomatch h

namespace Spared

variable {m : Mode} {s s' : Parsing} {ts us vs : List Token} {x y : Expr}

theorem derives (h : Spared m ts x s) : Derives (.expr m) ts x := h m.guard (.inl rfl)

/-- What can be read in any mode is no guard. -/
theorem of_any (h : ∀ m, Derives (.expr m) ts x) : Spared m ts x s ∧ Lone m x :=
  ⟨fun _ _ => h _, .of_isGuard (Bool.eq_false_iff.mpr fun hx => nomatch (h .inside).guarded hx)⟩

/-- The passage to what is attached allows no guard that was not allowed
before. -/
theorem attach (h : Spared m ts x s) (hpass : s.Passes vs s')
    (hd : ∀ g, Derives (.expr (m.guarded g)) ts x → Derives (.expr (m.guarded g)) us y) :
    Spared m us y s' :=
  fun g hg => hd g (h g (hg.imp_right hpass.guard))

end Spared

/-- What is known of an expression that is finished: a brace that follows
is not attached to it. -/
def Settled (m : Mode) (x : Expr) (s : Parsing) : Prop :=
  (s.current.kind = .lBrace → Grammar.opensComposite m.inHeader x = false) ∧ Lone m x

/-- The same of what a list or a statement ends with. -/
def SettledLast (m : Mode) (x : Option Expr) (s : Parsing) : Prop :=
  ∀ y ∈ x, Settled m y s

-- ========================================================== productions

/-- A group is parsed where its keyword stands, a file outside of
everything, other productions anywhere. A guard is no part of anything: it
reads to the end of the input. -/
def Production.Startable {α : Type} : Production α → Mode → Parsing → Prop
  | .group k, _, s => s.current.kind = k.keyword
  | .file, m, _ => m = .inside
  | .typeSwitchGuard, _, _ => False
  | _, _, _ => True

/-- What a production returns, and what tokens it has read. Productions
that continue something return what is read from both together. Operands
and what stands in brackets are read alike in all modes. -/
def Production.Meets (m : Mode) (s : Parsing) {α : Type} :
    Production α → List Token → α → Parsing → Prop
  | .expression, ts, x, s' | .unaryExpr, ts, x, s' | .primaryExpr, ts, x, s' =>
    Spared m ts x s' ∧ Settled m x s'
  | .operand, ts, x, _ => ∀ m, Derives (.expr m) ts x
  | .indexOrSlice x, ts, y, _ | .call x, ts, y, _ =>
    ts ≠ [] ∧ Grammar.isGuard y = false ∧
      ∀ m xs, Derives (.expr m) xs x → Derives (.expr m) (xs ++ ts) y
  | .compositeLit t start, ts, x, _ =>
    ∃ i l es r elements, l.kind = .lBrace ∧ r.kind = .rBrace ∧ ts = l :: (es ++ [r]) ∧
      l = s.current ∧ Derives (.listed .comma .element) es elements ∧
      x = ⟨i, ⟨start, r.span.stop⟩, .composite t elements l.span r.span⟩
  | .type, ts, t, _ => Derives .type ts t
  | .signature, ts, sig, _ => Derives .signature ts sig
  | .parameters, ts, params, _ => Derives .parameters ts params
  | .structType, ts, fields, _ =>
    ∃ w l fs r, ts = w :: l :: (fs ++ [r]) ∧ w.kind = .kwStruct ∧ l.kind = .lBrace ∧
      r.kind = .rBrace ∧ Derives (.listed .semi .field) fs fields
  | .fieldDecl, ts, field, _ => Derives .field ts field
  | .interfaceType, ts, elements, _ =>
    ∃ w l es r, ts = w :: l :: (es ++ [r]) ∧ w.kind = .kwInterface ∧ l.kind = .lBrace ∧
      r.kind = .rBrace ∧ Derives (.listed .semi .interfaceElement) es elements
  | .block, ts, b, _ => Derives .block ts b
  | .statement, ts, stmt, _ =>
    Derives (.stmt m) ts stmt ∨
      (s.current.kind = .semi ∨ s.current.kind = .rBrace ∨ s.current.kind = .eof) ∧
        ts = [] ∧ ∃ i, stmt = ⟨i, .point s.previousEnd, .empty⟩
  | .simpleStmt sm, ts, d, s' =>
    Derives (.simple sm m) ts d ∧ SettledLast m d.form.last s'
  | .ifStmt, ts, stmt, _ => Derives (.ifStmt m) ts stmt
  | .forStmt, ts, form, _ => Derives (.forStmt m) ts form
  | .group k, ts, ds, _ => Derives (.group k m) ts ds
  | .functionDecl, ts, d, _ => Derives .function ts d
  | .importDecl, ts, d, _ => Derives .importDecl ts d
  | .file, ts, f, s' => Derives .file ts f ∧ s'.current.kind = .eof
  | .typeSwitchGuard, _, _, _ => True

/-- Further productions return what they are to return. -/
def SubParser.Sound (parse : SubParser) : Prop :=
  ∀ {α : Type} (p : Production α) (m : Mode) (s : Parsing), p.Startable m s →
    (parse p).Reads m s (p.Meets m s)

namespace SubParser.Sound

variable {parse : SubParser} (hp : parse.Sound) {m : Mode} {s : Parsing}

include hp

theorem expression : (parse .expression).Reads m s fun ts x s' =>
    Derives (.expr m) ts x ∧ Settled m x s' :=
  (hp .expression m s trivial).imp fun _ _ _ h => ⟨h.1.derives, h.2⟩

theorem type : (parse .type).Reads m s fun ts t _ => Derives .type ts t :=
  hp .type m s trivial

theorem signature : (parse .signature).Reads m s fun ts sig _ => Derives .signature ts sig :=
  hp .signature m s trivial

theorem parameters : (parse .parameters).Reads m s fun ts ps _ => Derives .parameters ts ps :=
  hp .parameters m s trivial

theorem block : (parse .block).Reads m s fun ts b _ => Derives .block ts b :=
  hp .block m s trivial

theorem simpleStmt {sm : SimpleMode} : (parse (.simpleStmt sm)).Reads m s fun ts d s' =>
    Derives (.simple sm m) ts d ∧ SettledLast m d.form.last s' := hp (.simpleStmt sm) m s trivial

theorem group {k : GroupKind} (hk : s.current.kind = k.keyword) :
    (parse (.group k)).Reads m s fun ts ds _ => Derives (.group k m) ts ds :=
  hp (.group k) m s hk

/-- Without what is known of the token after it. -/
theorem anyExpression : (parse .expression).Reads m s fun ts x _ => Derives (.expr m) ts x :=
  (expression hp).imp fun _ _ _ h => h.1

end SubParser.Sound

namespace Parser

variable {m : Mode} {s : Parsing}

-- ======================================================== names, literals

theorem ident_reads : ident.Reads m s fun ts n _ => Derives .name ts n := by
  refine .ifAt (fun hk => ?_) fun _ => .unexpected
  refine .bind_advance (by rw [hk]; decide) ?_
  refine .bind_recording fun _ => .pure ?_
  exact .name hk

theorem eat_reads {k : Token.Kind} (hk : k ≠ .eof) (hleaf : k.isLeaf = false) :
    (eat k).Reads m s fun ts o _ => Derives (.optional (.mark k)) ts o :=
  Reads.eat hk (fun h => .present (.mark h hleaf)) fun _ => .absent

/-- A token of some kind, whose span is no part of the tree. -/
theorem eat_possibly {k : Token.Kind} (hk : k ≠ .eof) :
    (eat k).Reads m s fun ts _ _ => Possibly k ts :=
  Reads.eat hk (fun h => .inr ⟨_, h, rfl⟩) fun _ => .inl rfl

theorem expectSemi_reads : expectSemi.Reads m s fun ts _ _ => Possibly .semi ts := by
  refine .ifAt (fun _ => .pure (.inl rfl)) fun _ => ?_
  refine .bind (.expect (by decide) fun hk => ?_) fun ts _ s' (h : Possibly .semi ts) => ?_
  · exact .inr ⟨_, hk, rfl⟩
  · exact .pure (by rwa [List.append_nil])

/-- A value is that of the token it was read from. -/
theorem literalValue_reads {P : List Token → Literal × Span → Parsing → Prop}
    (h : ∀ v, Literal.decode s.current.kind s.current.text = some v →
      P [s.current] (v, s.current.span) s.next) : literalValue.Reads m s P := by
  refine .bind_current ?_
  split
  · next hlit =>
    split
    · next v hv =>
      refine .bind_advance (fun hk => ?_) (.pure (h v hv))
      rw [hk] at hlit
      cases hlit
    · exact .throw
  · exact .unexpected

theorem literal_reads : literal.Reads m s fun ts lit _ => Derives .literal ts lit := by
  refine .bind (P := fun ts r _ => ∀ i, Derives .literal ts ⟨i, r.2, r.1⟩)
    (literalValue_reads fun v hv i => .literal hv) fun ts r s' h => ?_
  refine .new (fun _ => ⟨_, rfl⟩) fun i _ => ?_
  rw [List.append_nil]
  exact h i

end Parser

-- ============================================================= sequences

namespace Grammar

variable {m : Mode} {s : Parsing}

/-- One item more, after a comma. -/
theorem separated_snoc {p : Phrase} {sep : Token.Kind} {c : Token} {ts us : List Token}
    {as : List p.Result} {a : p.Result} (h : Derives (.separated sep p) ts as)
    (hc : c.kind = sep) (hsep : sep.isLeaf = false) (ha : Derives p us a) :
    Derives (.separated sep p) (ts ++ c :: us) (as ++ [a]) := by
  cases h with
  | separated h h' =>
    have := Derives.separated (.terminatedSnoc h h' hc hsep) ha
    simpa only [List.append_assoc, List.singleton_append] using this

/-- What holds of the last item holds of the end of the list. -/
theorem afterCommas_reads {p : Phrase} {item : Parser p.Result} {L : p.Result → Parsing → Prop}
    {ts : List Token} {first : p.Result} (hfirst : Derives p ts first) (hL : L first s)
    (h : ∀ s, item.Reads m s fun ts a s' => Derives p ts a ∧ L a s') :
    (afterCommas item first).Reads m s fun us as s' =>
      Derives (.separated .comma p) (ts ++ us) as ∧ ∀ a ∈ as.getLast?, L a s' := by
  refine .bind (P := fun us as s' => Derives (.separated .comma p) (ts ++ us) as.reverse ∧
    ∀ a ∈ as.head?, L a s') (.repeating (I := fun us as s' =>
      Derives (.separated .comma p) (ts ++ us) as.reverse ∧ ∀ a ∈ as.head?, L a s')
      ⟨?_, ?_⟩ fun us as s' ⟨has, hlast⟩ => ?_) fun us as s' ⟨has, hlast⟩ => .pure ⟨?_, ?_⟩
  · rw [List.append_nil]
    exact .separated .terminatedNil hfirst
  · rintro a ⟨⟩
    exact hL
  · refine .bind_eat (by decide) (fun hc => ?_) fun _ => .pure ?_
    · refine .bind (h s'.next) fun vs a s₂ ⟨ha, hL⟩ => .pure ⟨by simp, ?_, ?_⟩
      · simp only [List.append_nil, List.reverse_cons, ← List.append_assoc]
        have := separated_snoc has hc rfl ha
        simpa only [List.append_assoc] using this
      · rintro b ⟨⟩
        exact hL
    · exact ⟨by rwa [List.append_nil], hlast⟩
  · rwa [List.append_nil]
  · rwa [List.getLast?_reverse]

theorem commaSeparated_reads {p : Phrase} {item : Parser p.Result} {L : p.Result → Parsing → Prop}
    (h : ∀ s, item.Reads m s fun ts a s' => Derives p ts a ∧ L a s') :
    (commaSeparated item).Reads m s fun ts as s' =>
      Derives (.separated .comma p) ts as ∧ ∀ a ∈ as.getLast?, L a s' :=
  .bind (h s) fun _ _ _ ⟨hfirst, hL⟩ => afterCommas_reads hfirst hL h

/-- What is known of an item by its place is known of it in the list. -/
theorem getElem?_snoc_imp {α : Type} {R : Nat → α → Prop} {as : List α} {a : α}
    (has : ∀ i b, as[i]? = some b → R i b) (ha : R as.length a) :
    ∀ i b, (as ++ [a])[i]? = some b → R i b := by
  intro i b hb
  rw [List.getElem?_append] at hb
  split at hb
  · exact has i b hb
  · next hi =>
    obtain ⟨hlt, rfl⟩ := List.getElem?_eq_some_iff.mp hb
    have hi : i = as.length := by simp at hlt; omega
    rw [List.getElem_singleton, hi]
    exact ha

theorem itemsUntil_reads {p : Phrase} {close sep : Token.Kind} {item : Nat → Parser p.Result}
    {R : Nat → p.Result → Prop} (hsep : sep ≠ .eof) (hleaf : sep.isLeaf = false)
    (h : ∀ n s, (item n).Reads m s fun ts a _ => Derives p ts a ∧ R n a) :
    (itemsUntil close sep item).Reads m s fun ts as _ =>
      Derives (.listed sep p) ts as ∧ ∀ i a, as[i]? = some a → R i a := by
  refine .bind (P := fun ts st _ => Derives (.listed sep p) ts st.2.reverse ∧
      ∀ i a, st.2.reverse[i]? = some a → R i a)
    (.repeating (I := fun ts st _ => st.1 = st.2.length ∧
      Derives (.terminated sep p) ts st.2.reverse ∧ ∀ i a, st.2.reverse[i]? = some a → R i a)
      ⟨rfl, .terminatedNil, by simp⟩ ?_)
    fun ts st s' hst => .pure (by rwa [List.append_nil])
  rintro ts ⟨count, items⟩ s' ⟨hcount, hts, hR⟩
  obtain rfl : count = items.length := hcount
  refine .ifAt (fun _ => .stop ⟨.listedClosed hts, hR⟩) fun _ => ?_
  · refine .bind (h items.length s') fun us a s₁ ⟨ha, hRa⟩ => ?_
    have hR' := getElem?_snoc_imp hR (a := a) (by rwa [List.length_reverse])
    refine .bind_eat hsep (fun hc => .pure ⟨by simp, rfl, ?_⟩) fun _ => .pure ?_
    · rw [List.reverse_cons]
      exact ⟨.terminatedSnoc hts ha hc hleaf, hR'⟩
    · rw [Reads.TurnKeeps, List.append_nil, List.reverse_cons]
      exact ⟨.listedOpen (.separated hts ha), hR'⟩

/-- Items about whose places nothing is known. -/
theorem items_reads {p : Phrase} {close sep : Token.Kind} {item : Parser p.Result}
    (hsep : sep ≠ .eof) (hleaf : sep.isLeaf = false)
    (h : ∀ s, item.Reads m s fun ts a _ => Derives p ts a) :
    (itemsUntil close sep fun _ => item).Reads m s fun ts as _ =>
      Derives (.listed sep p) ts as :=
  (itemsUntil_reads (R := fun _ _ => True) hsep hleaf
    fun _ s => (h s).imp fun _ _ _ h => ⟨h, trivial⟩).imp fun _ _ _ h => h.1

-- =========================================================== expressions

variable {parse : SubParser} (hp : parse.Sound)

include hp

theorem binaryExpr_reads (levels least : Nat) :
    (binaryExpr parse levels least).Reads m s fun ts x s' =>
      Spared m ts x s' ∧ Settled m x s' := by
  induction levels generalizing least s with
  | zero => exact hp .unaryExpr m s trivial
  | succ levels ih =>
    refine .bind (hp .unaryExpr m s trivial) fun ts first s₁ hfirst => ?_
    refine .repeating (I := fun us x s' => Spared m (ts ++ us) x s' ∧ Settled m x s')
      ?_ fun us left s' ⟨hleft, hset⟩ => ?_
    · rwa [List.append_nil]
    · refine .bind_kind ?_
      split
      · next op hop =>
        split
        · refine .bind_advance (fun hk => by rw [hk] at hop; nomatch hop) ?_
          refine .bind_passing (ih _) fun vs right s₂ hpass ⟨hright, _⟩ => ?_
          refine .bind_new (fun _ => ⟨_, rfl⟩) fun i _ =>
            .pure ⟨by simp, fun g hg => ?_, fun _ => rfl, .of_isGuard rfl⟩
          rw [List.append_nil, ← List.append_assoc]
          exact .binary (hleft g (hg.imp_right hpass.guard)) hop (hright g hg)
        · exact .stop ⟨hleft, hset⟩
      · exact .stop ⟨hleft, hset⟩

theorem exprList_reads : (exprList parse).Reads m s fun ts xs s' =>
    Derives (.exprs m) ts xs ∧ SettledLast m xs.getLast? s' :=
  commaSeparated_reads (p := .expr m) (L := Settled m) fun _ => hp.expression

omit hp in
/-- The type before a brace is what the operand names. -/
theorem toType_reads {x : Expr} :
    (toType x).Reads m s fun ts t s' => ts = [] ∧ NamesType x t ∧ s'.current = s.current := by
  obtain ⟨i, sp, form⟩ := x
  unfold toType
  split
  · next t ht =>
    cases ht
    exact .pure ⟨rfl, .type, rfl⟩
  · next n hn =>
    cases hn
    exact .new (fun _ => ⟨_, rfl⟩) fun j _ => ⟨rfl, .plain, rfl⟩
  · next n hn =>
    cases hn
    exact .new (fun _ => ⟨_, rfl⟩) fun j _ => ⟨rfl, .qualified, rfl⟩
  · exact .unexpectedAt

-- ============================================================== suffixes

theorem selectorOrAssertion_reads {x : Expr} {xs : List Token} (hx : Spared m xs x s) :
    (selectorOrAssertion parse x).Reads m s fun ts y s' =>
      ts ≠ [] ∧ Spared m (xs ++ ts) y s' ∧ Lone m y := by
  refine .passing (.bind_expect (by decide) fun hd => ?_)
  refine .ifAt (fun hk => ?_) fun _ => .ifAt (fun hl => ?_) fun _ => .unexpected
  · refine .bind ident_reads fun ns n s₁ hn => ?_
    refine .new (fun _ => ⟨_, rfl⟩) fun i _ hpass =>
      ⟨by simp, hx.attach hpass fun g hx => ?_, .of_isGuard rfl⟩
    rw [List.append_nil]
    exact .selector hx hd hn
  · refine .bind_advance (by rw [hl]; decide) ?_
    refine .ifAt (fun hk => ?_) fun _ => ?_
    · refine .ifGuardAllowed (fun hs hg => ?_) .bind_unexpected
      refine .bind_advance (by rw [hk]; decide) (.bind_disallowGuard (.bind_pure ?_))
      refine .bind_expect (by decide) fun hr =>
        .new (fun _ => ⟨_, rfl⟩) fun i _ _ => ⟨by simp, fun g hg' => ?_, ?_⟩
      · -- The state allows no further guard, so it is the mode that does.
        obtain rfl : g = m.guard := hg'.resolve_right nofun
        exact .typeGuard hg hx.derives hd hl hk hr
      · rintro y r ⟨⟩
        exact ⟨xs, hx false (.inr hs)⟩
    · refine .bind_map (.inside fun _ => hp.type) fun ts t s₁ ht => ?_
      refine .bind_expect (by decide) fun hr => .new (fun _ => ⟨_, rfl⟩) fun i _ hpass =>
        ⟨by simp, hx.attach hpass fun g hx => ?_, .of_isGuard rfl⟩
      exact .typeAssert hx hd hl ht hr

theorem suffixes_reads {x : Expr} {xs : List Token} (hx : Spared m xs x s ∧ Lone m x) :
    (suffixes parse x).Reads m s fun ts y s' => Spared m (xs ++ ts) y s' ∧ Settled m y s' := by
  refine .repeating (I := fun ts y s' => Spared m (xs ++ ts) y s' ∧ Lone m y) ?_
    fun ts y s' h => .bind_kind ?_
  · rwa [List.append_nil]
  obtain ⟨hy, hlone⟩ := h
  have goesOn : ∀ {us z s''}, us ≠ [] → Spared m (xs ++ ts ++ us) z s'' → Lone m z →
      Reads.TurnKeeps (fun ts y s' => Spared m (xs ++ ts) y s' ∧ Lone m y)
        (fun ts y s' => Spared m (xs ++ ts) y s' ∧ Settled m y s') ts us (.again z) s'' :=
    fun hne hz hlone => ⟨hne, by rwa [List.append_assoc] at hz, hlone⟩
  split
  · exact .map ((selectorOrAssertion_reads hp hy).imp
      fun us z _ h => goesOn h.1 h.2.1 h.2.2)
  · refine .map (.passing ((hp (.indexOrSlice y) m s' trivial).imp ?_))
    rintro us z _ ⟨hne, hguard, hz⟩ hpass
    exact goesOn hne (hy.attach hpass fun _ => hz _ _) (.of_isGuard hguard)
  · refine .map (.passing ((hp (.call y) m s' trivial).imp ?_))
    rintro us z _ ⟨hne, hguard, hz⟩ hpass
    exact goesOn hne (hy.attach hpass fun _ => hz _ _) (.of_isGuard hguard)
  · refine .bind_inHeader ?_
    split
    · next hopens =>
      refine .passing (.bind toType_reads fun us t s₁ h => ?_)
      obtain ⟨rfl, ht, -⟩ := h
      refine .map ?_
      refine (hp (.compositeLit (some t) t.span.start) m s₁ trivial).imp ?_
      rintro vs z _ ⟨i, l, es, r, elements, hl, hr, rfl, -, hes, rfl⟩ hpass
      exact goesOn (by simp) (hy.attach hpass fun g hy => .composite hy hopens ht hl hes hr)
        (.of_isGuard rfl)
    · next hopens => exact .stop ⟨hy, fun _ => Bool.eq_false_iff.mpr hopens, hlone⟩
  · next hk => exact .stop ⟨hy, fun h => absurd h hk, hlone⟩

/-- What the tokens after the first colon of a slice make of it. -/
theorem upperBounds_reads :
    (upperBounds parse).Reads .inside s fun ts bounds _ =>
      ∀ {m : Mode} {xs los : List Token} {x : Expr} {low : Option Expr} {l c r : Token} {i : Nat},
        Derives (.expr m) xs x → l.kind = .lBrack → Derives (.optional (.expr .inside)) los low →
        c.kind = .colon → r.kind = .rBrack →
        Derives (.expr m) (xs ++ l :: (los ++ c :: (ts ++ [r])))
          ⟨i, x.span.through r.span, .slice x l.span low bounds.1 bounds.2 r.span⟩ := by
  refine .ifAt (fun _ => .pure fun hx hl hlow hc hr => .slice hx hl hlow hc .absent hr) fun _ => ?_
  refine .bind hp.anyExpression fun his high s₁ hhigh => ?_
  refine .bind_eat (by decide) (fun hc' => ?_) fun _ => .pure fun hx hl hlow hc hr => ?_
  · refine .bind hp.anyExpression fun tops top s₂ htop => .pure fun hx hl hlow hc hr => ?_
    simp only [List.append_nil, List.append_assoc, List.cons_append]
    exact .fullSlice hx hl hlow hc hhigh hc' htop hr
  · rw [List.append_nil]
    exact .slice hx hl hlow hc (.present hhigh) hr

theorem indexOrSlice_reads (x : Expr) :
    (indexOrSlice parse x).Reads m s ((Production.indexOrSlice x).Meets m s) := by
  refine .unrestricted (.bind_expect (by decide) fun hl => ?_)
  refine .joinAt (fun ts low _ => Derives (.optional (.expr .inside)) ts low)
    (fun _ => .pure .absent) (fun _ => .map (hp.anyExpression.imp fun _ _ _ => .present))
    fun los low s₁ hlow => ?_
  refine .bind_isAt (fun hc => ?_) fun hc => ?_
  all_goals rcases low with _ | y
  case refine_2.some =>
    refine .bind_expect (by decide) fun hr => .new (fun _ => ⟨_, rfl⟩) fun i _ =>
      ⟨by simp, rfl, ?_⟩
    intro m xs hx
    cases hlow with
    | present hy => exact .index hx hl hy hr
  all_goals
    refine .bind_expect (by decide) fun hc => ?_
    refine .bind (upperBounds_reads hp) fun ts bounds s₂ hbounds => ?_
    refine .bind_expect (by decide) fun hr => .new (fun _ => ⟨_, rfl⟩) fun i _ =>
      ⟨by simp, rfl, ?_⟩
    exact fun m xs hx => hbounds hx hl hlow hc hr

/-- Arguments as they are read: with each a comma, or with dots the
last. -/
theorem call_reads (x : Expr) : (call parse x).Reads m s ((Production.call x).Meets m s) := by
  refine .unrestricted (.bind_expect (by decide) fun hl => ?_)
  refine .bind (P := fun ts st _ => Derives .arguments ts (st.1.reverse, st.2))
    (.repeating (I := fun ts st _ => st.2 = none ∧
      Derives (.terminated .comma (.expr .inside)) ts st.1.reverse) ⟨rfl, .terminatedNil⟩ ?_) ?_
  · rintro ts ⟨args, dots⟩ s' ⟨hdots, hargs⟩
    obtain rfl : dots = none := hdots
    refine .ifAt (fun _ => .stop (.plainArguments (.listedClosed hargs))) fun _ => ?_
    refine .bind hp.anyExpression fun us arg s₁ harg => ?_
    refine .bind_eat (by decide) (fun hd => ?_) fun _ => ?_
    · refine .bind (eat_possibly (by decide)) fun cs _ s₂ hcs => .pure ?_
      rw [List.append_nil, Reads.TurnKeeps, ← List.append_assoc, List.reverse_cons]
      exact .spreadArguments (.separated hargs harg) hd hcs
    · refine .bind_eat (by decide) (fun hc => .pure ⟨by simp, rfl, ?_⟩) fun _ => .pure ?_
      · rw [List.reverse_cons]
        exact .terminatedSnoc hargs harg hc rfl
      · rw [List.append_nil, Reads.TurnKeeps, List.reverse_cons]
        exact .plainArguments (.listedOpen (.separated hargs harg))
  · rintro ts ⟨args, dots⟩ s' hargs
    refine .bind_expect (by decide) fun hr => .bind_recording fun _ => ?_
    refine .new (fun _ => ⟨_, rfl⟩) fun i _ => ⟨by simp, rfl, fun m xs hx => ?_⟩
    exact .call hx hl hargs hr

-- =================================================== composite literals

theorem elementPart_reads :
    (elementPart parse).Reads m s fun ts x _ => m = .inside → Derives .part ts x := by
  refine .ifAt (fun hk => .bind_here ?_) fun _ => ?_
  · refine (hp (.compositeLit none s.current.span.start) m s trivial).imp ?_
    rintro ts x _ ⟨i, l, es, r, elements, hl, hr, rfl, rfl, hes, rfl⟩ -
    exact .elided hl hes hr
  · refine hp.anyExpression.imp fun ts x _ hx hm => ?_
    rw [hm] at hx
    exact .part hx

theorem element_reads :
    (element parse).Reads .inside s fun ts x _ => Derives .element ts x := by
  refine .bind (elementPart_reads hp) fun ts first s₁ hfirst => ?_
  refine .bind_eat (by decide) (fun hc => ?_) fun _ => .pure ?_
  · refine .bind (elementPart_reads hp) fun us value s₂ hvalue => .pure ?_
    rw [List.append_nil]
    exact .keyed (hfirst rfl) hc (hvalue rfl)
  · rw [List.append_nil]
    exact .value (hfirst rfl)

theorem compositeLit_reads (t : Option TypeExpr) (start : Location) :
    (compositeLit parse t start).Reads m s ((Production.compositeLit t start).Meets m s) := by
  refine .unrestricted (.bind_expect (by decide) fun hl => ?_)
  refine .bind (items_reads (p := .element) (by decide) rfl fun _ => element_reads hp) ?_
  intro es elements s₁ hes
  refine .bind_expect (by decide) fun hr => .bind_recording fun _ => ?_
  refine .new (fun _ => ⟨_, rfl⟩) fun i _ => ?_
  exact ⟨i, _, es, _, elements, hl, hr, rfl, rfl, hes, rfl⟩

-- ============================================================= operands

theorem receiveChan_reads {a : Token} (ha : a.kind = .arrow) :
    (receiveChan parse a.span).Reads m s fun ts t _ =>
      Derives .type (a :: ts) t ∧ t.form.isOperand = true := by
  refine .passing (.bind_expect (by decide) fun hw => ?_)
  refine .bind hp.type fun ts t s₁ ht => .bind_spanFrom ?_
  refine .new (fun _ => ⟨_, rfl⟩) fun i _ hpass => ?_
  rw [List.append_nil] at hpass ⊢
  refine ⟨?_, rfl⟩
  rw [hpass.extent_cons (List.cons_ne_nil _ _)]
  exact .receiveChan ha hw ht

omit hp in
theorem arrow_of_receive {k : Token.Kind} {op : UnaryOp} (h : UnaryOp.ofKind k = some op)
    (hop : op = .receive) : k = .arrow := by
  subst hop
  cases k <;> first | rfl | cases h

theorem unaryExpr_reads : (unaryExpr parse).Reads m s (Production.unaryExpr.Meets m s) := by
  refine .bind_kind ?_
  split
  · exact hp .primaryExpr m s trivial
  · next op hop =>
    refine .bind_advance (fun hk => by rw [hk] at hop; nomatch hop) ?_
    have unary : ∀ s', (parse .unaryExpr >>= fun x => newExpr (.unary op s.current.span x)
        (s.current.span.through x.span)).Reads m s' fun us x s'' =>
          Spared m (s.current :: us) x s'' ∧ Settled m x s'' := fun s' => by
      refine .bind (hp .unaryExpr m s' trivial) fun ts x s₁ ⟨hx, _⟩ => ?_
      refine .new (fun _ => ⟨_, rfl⟩) fun i _ => ⟨fun g hg => ?_, fun _ => rfl, .of_isGuard rfl⟩
      rw [List.append_nil]
      exact .unary hop (hx g hg)
    refine .bind_isAt (fun hk => ?_) fun hk => ?_
    · split
      · next hboth =>
        have ha : s.current.kind = .arrow := arrow_of_receive hop (by simpa using hboth)
        refine .bind (receiveChan_reads hp ha) fun ts t s₁ ⟨ht, hform⟩ => ?_
        refine .bind_new (fun _ => ⟨_, rfl⟩) fun i _ => ?_
        exact suffixes_reads hp (Spared.of_any fun _ => .typeExpr ht hform)
      · exact unary _
    · rw [Bool.and_false]
      exact unary _

theorem primaryExpr_reads : (primaryExpr parse).Reads m s (Production.primaryExpr.Meets m s) :=
  .bind (hp .operand m s trivial) fun _ _ _ hx => suffixes_reads hp (Spared.of_any hx)

omit hp in
/-- A type whose first token is none of a name, a star or a parenthesis
needs no parentheses as an operand. -/
theorem isOperand_of_head {w : Token} {ts : List Token} {t : TypeExpr}
    (h : Derives .type (w :: ts) t) (hname : w.kind ≠ .ident) (hstar : w.kind ≠ .star)
    (hparen : w.kind ≠ .lParen) : t.form.isOperand = true := by
  generalize hus : w :: ts = us at h
  cases h with
  | typeName h => cases h with
    | plainName h => cases h; simp_all
    | qualifiedName h => cases h; simp_all
  | parenType => simp_all
  | pointerType => simp_all
  | _ => rfl

/-- Types that show by their first token that they are none of the
expressions. -/
theorem typeOperand_reads (hname : s.current.kind ≠ .ident) (hstar : s.current.kind ≠ .star)
    (hparen : s.current.kind ≠ .lParen) :
    (parse .type >>= fun t => newExpr (.type t) t.span).Reads m s fun ts x _ =>
      ∀ m, Derives (.expr m) ts x := by
  refine .bind (P := fun ts t _ => Derives .type ts t ∧ t.form.isOperand = true)
    (.passing (hp.type.imp fun ts t s₁ ht hpass => ⟨ht, ?_⟩)) fun ts t s₁ ⟨ht, hform⟩ =>
      .new (fun _ => ⟨_, rfl⟩) fun i _ m => ?_
  · obtain ⟨w, ts, rfl⟩ := List.exists_cons_of_ne_nil (ht.ne_nil rfl)
    obtain rfl : s.current = w := hpass.takes.1
    exact isOperand_of_head ht hname hstar hparen
  · rw [List.append_nil]
    exact .typeExpr ht hform

theorem operand_reads : (operand parse).Reads m s (Production.operand.Meets m s) := by
  have literal : (Parser.literal >>= fun lit => newExpr (.literal lit) lit.span).Reads m s
      fun ts x _ => ∀ m, Derives (.expr m) ts x := by
    refine .bind literal_reads fun ts lit s₁ hlit => .new (fun _ => ⟨_, rfl⟩) fun i _ m => ?_
    rw [List.append_nil]
    exact .literalExpr hlit
  refine .bind_kind ?_
  split
  · refine .bind ident_reads fun ts n s₁ hn => .new (fun _ => ⟨_, rfl⟩) fun i _ m => ?_
    rw [List.append_nil]
    exact .identExpr hn
  iterate 6 exact literal
  · next hk =>
    refine .bind_advance (by rw [hk]; decide) ?_
    refine .bind (.inside fun _ => hp.anyExpression) fun ts x s₁ hx => ?_
    exact .bind_expect (by decide) fun hr => .pure fun m => .parenExpr hk hx hr
  · next hk =>
    refine .bind_advance (by rw [hk]; decide) ?_
    refine .bind hp.signature fun ts sig s₁ hsig => .ifAt (fun _ => ?_) fun _ => ?_
    · exact .bind_current .throw
    · refine .bind_new (fun _ => ⟨_, rfl⟩) fun i _ => .new (fun _ => ⟨_, rfl⟩) fun j _ m => ?_
      rw [List.append_nil, hsig.signature_span, ← extent_cons (hsig.ne_nil rfl)]
      exact .typeExpr (.funcType hk hsig) rfl
  iterate 5
    next hk =>
      refine typeOperand_reads hp ?_ ?_ ?_ <;> (rw [hk]; decide)
  · exact .unexpected

end Grammar

end GoSource
