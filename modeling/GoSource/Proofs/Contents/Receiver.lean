/-
Whose methods there are.

The type of a receiver may stand in any number of parentheses, and so may
the type behind its star. The tree has none of them. In the source, what is
left of a receiver without parentheses and commas tells of which type the
method is (`parseSource_receiver`): a name or none, a star or none, and the
name of the type. Any other type has another word in it, which is neither
a name nor a star, or two stars (`TypeWords`).
-/
import GoSource.Proofs.Contents.Site

namespace GoSource

-- ================================================================ types

/-- A type of the package by its name, or a pointer to it. -/
inductive TypeForm.IsOf (T : String) : TypeForm → Prop where
  | name {n : Ident} (hn : n.name = T) : IsOf T (.name none n)
  | pointer {i : Nat} {sp : Span} {n : Ident} (hn : n.name = T) :
    IsOf T (.pointer ⟨i, sp, .name none n⟩)

/-- The receiver of a method is of a type, or of pointers to it. -/
def MethodDecl.IsOf (T : String) (m : MethodDecl) : Prop :=
  ∃ p, m.receiver.params.head? = some p ∧ p.form.type.form.IsOf T

-- ================================================================ words

/-- Neither a parenthesis nor a comma. -/
def Token.Kind.isWord (k : Token.Kind) : Bool := k ≠ .lParen ∧ k ≠ .rParen ∧ k ≠ .comma

/-- What is left without parentheses and commas. -/
def words (ts : List Token) : List Token := ts.filter (·.kind.isWord)

@[simp] theorem words_nil : words [] = [] := rfl

@[simp] theorem words_append (ts us : List Token) : words (ts ++ us) = words ts ++ words us :=
  List.filter_append ..

theorem words_cons_of_word {t : Token} (ht : t.kind.isWord = true) (ts : List Token) :
    words (t :: ts) = t :: words ts :=
  List.filter_cons_of_pos ht

theorem words_cons_of_not_word {t : Token} (ht : t.kind.isWord = false) (ts : List Token) :
    words (t :: ts) = words ts :=
  List.filter_cons_of_neg (by simpa using ht)

/-- How the words of a type begin. -/
inductive TypeWords : List Token → TypeForm → Prop where
  | name {t : Token} (ht : t.kind = .ident) : TypeWords [t] (.name none ⟨t.text, t.span⟩)
  | qualified {t d : Token} {ts : List Token} {pkg n : Ident} (hd : d.kind = .dot) :
    TypeWords (t :: d :: ts) (.name (some pkg) n)
  | pointer {s : Token} {ts : List Token} {e : TypeExpr} (hs : s.kind = .star)
    (he : TypeWords ts e.form) : TypeWords (s :: ts) (.pointer e)
  | other {w : Token} {ts : List Token} {form : TypeForm} (hident : w.kind ≠ .ident)
    (hstar : w.kind ≠ .star) (hform : ∀ T, ¬ form.IsOf T) : TypeWords (w :: ts) form

/-- What has been read begins with the words of a type, if it is one. -/
def Phrase.HasTypeWords : (p : Phrase) → List Token → p.Result → Prop
  | .name, ts, n => ∃ t, ts = [t] ∧ t.kind = .ident ∧ n = ⟨t.text, t.span⟩
  | .type, ts, t | .typeName, ts, t => TypeWords (words ts) t.form
  | _, _, _ => True

theorem Derives.hasTypeWords {p : Phrase} {ts : List Token} {a : p.Result} (h : Derives p ts a) :
    p.HasTypeWords ts a := by
  have hother : ∀ {w : Token} {ts : List Token} {form : TypeForm}, w.kind.isWord = true →
      w.kind ≠ .ident → w.kind ≠ .star → (∀ T, ¬ form.IsOf T) →
      TypeWords (words (w :: ts)) form := by
    intro w ts form hw hident hstar hform
    rw [words_cons_of_word hw]
    exact .other hident hstar hform
  induction h with
  | name ht => exact ⟨_, rfl, ht, rfl⟩
  | plainName _ ih =>
    obtain ⟨t, rfl, ht, rfl⟩ := ih
    rw [Phrase.HasTypeWords, words_cons_of_word (by rw [ht]; rfl)]
    exact .name ht
  | qualifiedName _ hd _ ih _ =>
    obtain ⟨t, rfl, ht, rfl⟩ := ih
    rw [List.singleton_append, Phrase.HasTypeWords, words_cons_of_word (by rw [ht]; rfl),
      words_cons_of_word (by rw [hd]; rfl)]
    exact .qualified hd
  | typeName _ ih => exact ih
  | parenType hl _ hr ih =>
    rw [Phrase.HasTypeWords, words_cons_of_not_word (by rw [hl]; rfl), words_append,
      words_cons_of_not_word (by rw [hr]; rfl), words_nil, List.append_nil]
    exact ih
  | pointerType hs _ ih =>
    rw [Phrase.HasTypeWords, words_cons_of_word (by rw [hs]; rfl)]
    exact .pointer hs ih
  | arrayType hw | sliceType hw | mapType hw | chanType hw | sendChan hw | receiveChan hw
  | funcType hw | structType hw | interfaceType hw =>
    exact hother (by rw [hw]; rfl) (by rw [hw]; nofun) (by rw [hw]; nofun) nofun
  | _ => trivial

/-- A name or none, a star or none, and the name of a type. -/
def SpellsReceiver (T : String) (ws : List Token) : Prop :=
  ∃ ns ss t, ws = ns ++ (ss ++ [t]) ∧ Possibly .ident ns ∧ Possibly .star ss ∧
    t.kind = .ident ∧ t.text = T

namespace TypeWords

variable {ws ns ss : List Token} {form : TypeForm} {T : String} {t : Token}

/-- Of which type a form is. -/
theorem isOf (h : TypeWords (ss ++ [t]) form) (hss : Possibly .star ss) (ht : t.kind = .ident) :
    form.IsOf t.text := by
  rcases hss with rfl | ⟨s, hs, rfl⟩
  · cases h with
    | name => exact .name rfl
    | pointer hs => exact nomatch hs.symm.trans ht
    | other hident => exact absurd ht hident
  · cases h with
    | qualified hd => exact nomatch hd.symm.trans ht
    | @pointer _ _ e _ he =>
      obtain ⟨i, sp, form⟩ := e
      cases he with
      | name => exact .pointer rfl
      | pointer hs => exact nomatch hs.symm.trans ht
      | other hident => exact absurd ht hident
    | other _ hstar => exact absurd hs hstar

theorem exists_of_isOf (h : TypeWords ws form) (hT : form.IsOf T) :
    ∃ ss t, ws = ss ++ [t] ∧ Possibly .star ss ∧ t.kind = .ident ∧ t.text = T := by
  cases h with
  | name ht =>
    cases hT with
    | name hn => exact ⟨[], _, rfl, .inl rfl, ht, hn⟩
  | qualified => exact nomatch hT
  | @pointer s _ e hs he =>
    cases hT with
    | pointer hn =>
      cases he with
      | name ht => exact ⟨[s], _, rfl, .inr ⟨s, hs, rfl⟩, ht, hn⟩
      | other _ _ hform => exact absurd (.name hn) (hform T)
  | other _ _ hform => exact absurd hT (hform T)

/-- A type is no name in front of a type. -/
theorem head_ne_ident {n : Token} (h : TypeWords (n :: (ss ++ [t])) form) (hn : n.kind = .ident)
    (hss : Possibly .star ss) (ht : t.kind = .ident) : False := by
  rcases hss with rfl | ⟨s, hs, rfl⟩
  · cases h with
    | qualified hd => exact nomatch hd.symm.trans ht
    | pointer hs => exact nomatch hs.symm.trans hn
    | other hident => exact hident hn
  · cases h with
    | qualified hd => exact nomatch hd.symm.trans hs
    | pointer hs => exact nomatch hs.symm.trans hn
    | other hident => exact hident hn

/-- Whether there is a name before it or not, a type is told from what is
there. -/
theorem isOf_iff (h : TypeWords ws form) (hns : Possibly .ident ns) :
    form.IsOf T ↔ SpellsReceiver T (ns ++ ws) := by
  constructor
  · intro hT
    obtain ⟨ss, t, rfl, hss, ht, htext⟩ := h.exists_of_isOf hT
    exact ⟨ns, ss, t, rfl, hns, hss, ht, htext⟩
  · rintro ⟨ns', ss, t, heq, hns', hss, ht, rfl⟩
    -- a name in front of the type, that `ns` has and `ns'` not or the other way,
    -- would be the beginning of a type
    rcases hns with rfl | ⟨n, hn, rfl⟩ <;> rcases hns' with rfl | ⟨n', hn', rfl⟩
    · obtain rfl : ws = ss ++ [t] := heq
      exact h.isOf hss ht
    · obtain rfl : ws = n' :: (ss ++ [t]) := heq
      exact (h.head_ne_ident hn' hss ht).elim
    · rcases hss with rfl | ⟨s, hs, rfl⟩
      · obtain ⟨-, rfl⟩ := List.cons.inj heq
        exact nomatch h
      · obtain ⟨rfl, -⟩ := List.cons.inj heq
        exact nomatch hs.symm.trans hn
    · obtain ⟨-, rfl⟩ := List.cons.inj heq
      exact h.isOf hss ht

end TypeWords

/-- No items are no tokens. -/
theorem Derives.terminated_nil {sep : Token.Kind} {p : Phrase} {ts : List Token}
    (h : Derives (.terminated sep p) ts []) : ts = [] := by
  obtain ⟨hts, -⟩ | ⟨_, _, _, _, _, -, has, -⟩ := h.terminated_cases
  · exact hts
  · simp at has

theorem Derives.separated_singleton {sep : Token.Kind} {p : Phrase} {ts : List Token}
    {a : p.Result} (h : Derives (.separated sep p) ts [a]) : Derives p ts a := by
  obtain ⟨us, bs, vs, b, rfl, has, hus, hb⟩ := h.separated_cases
  obtain ⟨rfl, rfl⟩ : bs = [] ∧ b = a := by simpa [List.append_eq_singleton_iff] using has.symm
  obtain rfl := hus.terminated_nil
  exact hb

theorem Derives.listed_singleton {sep : Token.Kind} {p : Phrase} {ts : List Token}
    {a : p.Result} (h : Derives (.listed sep p) ts [a]) :
    ∃ us cs, ts = us ++ cs ∧ Possibly sep cs ∧ Derives p us a := by
  cases h with
  | listedClosed h =>
    obtain ⟨-, has⟩ | ⟨us, bs, vs, b, c, rfl, has, hus, hb, hc, -⟩ := h.terminated_cases
    · simp at has
    · obtain ⟨rfl, rfl⟩ : bs = [] ∧ b = a := by
        simpa [List.append_eq_singleton_iff] using has.symm
      obtain rfl := hus.terminated_nil
      exact ⟨vs, [c], rfl, .inr ⟨c, hc, rfl⟩, hb⟩
  | listedOpen h => exact ⟨ts, [], (List.append_nil ts).symm, .inl rfl, h.separated_singleton⟩

/-- Without what is around it, a parameter with one name or none is this
name and its type. -/
theorem Derives.param_words {named : Bool} {ts : List Token} {p : Param}
    (h : Derives (.param named) ts p) (hnames : p.form.names.length ≤ 1)
    (hdots : p.form.dots = none) :
    ∃ ns ws, words ts = ns ++ ws ∧ Possibly .ident ns ∧ TypeWords ws p.form.type.form := by
  cases h with
  | typeParam hds ht =>
    cases hdots
    cases hds
    exact ⟨[], _, rfl, .inl rfl, ht.hasTypeWords⟩
  | namedParam hns hds ht =>
    cases hdots
    cases hds
    obtain ⟨us, bs, vs, b, rfl, rfl, hus, hb⟩ := hns.separated_cases
    obtain rfl : bs = [] := by simpa using hnames
    obtain rfl := hus.terminated_nil
    obtain ⟨t, rfl, ht', rfl⟩ := hb.hasTypeWords
    refine ⟨[t], _, ?_, .inr ⟨t, ht', rfl⟩, ht.hasTypeWords⟩
    rw [List.nil_append, List.nil_append, List.singleton_append]
    exact words_cons_of_word (by rw [ht']; rfl) _

theorem Derives.receiver_words {rs : List Token} {receiver : ParamList} {p : Param}
    (h : Derives .parameters rs receiver) (hp : receiver.params = [p])
    (hnames : p.form.names.length ≤ 1) (hdots : p.form.dots = none) :
    ∃ ns ws, words rs = ns ++ ws ∧ Possibly .ident ns ∧ TypeWords ws p.form.type.form := by
  cases h with
  | parameters hl hts hr =>
    cases hts with
    | params hlist =>
      cases hp
      obtain ⟨us, cs, rfl, hcs, hparam⟩ := hlist.listed_singleton
      obtain ⟨ns, ws, hwords, hns, hws⟩ := hparam.param_words hnames hdots
      refine ⟨ns, ws, ?_, hns, hws⟩
      rw [words_cons_of_not_word (by rw [hl]; rfl), words_append, words_append, hwords,
        words_cons_of_not_word (by rw [hr]; rfl), words_nil, List.append_nil]
      rcases hcs with rfl | ⟨c, hc, rfl⟩
      · exact List.append_nil _
      · rw [words_cons_of_not_word (by rw [hc]; rfl), words_nil, List.append_nil]

/-- The words of a receiver tell of which type the methods are. -/
theorem Derives.receiver {rs : List Token} {receiver : ParamList}
    (h : Derives .parameters rs receiver) (hr : Grammar.isReceiver receiver.params = true) :
    ∃ p, receiver.params = [p] ∧ ∀ T, p.form.type.form.IsOf T ↔ SpellsReceiver T (words rs) := by
  unfold Grammar.isReceiver at hr
  split at hr
  · next p hparams =>
    refine ⟨p, hparams, fun T => ?_⟩
    rw [Bool.and_eq_true, decide_eq_true_iff, Option.isNone_iff_eq_none] at hr
    obtain ⟨ns, ws, hwords, hns, hws⟩ := h.receiver_words hparams hr.1 hr.2
    rw [hwords]
    exact hws.isOf_iff hns
  · exact nomatch hr

-- ============================================================== sources

theorem Visit.children_file (f : File) :
    Visit.children (.file f) = (f.imports ++ f.decls).map .decl := by
  rw [← Part.nodes_decls, List.map_append]
  rfl

theorem File.mem_reached {f : File} {d : Decl} (hd : d ∈ f.imports ++ f.decls) :
    .decl d ∈ (Root.file f).reached := by
  rw [Root.reached_eq]
  refine Visit.mem_reached_singleton.mpr (.inr (List.mem_flatMap.mpr ⟨.decl d, ?_, ?_⟩))
  · rw [Visit.children_file]
    exact List.mem_map_of_mem hd
  · rw [Visit.below_eq]
    exact List.mem_cons_self

/-- In some tokens a method stands with its receiver, between the keyword
and its name. -/
def MethodDecl.StandsIn (tokens rs : List Token) (m : MethodDecl) : Prop :=
  ∃ pre w n post, tokens = pre ++ w :: (rs ++ n :: post) ∧
    w.kind = .kwFunc ∧ w.span = m.funcSpan ∧ m.receiver.span = extent rs ∧
    n.kind = .ident ∧ m.name = ⟨n.text, n.span⟩

theorem Derives.method_stands {ts : List Token} {d : Decl} (h : Derives .function ts d)
    {m : MethodDecl} (hm : d.form = .method m) :
    ∃ rs, m.StandsIn ts rs ∧ ∀ T, m.IsOf T ↔ SpellsReceiver T (words rs) := by
  cases h with
  | func => exact nomatch hm
  | method hw hrs hone hn hsig hbody =>
    cases hm
    obtain ⟨t, rfl, ht, rfl⟩ := hn.hasTypeWords
    obtain ⟨p, hp, hT⟩ := hrs.receiver hone
    refine ⟨_, ⟨[], _, t, _, rfl, hw, rfl, ?_, ht, rfl⟩, fun T => ?_⟩
    · cases hrs
      rfl
    · rw [← hT, MethodDecl.IsOf, hp]
      simp

theorem MethodDecl.StandsIn.within {ts rs : List Token} {m : MethodDecl} (h : m.StandsIn ts rs)
    (before after : List Token) : m.StandsIn (before ++ (ts ++ after)) rs := by
  obtain ⟨pre, w, n, post, rfl, hm⟩ := h
  exact ⟨before ++ pre, w, n, post ++ after, by simp, hm⟩

/-- Of which type a method is can be told from the source, and parentheses
do not matter for it. -/
theorem parseSource_receiver {source : String} {maxDepth : Nat} {arena : Arena} {f : File}
    (h : (parseSource source .file maxDepth arena).1 = .ok (.file f)) {d : Decl}
    (hd : d ∈ f.decls) {m : MethodDecl} (hm : d.form = .method m) :
    ∃ rs, m.StandsIn (Token.Stream.ofSource source).tokens rs ∧
      ∀ T, m.IsOf T ↔ SpellsReceiver T (words rs) := by
  have hlaid := (parseStream_reads (Token.Stream.ofSource_proper source) h).laid
  have hreached := File.mem_reached (List.mem_append_right f.imports hd)
  rw [Root.reached_eq] at hreached
  obtain ⟨mode, e, pre, us, post, htokens, hsite⟩ := hlaid.site hreached
  have hread := hsite.stop.readFrom
  rw [htokens]
  cases hread with
  | spec hspec => cases hspec <;> exact nomatch hm
  | imports himport => cases himport <;> exact nomatch hm
  | function hfunc =>
    obtain ⟨rs, hstands, hT⟩ := hfunc.method_stands hm
    exact ⟨rs, hstands.within pre post, hT⟩

end GoSource
