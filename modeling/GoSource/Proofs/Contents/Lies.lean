/-
Whatever is derived from some tokens lies in them.

This is the one place where all phrases are looked at: each is shown to be
laid out by the rules of `Laid` (`Derives.lies`). Most phrases hold the
nodes among their parts and end in a fixed edge. Three need more to be
said of them (`Phrase.Lies`): an expression may turn out to be the type of
a composite literal, a block is needed with its braces apart, and a loop
is no node before its statement is.

# Starting with a brace

A name may be followed by something else of the same phrase, as in
`x struct{}`. That this does not start with a brace is seen from the first
tokens of the phrases that can follow (`Derives.head_ne_lBrace`).
-/
import GoSource.Proofs.Contents.Laid
import GoSource.Proofs.Contents.Shape

namespace GoSource

-- =============================================================== phrases

/-- The modes in which a phrase may stand. -/
def Phrase.Fits (m : Mode) : Phrase → Prop
  | .optional p | .terminated _ p | .separated _ p | .listed _ p => p.Fits m
  | .expr m' | .simple _ m' | .stmt m' | .endedStmts m' | .stmts m' | .ifHeader m' | .ifStmt m'
  | .otherwise m' | .init m' | .post m' | .forHeader m' | .forStmt m' | .values m' | .spec _ m'
  | .specDecl _ m' | .group _ m' => m = m'
  | .arguments | .part | .element | .arrayLength | .topLevel _ _ | .decls _ _ | .file => m = .inside
  | .mark k => k.isBracket = false
  | _ => True

/-- What a phrase may end with. -/
@[simp] def Phrase.edge : Phrase → Edge
  | .terminated _ _ | .endedStmts _ | .literal | .mark _ | .tag | .importPath | .parameters => .firm
  | .optional p | .separated _ p | .listed _ p => p.edge
  | .name | .typeName | .type | .param _ | .params | .signature
  | .result | .field | .embedded | .interfaceElement | .importName | .importSpec => .typed
  | _ => .loose

/-- How the tokens of a phrase hold what it is read as. An expression may
turn out to be the type of a literal, and a block stands in its braces. -/
def Phrase.Lies (m : Mode) : (p : Phrase) → List Token → p.Result → Prop
  | .optional p, ts, a => a = none ∧ ts = [] ∨ ∃ b, a = some b ∧ p.Lies m ts b
  | .terminated sep p, ts, as =>
    (∀ us a, p.Lies m us a → Laid m p.edge us (Part.nodes (p.parts a))) → sep.isBracket = false →
      Laid m .firm ts (Part.nodes (as.flatMap p.parts))
  | .separated sep p, ts, as | .listed sep p, ts, as =>
    (∀ us a, p.Lies m us a → Laid m p.edge us (Part.nodes (p.parts a))) → sep.isBracket = false →
      Laid m p.edge ts (Part.nodes (as.flatMap p.parts))
  | .expr _, ts, x =>
    Laid m .loose ts [.expr x] ∧ ∀ t, NamesType x t → Laid m .typed ts [.type t]
  | .block, ts, b => ∃ l us r, ts = l :: (us ++ [r]) ∧ l.kind = .lBrace ∧ r.kind = .rBrace ∧
    b.span.start = l.span.start ∧ Laid .inside .loose us (Part.nodes b.parts)
  | .forStmt _, ts, form => ∀ i, Laid m .loose ts [.stmt ⟨i, extent ts, form⟩]
  | p, ts, a => Laid m p.edge ts (Part.nodes (p.parts a))

/-- Phrases that do not start with a brace. -/
def Phrase.startsPlain : Phrase → Bool
  | .mark k => k ≠ .lBrace
  | .optional p => p.startsPlain
  | .name | .literal | .typeName | .type | .parameters | .signature | .result | .embedded | .tag
  | .values _ | .group _ _ | .function | .importName | .importPath | .importSpec | .importDecl
  | .topLevel _ _ | .decls _ _ => true
  | _ => false

theorem GroupKind.isPlain_keyword (k : GroupKind) : k.keyword.isPlain = true := by
  cases k <;> rfl

theorem GroupKind.keyword_ne_lBrace (k : GroupKind) : k.keyword ≠ .lBrace :=
  Token.Kind.ne_lBrace_of_isPlain k.isPlain_keyword

theorem UnaryOp.isPlain_of_ofKind {k : Token.Kind} {op : UnaryOp} (h : ofKind k = some op) :
    k.isPlain = true := by
  cases k <;> first | rfl | cases h

theorem BinaryOp.isPlain_of_ofKind {k : Token.Kind} {op : BinaryOp} (h : ofKind k = some op) :
    k.isPlain = true := by
  cases k <;> first | rfl | cases h

theorem AssignOp.isPlain_of_ofKind {k : Token.Kind} {op : AssignOp} (h : ofKind k = some op) :
    k.isPlain = true := by
  cases k <;> first | rfl | cases h

theorem StepOp.isPlain_of_ofKind {k : Token.Kind} {op : StepOp} (h : ofKind k = some op) :
    k.isPlain = true := by
  cases k <;> first | rfl | cases h

theorem Literal.isPlain_of_isKind {k : Token.Kind} (h : isKind k = true) : k.isPlain = true := by
  cases k <;> first | rfl | cases h

/-- A separator is plain. -/
theorem Token.Kind.isPlain_of_isLeaf {k : Token.Kind} (hb : k.isBracket = false)
    (hl : k.isLeaf = false) : k.isPlain = true := by
  cases k <;> first | rfl | exact absurd hl (by decide) | cases hb

namespace Laid

variable {m : Mode} {e : Edge} {ts : List Token} {t : Token} {p : Phrase}

theorem literalToken {v : Literal} (h : Literal.decode t.kind t.text = some v) :
    Laid m e [t] [] :=
  single rfl (Literal.isPlain_of_isKind (Spells.isKind_of_decode h))

/-- What may be missing. -/
theorem optionalParts {a : Option p.Result} (h : (Phrase.optional p).Lies m ts a)
    (hp : ∀ us b, p.Lies m us b → Laid m e us (Part.nodes (p.parts b))) :
    Laid m e ts (Part.nodes (a.toList.flatMap p.parts)) := by
  obtain ⟨rfl, rfl⟩ | ⟨b, rfl, h⟩ := h
  · exact .nil
  · simpa using hp ts b h

theorem optionalBare {a : Option p.Result} (h : (Phrase.optional p).Lies m ts a)
    (hp : ∀ us b, p.Lies m us b → Laid m e us []) : Laid m e ts [] := by
  obtain ⟨rfl, rfl⟩ | ⟨b, rfl, h⟩ := h
  · exact .nil
  · exact hp ts b h

/-- Items that are one node each. -/
theorem items {f : p.Result → Visit} {as : List p.Result}
    (h : Laid m e ts (Part.nodes (as.flatMap p.parts))) (hf : p.parts = fun a => [.node (f a)]) :
    Laid m e ts (as.map f) := by
  rw [hf, ← List.map_eq_flatMap, Part.nodes_map] at h
  exact h

theorem names {names : List Ident} (h : Phrase.names.Lies m ts names) : Laid m .typed ts [] := by
  have h := h (fun _ _ h => h) rfl
  rwa [show Part.nodes (names.flatMap Phrase.name.parts) = [] by
    rw [show Phrase.name.parts = fun n => [.name n] from rfl, ← List.map_eq_flatMap,
      Part.nodes_names]] at h

theorem exprs {xs : List Expr} (h : (Phrase.exprs m).Lies m ts xs) :
    Laid m .loose ts (xs.map .expr) :=
  items (h (fun _ _ h => h.1) rfl) rfl

theorem draft {sm : SimpleMode} {i : Nat} {sp : Span} {form : StmtForm}
    (hd : Derives (.simple sm m) ts ⟨form, sp⟩) (h : Laid m .loose ts (Part.nodes form.parts)) :
    Laid m .loose ts [.stmt ⟨i, sp, form⟩] :=
  .nonExpr h (.simple hd) (by cases hd <;> rfl) rfl

theorem valueList {values : Option (List Expr)}
    (h : (Phrase.optional (.values m)).Lies m ts values) :
    Laid m .loose ts ((values.getD []).map .expr) := by
  obtain ⟨rfl, rfl⟩ | ⟨xs, rfl, h⟩ := h
  · exact .nil
  · simpa [Phrase.Lies, Phrase.parts] using h

/-- A declaration that may have a body. -/
theorem function {v : Visit} {hs bs : List Token} {body : Option Block}
    (hv : v.isHeaded = false) (hliteral : v.isNamedLiteral = false) (hexpr : v.isExpr = false)
    (hbrace : v.brace? = body.map (·.span.start))
    (hchildren : v.children = Part.nodes v.lead ++ Part.nodes v.inner)
    (hinner : v.inner = body.toList.flatMap Block.parts) (hrest : v.rest = [])
    (hlead : Laid m .typed hs (Part.nodes v.lead)) (hbody : (Phrase.optional .block).Lies m bs body)
    (hread : v.ReadFrom m ts) (hts : ts = hs ++ bs) : Laid m .loose ts [v] := by
  subst hts
  obtain ⟨rfl, rfl⟩ | ⟨b, rfl, l, us, r, rfl, hl, hr, hstart, hus⟩ := hbody
  · rw [List.append_nil] at hread ⊢
    refine .nonExpr ?_ hread hbrace hexpr
    rw [hchildren, hinner]
    simpa using hlead.loosen
  · refine .braced (hbrace.trans (congrArg some hstart)) hl hr ?_ (f := .loose) ?_ ?_ hread ?_ ?_
    · rwa [Visit.leadMode, Visit.leadEdge, if_neg (by simp [hv]), if_neg (by simp [hv])]
    · rw [hinner]
      simpa using hus
    · rw [hrest]
      exact .nil
    · simp [hliteral]
    · simp [hv]

/-- A statement with a header and a body. -/
theorem headed {v : Visit} {w : Token} {hs bs es : List Token} {body : Block}
    (hts : ts = w :: (hs ++ (bs ++ es))) (hw : w.kind.isPlain = true)
    (hv : v.isHeaded = true) (hbrace : v.brace? = some body.span.start)
    (hinner : v.inner = body.parts) (hlead : Laid m.header .loose hs (Part.nodes v.lead))
    (hbody : Phrase.block.Lies m bs body) (hrest : Laid m .loose es (Part.nodes v.rest))
    (hread : v.ReadFrom m ts) (hspan : v.span = extent ts) : Laid m .loose ts [v] := by
  obtain ⟨l, us, r, rfl, hl, hr, hstart, hus⟩ := hbody
  obtain rfl : ts = (w :: hs) ++ l :: (us ++ r :: es) := by simpa using hts
  rw [hstart] at hbrace
  rw [← hinner] at hus
  have hlead : Laid (v.leadMode m) v.leadEdge (w :: hs) (Part.nodes v.lead) := by
    rw [Visit.leadMode, Visit.leadEdge, if_pos hv, if_pos hv]
    exact .cons rfl hw hlead
  refine .braced hbrace hl hr hlead hus hrest hread (fun hliteral => ?_) fun _ => ⟨?_, ?_⟩
  · exact absurd hv (Visit.not_headed_of_literal hliteral)
  · rw [hspan]
    rfl
  · exact List.cons_ne_nil _ _

theorem exprNode {x : Expr} (hx : Derives (.expr m) ts x)
    (h : Laid m .loose ts (Visit.expr x).children) (hbrace : (Visit.expr x).brace? = none) :
    Laid m .loose ts [.expr x] :=
  .node h (.expr hx) hbrace fun _ _ _ _ => rfl

theorem typeNode {t : TypeExpr} (ht : Derives .type ts t)
    (h : Laid m .typed ts (Visit.type t).children) : Laid m .typed ts [.type t] :=
  .nonExpr h (.type ht) rfl rfl

/-- A name that was read as an operand, as the type it turned out to
be. -/
theorem named {x : Expr} {t : TypeExpr} (hx : Derives (.expr m) ts x) (ht : NamesType x t)
    (h : Laid m .typed ts []) (hname : t.form.isName = true) : Laid m .typed ts [.type t] := by
  refine .nonExpr ?_ (.named hx ht) rfl rfl
  obtain ⟨i, sp, form⟩ := t
  cases form with
  | name pkg n => simpa [Visit.children_eq_nodes, Visit.parts, TypeForm.parts] using h
  | _ => cases hname

end Laid

/-- The first tokens that something starts with. -/
theorem head_append {P : Token → Prop} {ts us : List Token} (hts : ∀ t ∈ ts.head?, P t)
    (hus : ts = [] → ∀ t ∈ us.head?, P t) : ∀ t ∈ (ts ++ us).head?, P t := by
  cases ts with
  | nil => exact hus rfl
  | cons t ts => exact hts

theorem Possibly.head_ne_lBrace {k : Token.Kind} {ts : List Token} (h : Possibly k ts)
    (hk : k ≠ .lBrace) : ∀ t ∈ ts.head?, t.kind ≠ .lBrace := by
  obtain rfl | ⟨t, ht, rfl⟩ := h
  · simp
  · simpa [ht] using hk

theorem Derives.head_ne_lBrace {p : Phrase} {ts : List Token} {a : p.Result}
    (h : Derives p ts a) (hp : p.startsPlain = true) : ∀ t ∈ ts.head?, t.kind ≠ .lBrace := by
  induction h with
  | literal hv | tag hv | importPath hv =>
    have hk := Literal.isPlain_of_isKind (Spells.isKind_of_decode hv)
    simpa using Token.Kind.ne_lBrace_of_isPlain hk
  | mark ht => simpa [ht, Phrase.startsPlain] using hp
  | present _ ih | typeName _ ih | paramsResult _ ih | typeResult _ ih | embeddedName _ ih
  | nameImport _ ih | topImport _ ih | topGroup _ ih | topFunction _ ih => exact ih hp
  | plainName _ ih => exact ih rfl
  | absent | noDecls => simp
  | qualifiedName _ hd _ ih => exact head_append (ih rfl) (by simp [hd])
  | parenType hl | arrayType hl | sliceType hl | pointerType hl | mapType hl | chanType hl
  | sendChan hl | receiveChan hl | funcType hl | structType hl | interfaceType hl | name hl
  | parameters hl | embeddedPointer hl | values hl | func hl | method hl | dotImport hl
  | loneImport hl | importGroup hl => simp [hl]
  | signature _ _ ih ih' => exact head_append (ih rfl) fun _ => ih' rfl
  | loneSpec hw | specGroup hw => simpa [hw] using GroupKind.keyword_ne_lBrace _
  | importSpec _ _ ih ih' => exact head_append (ih rfl) fun _ => ih' rfl
  | moreDecls _ _ hcs ih ih' =>
    have hcs := hcs.head_ne_lBrace (by decide)
    exact head_append (ih rfl) fun _ => head_append (ih' rfl) fun _ => hcs
  | _ => exact nomatch hp

/-- In a header a name does not start a composite literal. -/
theorem NamesType.inHeader_of_isName {x : Expr} {t : TypeExpr} {inHeader : Bool}
    (h : NamesType x t) (hopens : Grammar.opensComposite inHeader x = true)
    (hname : t.form.isName = true) : inHeader = false := by
  cases h with
  | @type i sp t =>
    obtain ⟨j, sp', form⟩ := t
    cases form with
    | name => exact nomatch hopens
    | _ => exact nomatch hname
  | plain | qualified => simpa [Grammar.opensComposite] using hopens

theorem Visit.isName_of_isNamedLiteral {i : Nat} {sp l r : Span} {t : TypeExpr}
    {elements : List Element}
    (h : (expr ⟨i, sp, .composite (some t) elements l r⟩).isNamedLiteral = true) :
    t.form.isName = true := by
  obtain ⟨j, sp', form⟩ := t
  cases form with
  | name => rfl
  | _ => exact nomatch h

/-- Whatever is derived from some tokens lies in them. -/
theorem Derives.lies {p : Phrase} {ts : List Token} {a : p.Result} (h : Derives p ts a) :
    ∀ {m : Mode}, p.Fits m → p.Lies m ts a := by
  induction h with
  | name ht => exact fun _ => .token (by rw [ht]; rfl) fun _ => by decide
  | literal hv | tag hv => exact fun _ => .nonExpr (.literalToken hv) .literal rfl rfl
  | mark ht hk => exact fun hm => .single ht (Token.Kind.isPlain_of_isLeaf hm hk)
  | absent => exact fun _ => .inl ⟨rfl, rfl⟩
  | present _ ih => exact fun hm => .inr ⟨_, rfl, ih hm⟩
  | terminatedNil => exact fun _ _ _ => .nil
  | terminatedSnoc _ _ hc hsep ih ih' =>
    intro m hm hp hb
    have hitem := (hp _ _ (ih' hm)).separated hc (Token.Kind.isPlain_of_isLeaf hb hsep)
      (.nil (e := .firm))
    simpa [Phrase.parts] using (ih hm hp hb).after hitem
  | separated _ _ ih ih' =>
    intro m hm hp hb
    simpa [Phrase.parts] using (ih hm hp hb).after (hp _ _ (ih' hm))
  | listedClosed _ ih => exact fun hm hp hb => (ih hm hp hb).mono (Edge.firm_le _)
  | listedOpen _ ih => exact ih
  -- operands
  | identExpr hn ih =>
    rintro m rfl
    refine ⟨.exprNode (.identExpr hn) (ih trivial).loosen rfl, fun t ht => ?_⟩
    exact .named (.identExpr hn) ht (ih trivial) (by cases ht; rfl)
  | literalExpr hl ih =>
    rintro m rfl
    exact ⟨.exprNode (.literalExpr hl) (ih trivial).loosen rfl, by rintro t ⟨⟩⟩
  | typeExpr ht hoperand ih =>
    rintro m rfl
    refine ⟨.exprNode (.typeExpr ht hoperand) (ih trivial).loosen rfl, ?_⟩
    rintro t ⟨⟩
    exact ih trivial
  | parenExpr hl _ hr ih =>
    rintro m rfl
    exact ⟨.parens hl (ih rfl).1 hr, fun t ht => .parens hl ((ih rfl).2 t ht) hr⟩
  -- what is attached to an operand
  | selector hx hd hn ihx ihn =>
    rintro m rfl
    have hname : Laid m .typed _ _ := ihn trivial
    refine ⟨.exprNode (.selector hx hd hn) ((ihx rfl).1.separated hd rfl hname.loosen) rfl, ?_⟩
    intro t ht
    refine .named (.selector hx hd hn) ht ?_ (by cases ht; rfl)
    cases ht with
    | qualified => exact (Laid.wrapped (hx.wrapped rfl)).separated hd rfl hname
  | typeAssert hx hd hl ht hr ihx iht =>
    rintro m rfl
    refine ⟨.exprNode (.typeAssert hx hd hl ht hr) ?_ rfl, by rintro t ⟨⟩⟩
    exact (ihx rfl).1.separated hd rfl (.parens hl (iht trivial) hr)
  | typeGuard hg hx hd hl hk hr ihx =>
    rintro m rfl
    refine ⟨.exprNode (.typeGuard hg hx hd hl hk hr) ?_ rfl, by rintro t ⟨⟩⟩
    have hk : Laid Mode.inside .firm _ _ := .single hk rfl
    exact (ihx rfl).1.separated hd rfl (.parens hl hk hr)
  | index hx hl hy hr ihx ihy =>
    rintro m rfl
    refine ⟨.exprNode (.index hx hl hy hr) ?_ rfl, by rintro t ⟨⟩⟩
    exact (ihx rfl).1.andThen hl (by decide) (.square hl (ihy rfl).1 hr)
  | slice hx hl hlow hc hhigh hr ihx ihlow ihhigh =>
    rintro m rfl
    refine ⟨.exprNode (.slice hx hl hlow hc hhigh hr) ?_ rfl, by rintro t ⟨⟩⟩
    have hlow := (Laid.optionalParts (ihlow rfl) fun _ _ h => h.1).items rfl
    have hhigh := (Laid.optionalParts (ihhigh rfl) fun _ _ h => h.1).items rfl
    have h := (ihx rfl).1.andThen hl (by decide)
      (.square (e := .loose) hl (hlow.separated hc rfl hhigh) hr)
    simpa [Visit.children_eq_nodes, Visit.parts, ExprForm.parts, Phrase.parts] using h
  | fullSlice hx hl hlow hc hhigh hc' htop hr ihx ihlow ihhigh ihtop =>
    rintro m rfl
    refine ⟨.exprNode (.fullSlice hx hl hlow hc hhigh hc' htop hr) ?_ rfl, by rintro t ⟨⟩⟩
    have hlow := (Laid.optionalParts (ihlow rfl) fun _ _ h => h.1).items rfl
    have hbounds := (ihhigh rfl).1.separated hc' rfl (ihtop rfl).1
    have h := (ihx rfl).1.andThen hl (by decide)
      (.square (e := .loose) hl (hlow.separated hc rfl hbounds) hr)
    simpa [Visit.children_eq_nodes, Visit.parts, ExprForm.parts] using h
  | call hx hl hargs hr ihx ihargs =>
    rintro m rfl
    refine ⟨.exprNode (.call hx hl hargs hr) ?_ rfl, by rintro t ⟨⟩⟩
    have h := (ihx rfl).1.andThen hl (by decide) (.parens (e := .loose) hl (ihargs rfl) hr)
    simpa [Visit.children_eq_nodes, Visit.parts, ExprForm.parts, Phrase.parts] using h
  | composite hx hopens ht hl hes hr ihx ihes =>
    rintro m rfl
    refine ⟨?_, by rintro t ⟨⟩⟩
    have hread := Visit.ReadFrom.expr (Derives.composite (i := ‹Nat›) hx hopens ht hl hes hr)
    refine .braced rfl hl hr ((ihx rfl).2 _ ht) (f := .loose) ?_ .nil hread ?_ fun h => by cases h
    · simpa [Visit.inner, Phrase.parts] using ihes rfl (fun _ _ h => h) rfl
    · exact fun h => ht.inHeader_of_isName hopens (Visit.isName_of_isNamedLiteral h)
  | plainArguments _ ih =>
    rintro m rfl
    have h := (ih rfl (fun _ _ h => h.1) rfl).items rfl
    simpa [Phrase.Lies, Phrase.parts] using h
  | spreadArguments _ hd hcs ih =>
    rintro m rfl
    have hxs := (ih rfl (fun _ _ h => h.1) rfl).items rfl
    have h := hxs.separated hd rfl (.possibly (e := .loose) hcs rfl)
    simpa [Phrase.Lies, Phrase.parts] using h
  | elided hl hes hr ih =>
    rintro m rfl
    refine .node ?_ (.elided (.elided hl hes hr)) rfl fun _ _ _ _ => rfl
    have h : Laid Mode.inside .loose _ _ := .braces hl (ih rfl (fun _ _ h => h) rfl) hr
    simpa [Visit.children_eq_nodes, Visit.parts, ExprForm.parts, Phrase.parts] using h
  | part _ ih =>
    rintro m rfl
    exact (ih rfl).1
  | value _ ih => exact ih
  | keyed _ hc _ ihk ihv =>
    rintro m rfl
    exact (ihk rfl).separated hc rfl (ihv rfl)
  -- operators
  | unary ho hx ih =>
    rintro m rfl
    refine ⟨.exprNode (.unary ho hx) ?_ rfl, by rintro t ⟨⟩⟩
    exact .cons rfl (UnaryOp.isPlain_of_ofKind ho) (ih rfl).1
  | binary hx ho hy ihx ihy =>
    rintro m rfl
    refine ⟨.exprNode (.binary hx ho hy) ?_ rfl, by rintro t ⟨⟩⟩
    exact (ihx rfl).1.separated rfl (BinaryOp.isPlain_of_ofKind ho) (ihy rfl).1
  -- types
  | plainName hn ih =>
    exact fun _ => .nonExpr (ih trivial) (.type (.typeName (.plainName hn))) rfl rfl
  | qualifiedName hp hd hn ihp ihn =>
    intro m _
    refine .nonExpr ?_ (.type (.typeName (.qualifiedName hp hd hn))) rfl rfl
    exact (ihp trivial).separated hd rfl (ihn trivial)
  | typeName _ ih => exact ih
  | parenType hl _ hr ih => exact fun _ => .parens hl (ih trivial) hr
  | arrayType hl hn hr ht ihn iht =>
    intro m _
    refine .typeNode (.arrayType hl hn hr ht) ?_
    have h := (Laid.square (m := m) (e := .firm) hl (ihn rfl) hr).after (iht trivial)
    simpa [Visit.children_eq_nodes, Visit.parts, TypeForm.parts, Phrase.parts] using h
  | sliceType hl hr ht ih =>
    intro m _
    refine .typeNode (.sliceType hl hr ht) ?_
    exact (Laid.square (e := .firm) hl (.nil (e := .firm)) hr).after (ih trivial)
  | pointerType hs ht ih =>
    exact fun _ => .typeNode (.pointerType hs ht) (.cons hs rfl (ih trivial))
  | mapType hw hl hk hr ht ihk iht =>
    intro m _
    refine .typeNode (.mapType hw hl hk hr ht) (.cons hw rfl ?_)
    have h := (Laid.square (m := m) (e := .firm) hl (ihk trivial) hr).after (iht trivial)
    simpa [Visit.children_eq_nodes, Visit.parts, TypeForm.parts, Phrase.parts] using h
  | chanType hw ht ih =>
    exact fun _ => .typeNode (.chanType hw ht) (.cons hw rfl (ih trivial))
  | funcType hw ht ih =>
    exact fun _ => .typeNode (.funcType hw ht) (.cons hw rfl (ih trivial))
  | sendChan hw ha ht ih =>
    intro m _
    refine .typeNode (.sendChan hw ha ht) ?_
    exact .cons hw rfl (.cons ha rfl (ih trivial))
  | receiveChan ha hw ht ih =>
    intro m _
    refine .typeNode (.receiveChan ha hw ht) ?_
    exact .cons ha rfl (.cons hw rfl (ih trivial))
  | structType hw hl hfs hr ih =>
    intro m _
    refine .typeNode (.structType hw hl hfs hr)
      (.cons hw rfl (.braces (f := .typed) hl ?_ hr))
    simpa [Visit.children_eq_nodes, Visit.parts, TypeForm.parts] using
      (ih trivial (fun _ _ h => h) rfl).items rfl
  | interfaceType hw hl hes hr ih =>
    intro m _
    refine .typeNode (.interfaceType hw hl hes hr)
      (.cons hw rfl (.braces (f := .typed) hl ?_ hr))
    simpa [Visit.children_eq_nodes, Visit.parts, TypeForm.parts, Phrase.parts] using
      ih trivial (fun _ _ h => h) rfl
  | exprLength _ ih =>
    rintro m rfl
    exact (ih rfl).1
  | dotsLength hd => exact fun _ => .single hd rfl
  -- parameters
  | typeParam hd ht ihd iht =>
    intro m _
    refine .nonExpr ?_ (.param (.typeParam hd ht)) rfl rfl
    have hdots := Laid.optionalBare (m := m) (e := .firm) (ihd rfl) fun _ _ h => h
    simpa [Visit.children_eq_nodes, Visit.parts, ParamForm.parts, Phrase.parts] using
      hdots.after (iht trivial)
  | namedParam hn hd ht ihn ihd iht =>
    intro m _
    refine .nonExpr ?_ (.param (.namedParam hn hd ht)) rfl rfl
    have hdots := Laid.optionalBare (m := m) (e := .firm) (ihd rfl) fun _ _ h => h
    have h := (Laid.names (ihn trivial)).join (Edge.le_refl _)
      (head_append (hd.head_ne_lBrace rfl) fun _ => ht.head_ne_lBrace rfl)
      (hdots.after (iht trivial))
    simpa [Visit.children_eq_nodes, Visit.parts, ParamForm.parts, Phrase.parts] using h
  | params _ _ ih =>
    intro m _
    simpa [Phrase.Lies, Phrase.parts] using (ih (m := m) trivial (fun _ _ h => h) rfl).items rfl
  | parameters hl _ hr ih =>
    intro m _
    have h := Laid.parens (m := m) (e := .firm) hl (ih trivial) hr
    simpa [Phrase.Lies, Phrase.parts, ParamList.parts] using h
  | signature _ _ ihp ihr =>
    intro m _
    have hresult := Laid.optionalParts (ihr (m := m) trivial) fun _ _ h => h
    have h := Laid.after (ihp trivial) hresult
    simpa [Phrase.Lies, Phrase.parts, Signature.parts] using h
  | paramsResult _ ih => exact fun _ => Laid.mono (ih trivial) (Edge.firm_le _)
  | typeResult _ ih => exact fun _ => ih trivial
  -- fields and methods
  | namedField hn ht hg ihn iht ihg =>
    intro m _
    refine .nonExpr ?_ (.field (.namedField hn ht hg)) rfl rfl
    have htag := (Laid.optionalParts (e := .typed) (ihg (m := m) trivial) fun _ _ h =>
      Laid.mono h (Edge.firm_le _)).items rfl
    have htype := Laid.join (iht trivial) (Edge.le_refl _) (hg.head_ne_lBrace rfl) htag
    have h := (Laid.names (ihn trivial)).join (Edge.le_refl _)
      (head_append (ht.head_ne_lBrace rfl) fun h => absurd h (ht.ne_nil rfl)) htype
    simpa [Visit.children_eq_nodes, Visit.parts, FieldForm.parts, Phrase.parts] using h
  | embeddedField ht hg iht ihg =>
    intro m _
    refine .nonExpr ?_ (.field (.embeddedField ht hg)) rfl rfl
    have htag := (Laid.optionalParts (e := .typed) (ihg (m := m) trivial) fun _ _ h =>
      Laid.mono h (Edge.firm_le _)).items rfl
    have h := Laid.join (iht trivial) (Edge.le_refl _) (hg.head_ne_lBrace rfl) htag
    simpa [Visit.children_eq_nodes, Visit.parts, FieldForm.parts, Phrase.parts] using h
  | embeddedName ht ih => exact fun _ => ih trivial
  | embeddedPointer hs ht ih =>
    exact fun _ => .nonExpr (.cons hs rfl (ih trivial)) (.embedded (.embeddedPointer hs ht)) rfl
      rfl
  | methodElement _ hs ihn ihs =>
    exact fun _ => Laid.join (ihn trivial) (Edge.le_refl _) (hs.head_ne_lBrace rfl) (ihs trivial)
  | embeddedElement _ ih => exact fun _ => ih trivial
  -- simple statements
  | rangeOnly _ hw _ ih =>
    rintro m rfl
    exact .cons hw rfl (ih rfl).1
  | labeled _ hleft hlabel hc _ ihl ihs =>
    rintro m rfl
    have hnames := hleft.nameRow (areNames_of_asLabel hlabel)
    exact (Laid.nameRow hnames).separated hc rfl (ihs rfl)
  | labeledEmpty _ hleft hlabel hc ihl =>
    rintro m rfl
    have hnames := hleft.nameRow (areNames_of_asLabel hlabel)
    exact (Laid.nameRow hnames).andThen hc (by decide)
      (.nonExpr (.single hc rfl) .nothing rfl rfl)
  | send _ ha _ ihx ihy =>
    rintro m rfl
    exact (ihx rfl).1.separated ha rfl (ihy rfl).1
  | step _ ho ih =>
    rintro m rfl
    exact (ih rfl).1.separated rfl (StepOp.isPlain_of_ofKind ho) .nil
  | shortVar hleft hnames hd _ ihl ihv =>
    rintro m rfl
    have h := (Laid.nameRow (m := m) (hleft.nameRow hnames)).separated hd rfl (Laid.exprs (ihv rfl))
    simpa [Phrase.Lies, Phrase.parts, StmtForm.parts] using h
  | defineRange _ _ _ hd hw _ ihl ihx =>
    rintro m rfl
    have h := (Laid.exprs (ihl rfl)).separated hd rfl (.cons hw rfl (ihx rfl).1)
    simpa [Phrase.Lies, Phrase.parts, StmtForm.parts] using h
  | assign _ ho _ ihl ihr =>
    rintro m rfl
    have h := (Laid.exprs (ihl rfl)).separated rfl (AssignOp.isPlain_of_ofKind ho)
      (Laid.exprs (ihr rfl))
    simpa [Phrase.Lies, Phrase.parts, StmtForm.parts] using h
  | assignRange _ _ ha hw _ ihl ihx =>
    rintro m rfl
    have h := (Laid.exprs (ihl rfl)).separated ha rfl (.cons hw rfl (ihx rfl).1)
    simpa [Phrase.Lies, Phrase.parts, StmtForm.parts] using h
  | exprStmt _ ih =>
    rintro m rfl
    exact (ih rfl).1
  -- statements
  | simpleStmt h ih =>
    rintro m rfl
    exact .draft h (ih rfl)
  | declStmt h ih =>
    rintro m rfl
    exact .nonExpr (ih rfl) (.stmt (.declStmt h)) rfl rfl
  | blockStmt h ih =>
    rintro m rfl
    obtain ⟨l, us, r, rfl, hl, hr, -, hus⟩ := ih (m := m) trivial
    exact .nonExpr (.braces hl hus hr) (.stmt (.blockStmt h)) rfl rfl
  | ifStmt _ ih => exact ih
  | forStmt h ih =>
    rintro m rfl
    exact ih rfl _
  | goStmt hw hx ih =>
    rintro m rfl
    exact .nonExpr (.cons hw rfl (ih rfl).1) (.stmt (.goStmt hw hx)) rfl rfl
  | deferStmt hw hx ih =>
    rintro m rfl
    exact .nonExpr (.cons hw rfl (ih rfl).1) (.stmt (.deferStmt hw hx)) rfl rfl
  | returnNothing hw =>
    rintro m rfl
    exact .nonExpr (.single hw rfl) (.stmt (.returnNothing hw)) rfl rfl
  | returnStmt hw hxs ih =>
    rintro m rfl
    refine .nonExpr (.cons hw rfl ?_) (.stmt (.returnStmt hw hxs)) rfl rfl
    simpa [Visit.children_eq_nodes, Visit.parts, StmtForm.parts] using Laid.exprs (ih rfl)
  | breakStmt hw hn ih =>
    rintro m rfl
    refine .nonExpr (.cons hw rfl ?_) (.stmt (.breakStmt hw hn)) rfl rfl
    have h := Laid.optionalBare (ih (m := m) trivial) fun _ _ h => Laid.loosen h
    simpa [Visit.children_eq_nodes, Visit.parts, StmtForm.parts] using h
  | continueStmt hw hn ih =>
    rintro m rfl
    refine .nonExpr (.cons hw rfl ?_) (.stmt (.continueStmt hw hn)) rfl rfl
    have h := Laid.optionalBare (ih (m := m) trivial) fun _ _ h => Laid.loosen h
    simpa [Visit.children_eq_nodes, Visit.parts, StmtForm.parts] using h
  | gotoStmt hw hn ih =>
    rintro m rfl
    exact .nonExpr (.cons hw rfl (Laid.loosen (ih trivial))) (.stmt (.gotoStmt hw hn)) rfl rfl
  | fallthroughStmt hw =>
    rintro m rfl
    exact .nonExpr (.single hw rfl) (.stmt (.fallthroughStmt hw)) rfl rfl
  -- blocks
  | noStmts => exact fun _ => .nil
  | skipSemi _ hc ih =>
    rintro m rfl
    have h := Laid.after (ih rfl) (.single (e := .firm) hc rfl)
    simpa [Phrase.Lies, Phrase.parts] using h
  | endedStmt _ _ hc ih ihs =>
    rintro m rfl
    have hstmt := Laid.separated (ihs rfl) hc rfl (.nil (e := .firm))
    have h := Laid.after (ih rfl) hstmt
    simpa [Phrase.Lies, Phrase.parts] using h
  | stmtsClosed _ ih => exact fun h => Laid.loosen (ih h)
  | stmtsOpen _ _ ih ihs =>
    rintro m rfl
    have h := Laid.after (ih rfl) (ihs rfl)
    simpa [Phrase.Lies, Phrase.parts] using h
  | block hl _ hr ih => exact fun _ => ⟨_, _, _, rfl, hl, hr, rfl, ih rfl⟩
  -- conditionals
  | condOnly _ ih => exact ih
  | initCond h hc _ ih ihx =>
    rintro m rfl
    exact (Laid.draft h (ih rfl)).separated hc rfl (ihx rfl)
  | conditional hw hh hends hb he ihh ihb ihe =>
    rintro m rfl
    refine .headed rfl (by rw [hw]; rfl) rfl rfl rfl ?_ (ihb trivial) ?_
      (.stmt (.ifStmt (.conditional hw hh hends hb he))) rfl
    · have h : Laid m.header .loose _ _ := ihh rfl
      simpa [Visit.lead, Phrase.parts] using h
    · simpa [Visit.rest] using (Laid.optionalParts (ihe (m := m) rfl) fun _ _ h => h).items rfl
  | elseIf hw _ ih =>
    rintro m rfl
    exact .cons hw rfl (ih rfl)
  | elseBlock hw hb ih =>
    rintro m rfl
    obtain ⟨l, us, r, rfl, hl, hr, -, hus⟩ := ih (m := m) trivial
    exact .cons hw rfl (.nonExpr (.braces hl hus hr) (.block hb) rfl rfl)
  -- loops
  | infinite => exact fun _ => .nil
  | forCond _ ih => exact ih
  | forRange h ih =>
    rintro m rfl
    exact Laid.draft h (ih rfl)
  | forClause _ hc _ hc' _ ihi ihx ihp =>
    rintro m rfl
    have hinit := (Laid.optionalParts (ihi (m := m) rfl) fun _ _ h => h).items rfl
    have htest := (Laid.optionalParts (ihx (m := m) rfl) fun _ _ h => h.1).items rfl
    have hpost := (Laid.optionalParts (ihp (m := m) rfl) fun _ _ h => h).items rfl
    have h := hinit.separated hc rfl (htest.separated hc' rfl hpost)
    simpa [Phrase.Lies, Phrase.parts, ForHeader.parts] using h
  | init h _ ih =>
    rintro m rfl
    exact Laid.draft h (ih rfl)
  | post h _ ih =>
    rintro m rfl
    exact Laid.draft h (ih rfl)
  | loop hw hh hends hb ihh ihb =>
    rintro m rfl i
    exact .headed (by rw [List.append_nil]) (by rw [hw]; rfl) rfl rfl rfl
      (ihh rfl) (ihb trivial) .nil (.stmt (.forStmt (.loop hw hh hends hb))) rfl
  -- declarations
  | values ha _ ih =>
    rintro m rfl
    have h : Laid m .loose _ _ := .cons ha rfl (Laid.exprs (ih rfl))
    simpa [Phrase.Lies, Phrase.parts] using h
  | constSpec _ ht hv _ ihn iht ihv | varSpec _ ht hv _ ihn iht ihv =>
    rintro m rfl
    have htype := (Laid.optionalParts (m := m) (iht trivial) fun _ _ h => h).items rfl
    have hvalues := htype.join (by decide) (hv.head_ne_lBrace rfl) (Laid.valueList (ihv rfl))
    have h := (Laid.names (ihn (m := m) trivial)).join (by decide)
      (head_append (ht.head_ne_lBrace rfl) fun _ => hv.head_ne_lBrace rfl) hvalues
    simpa [Phrase.Lies, Phrase.parts, DeclForm.parts] using h
  | typeSpec _ ha ht ihn iha iht =>
    rintro m rfl
    have hassign := Laid.optionalBare (m := m) (e := .firm) (iha rfl) fun _ _ h => h
    have h := Laid.join (ihn (m := m) trivial) (Edge.le_refl _)
      (head_append (ha.head_ne_lBrace rfl) fun _ => ht.head_ne_lBrace rfl)
      (hassign.after (iht trivial))
    simpa [Phrase.Lies, Phrase.parts, DeclForm.parts] using h.loosen
  | specDecl h ih =>
    rintro m rfl
    exact .nonExpr (ih rfl) (.spec h) (by cases h <;> rfl) rfl
  | loneSpec hw h _ ih =>
    rintro m rfl
    refine .nonExpr ?_ (.spec h) (by cases h <;> rfl) rfl
    exact .cons hw (GroupKind.isPlain_keyword _) (ih rfl)
  | specGroup hw hl _ _ hr ih =>
    rintro m rfl
    have h := (ih rfl (fun _ _ h => h) rfl).items rfl
    have h : Laid m .loose _ _ := .cons hw (GroupKind.isPlain_keyword _) (.parens hl h hr)
    simpa [Phrase.Lies, Phrase.parts] using h
  | func hw hn hs hb ihn ihs ihb =>
    intro m _
    have hlead := Laid.join (ihn (m := m) trivial) (Edge.le_refl _) (hs.head_ne_lBrace rfl)
      (ihs trivial)
    refine .function rfl rfl rfl rfl ?_ rfl rfl (.cons hw rfl hlead) (ihb trivial)
      (.function (.func hw hn hs hb)) (by simp)
    simp [Visit.children_eq_nodes, Visit.parts, DeclForm.parts, Visit.lead, Visit.inner]
  | method hw hr hreceiver hn hs hb ihr ihn ihs ihb =>
    intro m _
    have hname := Laid.join (ihn (m := m) trivial) (Edge.le_refl _) (hs.head_ne_lBrace rfl)
      (ihs trivial)
    have hlead : Laid m .typed _ _ := .cons hw rfl (Laid.after (ihr trivial) hname)
    refine .function rfl rfl rfl rfl ?_ rfl rfl (by simpa [Visit.lead, Phrase.parts] using hlead)
      (ihb trivial) (.function (.method hw hr hreceiver hn hs hb)) (by simp)
    simp [Visit.children_eq_nodes, Visit.parts, DeclForm.parts, Visit.lead, Visit.inner]
  -- imports
  | dotImport hd => exact fun _ => .single hd rfl
  | nameImport _ ih => exact ih
  | importPath hv => exact fun _ => .literalToken hv
  | importSpec _ hpath ihn iht =>
    intro m _
    have hname := Laid.optionalParts (m := m) (ihn trivial) fun _ _ h => h
    have h := hname.join (f := .typed) (by decide) (hpath.head_ne_lBrace rfl)
      (Laid.mono (iht trivial) (by decide))
    simpa [Phrase.Lies, Phrase.parts, ImportSpec.parts] using h
  | loneImport hw hspec ih =>
    intro m _
    refine .nonExpr (.cons hw rfl ?_) (.imports (.loneImport hw hspec)) rfl rfl
    have h : Laid m .typed _ _ := ih trivial
    simpa [Visit.children_eq_nodes, Visit.parts, DeclForm.parts, Phrase.parts] using h.loosen
  | importGroup hw hl hspecs hr ih =>
    intro m _
    refine .nonExpr (.cons hw rfl ?_) (.imports (.importGroup hw hl hspecs hr)) rfl rfl
    have h : Laid m .loose _ _ := .parens hl (ih trivial (fun _ _ h => h) rfl) hr
    simpa [Visit.children_eq_nodes, Visit.parts, DeclForm.parts, Phrase.parts] using h
  -- files
  | topImport _ ih => exact fun _ => ih trivial
  | topFunction _ ih => exact fun _ => ih trivial
  | topGroup _ ih =>
    rintro m rfl
    exact ih rfl
  | noDecls => exact fun _ => .nil
  | moreDecls hds hd hcs ih ihm =>
    rintro m rfl
    have hsemi := Possibly.head_ne_lBrace hcs (by decide)
    have hmore := Laid.join (ihm rfl) (Edge.le_refl _) hsemi (.possibly hcs rfl)
    have h := Laid.join (ih rfl) (Edge.le_refl _)
      (head_append (hd.head_ne_lBrace rfl) fun _ => hsemi) hmore
    simpa [Phrase.Lies, Phrase.parts] using h
  | file hw hn hcs hi hd ihn ihi ihd =>
    rintro m rfl
    refine .nonExpr (.cons hw rfl ?_) (.file (.file hw hn hcs hi hd)) rfl rfl
    have hdecls := Laid.join (ihi rfl) (Edge.le_refl _) (hd.head_ne_lBrace rfl) (ihd rfl)
    have hstart := head_append (hi.head_ne_lBrace rfl) fun _ => hd.head_ne_lBrace rfl
    have hsemi : Laid .inside .firm _ [] := .possibly hcs rfl
    have hrest := hsemi.join (Edge.firm_le _) hstart hdecls
    have h := Laid.join (ihn (m := .inside) trivial) (by decide)
      (head_append (Possibly.head_ne_lBrace hcs (by decide)) fun _ => hstart) hrest
    simpa [Visit.children_eq_nodes, Visit.parts, File.parts, Phrase.parts] using h

end GoSource
