/-
What stands in a tree stands in its tokens.

`Holds ts ps` says that the tokens `ts`, read from left to right, hold the
parts `ps`: a name or a literal for each token that is one, and nodes made
of the parts between their first and their last token. It forgets which
phrase was read and which tokens held a list together. What is left is
what all derivations have in common, so a property of spans or of names
needs to be shown for the few rules of `Holds` only, and not for every way
to form a phrase (`Derives.holds`).

# Spans of nodes

The span of a node is found in one of two ways: from the tokens it was
read from (`spanned`), or from its first and its last part (`joined`). The
two differ where an operand is in parentheses: those belong to the tokens
but not to the parts.
-/
import GoSource.Proofs.Contents.Part
import GoSource.Proofs.Derivation

namespace GoSource

-- ================================================================ rules

/-- From where the first part starts to where the last one ends. -/
def Part.hull (ps : List Part) : Span :=
  ⟨(ps.head?.map (·.span.start)).getD .nowhere, (ps.getLast?.map (·.span.stop)).getD .nowhere⟩

theorem Part.hull_through {p q : Part} (ps : List Part) :
    hull (p :: (ps ++ [q])) = p.span.through q.span := by
  rw [hull, ← List.cons_append, List.getLast?_concat]
  rfl

/-- The tokens hold the parts, in the order of both. -/
inductive Holds : List Token → List Part → Prop where
  | nil : Holds [] []
  | append : Holds ts ps → Holds us qs → Holds (ts ++ us) (ps ++ qs)
  | skip : t.kind.isLeaf = false → Holds [t] []
  | mark : t.kind.isLeaf = false → Holds [t] [.mark t.span]
  | name : t.kind = .ident → Holds [t] [.name ⟨t.text, t.span⟩]
  | literal : Literal.decode t.kind t.text = some v → Holds [t] [.literal ⟨i, t.span, v⟩]
  | path : Literal.decode t.kind t.text = some (.string bytes) →
      Holds [t] [.path (Text.lossyText bytes) t.span]
  | spanned {v : Visit} : Holds ts v.parts → ts ≠ [] → v.span = extent ts →
      (∀ lit, v ≠ .literal lit) → Holds ts [.node v]
  | joined {v : Visit} : Holds ts v.parts → v.parts ≠ [] → v.span = Part.hull v.parts →
      Holds ts [.node v]
  /-- The statement that a label labels if there is none. -/
  | empty : t.kind.isLeaf = false → Holds [t] [.stmt ⟨i, .point t.span.stop, .empty⟩]

namespace Holds

variable {ts us : List Token} {ps qs : List Part} {t : Token} {k : Token.Kind}

theorem skips (ht : t.kind = k) (hk : k.isLeaf = false) (h : Holds ts ps) : Holds (t :: ts) ps :=
  append (skip (ht ▸ hk)) h

theorem marks (ht : t.kind = k) (hk : k.isLeaf = false) (h : Holds ts ps) :
    Holds (t :: ts) (.mark t.span :: ps) :=
  append (mark (ht ▸ hk)) h

/-- Between brackets that leave no trace. -/
theorem bracketed {l r : Token} {k' : Token.Kind} (hl : l.kind = k) (h : Holds ts ps)
    (hr : r.kind = k') (hk : k.isLeaf = false) (hk' : k'.isLeaf = false) :
    Holds (l :: (ts ++ [r])) ps := by
  have := skips hl hk (h.append (skip (hr ▸ hk')))
  rwa [List.append_nil] at this

theorem possibly {sep : Token.Kind} (h : Possibly sep ts) (hsep : sep.isLeaf = false) :
    Holds ts [] := by
  obtain rfl | ⟨t, ht, rfl⟩ := h
  · exact nil
  · exact skip (ht ▸ hsep)

end Holds

-- =============================================================== phrases

/-- The parts of what a phrase is read as. -/
def Phrase.parts : (p : Phrase) → p.Result → List Part
  | .name, n => [.name n]
  | .literal, lit | .tag, lit => [.literal lit]
  | .mark _, sp => [.mark sp]
  | .optional p, a => a.toList.flatMap p.parts
  | .terminated _ p, as | .separated _ p, as | .listed _ p, as => as.flatMap p.parts
  | .expr _, x | .part, x => [.expr x]
  | .arguments, args => args.1.map .expr ++ args.2.toList.map .mark
  | .element, e => e.parts
  | .typeName, t | .type, t | .embedded, t => [.type t]
  | .arrayLength, len => len.parts
  | .param _, p => [.param p]
  | .params, ps => ps.map .param
  | .parameters, ps => ps.parts
  | .signature, sig => sig.parts
  | .result, r => r.parts
  | .field, f => [.field f]
  | .interfaceElement, e => e.parts
  | .simple _ _, d => d.form.parts
  | .stmt _, s | .ifStmt _, s | .otherwise _, s | .init _, s | .post _, s => [.stmt s]
  | .endedStmts _, ss | .stmts _, ss => ss.map .stmt
  | .block, b => b.parts
  | .ifHeader _, r => r.1.toList.map .stmt ++ [.expr r.2]
  | .forHeader _, h => h.parts
  | .forStmt _, form => form.parts
  | .values _, xs => xs.map .expr
  | .spec _ _, form => form.parts
  | .specDecl _ _, d | .function, d | .importDecl, d => [.decl d]
  | .group _ _, ds | .topLevel _ _, ds | .decls _ _, ds => ds.map .decl
  | .importName, n => n.parts
  | .importPath, (path, sp) => [.path path sp]
  | .importSpec, s => s.parts
  | .file, f => [.node (.file f)]

-- ============================================================= openings

namespace Holds

variable {ts : List Token} {ps : List Part}

theorem alone {l r : List Part} {p q : Part} (h : [p] = l ++ q :: r) :
    l = [] ∧ p = q ∧ r = [] := by
  cases l with
  | nil => simpa using h
  | cons _ l => simp at h

/-- Instead of a node the tokens hold what stands in it. -/
theorem opened {l r : List Part} {v : Visit} (h : Holds ts (l ++ .node v :: r))
    (hv : ∀ lit, v ≠ .literal lit) : Holds ts (l ++ (v.parts ++ r)) := by
  generalize hps : l ++ .node v :: r = ps at h
  induction h generalizing l r with
  | nil => simp at hps
  | @append _ ps _ qs h h' ih ih' =>
    obtain ⟨mid, rfl, hpost⟩ | ⟨mid, rfl, hqs⟩ := List.append_eq_append_iff.mp hps
    · cases mid with
      | nil =>
        have := h.append (ih' (l := []) hpost)
        simpa using this
      | cons q mid =>
        obtain ⟨rfl, rfl⟩ := List.cons_eq_cons.mp hpost
        have := (ih rfl).append h'
        simpa using this
    · have := h.append (ih' hqs.symm)
      simpa using this
  | skip => simp at hps
  | mark | name | path => exact nomatch (alone hps.symm).2.1
  | literal =>
    obtain ⟨-, hnode, -⟩ := alone hps.symm
    cases hnode
    exact absurd rfl (hv _)
  | spanned h =>
    obtain ⟨rfl, hnode, rfl⟩ := alone hps.symm
    cases hnode
    rwa [List.nil_append, List.append_nil]
  | joined h =>
    obtain ⟨rfl, hnode, rfl⟩ := alone hps.symm
    cases hnode
    rwa [List.nil_append, List.append_nil]
  | empty ht =>
    obtain ⟨rfl, hnode, rfl⟩ := alone hps.symm
    cases hnode
    exact skip ht

/-- Names that were read as expressions. -/
theorem names {l : List Part} {xs : List Expr} {names : List Ident}
    (h : Holds ts (l ++ xs.map .expr)) (hnames : AreNames xs names) :
    Holds ts (l ++ names.map .name) := by
  induction xs generalizing l names with
  | nil =>
    obtain rfl : names = [] := by simpa [AreNames] using hnames
    exact h
  | cons x xs ih =>
    cases names with
    | nil => simp [AreNames] at hnames
    | cons n names =>
      obtain ⟨hx, hxs⟩ := List.cons_eq_cons.mp hnames
      have hopen := h.opened (v := .expr x) nofun
      rw [Visit.parts, show x.form = .ident n from hx, ← List.append_assoc] at hopen
      have := ih hopen hxs
      rwa [List.append_assoc] at this

end Holds

-- ========================================================== expressions

/-- The span is that of the parts. -/
def Expr.IsJoined (x : Expr) : Prop := x.span = Part.hull x.form.parts

/-- The span of an expression is that of its parts. Parentheses around it
belong to no part, and to no span either. For a selector the same is said
of what it selects from, which may turn out to be the name of a package. -/
def Phrase.Joined : (p : Phrase) → p.Result → Prop
  | .expr _, x => Expr.IsJoined x ∧ ∀ y n, x.form = .selector y n → Expr.IsJoined y
  | _, _ => True

theorem Derives.joined {p : Phrase} {ts : List Token} {a : p.Result} (h : Derives p ts a) :
    p.Joined a := by
  induction h with
  | identExpr | literalExpr | typeExpr | typeAssert | typeGuard | index | unary | binary =>
    refine ⟨rfl, ?_⟩
    rintro _ _ ⟨⟩
  | parenExpr _ _ _ ih => exact ih
  | selector _ _ _ ih =>
    refine ⟨rfl, ?_⟩
    rintro _ _ ⟨⟩
    exact ih.1
  | slice | fullSlice | call =>
    refine ⟨?_, ?_⟩
    · simp [Expr.IsJoined, Part.hull, ExprForm.parts, List.getLast?_cons, Part.span, Visit.span,
        Span.through]
    · rintro _ _ ⟨⟩
  | composite =>
    refine ⟨?_, ?_⟩
    · simp [Expr.IsJoined, Part.hull, ExprForm.parts, List.getLast?_cons, Part.span, Visit.span]
    · rintro _ _ ⟨⟩
  | _ => trivial

theorem ExprForm.parts_ne_nil (form : ExprForm) : form.parts ≠ [] := by
  cases form <;> simp [ExprForm.parts]

theorem Visit.expr_parts_ne_nil (x : Expr) : (expr x).parts ≠ [] := x.form.parts_ne_nil

/-- The type that an expression names is read from the same tokens. -/
theorem Derives.namesType {m : Mode} {ts : List Token} {x : Expr} {t : TypeExpr}
    (h : Derives (.expr m) ts x) (hts : Holds ts [.expr x]) (hn : NamesType x t) :
    Holds ts [.type t] := by
  obtain ⟨hx, hselector⟩ := h.joined
  have hopen := hts.opened (l := []) (r := []) (v := .expr x) nofun
  rw [List.nil_append, List.append_nil] at hopen
  cases hn with
  | type => exact hopen
  | plain => exact .joined hopen nofun hx
  | @qualified i sp k sp' pkg n j =>
    have hopen := hopen.opened (l := []) (r := [.name n]) (v := .expr _) nofun
    have hy : sp' = pkg.span := hselector _ _ rfl
    refine .joined hopen nofun (hx.trans ?_)
    subst hy
    rfl

-- ========================================================== derivations

theorem UnaryOp.isLeaf_of_ofKind {k : Token.Kind} {op : UnaryOp} (h : ofKind k = some op) :
    k.isLeaf = false := by
  cases k <;> first | rfl | cases h

theorem BinaryOp.isLeaf_of_ofKind {k : Token.Kind} {op : BinaryOp} (h : ofKind k = some op) :
    k.isLeaf = false := by
  cases k <;> first | rfl | cases h

theorem AssignOp.isLeaf_of_ofKind {k : Token.Kind} {op : AssignOp} (h : ofKind k = some op) :
    k.isLeaf = false := by
  cases k <;> first | rfl | cases h

theorem StepOp.isLeaf_of_ofKind {k : Token.Kind} {op : StepOp} (h : ofKind k = some op) :
    k.isLeaf = false := by
  cases k <;> first | rfl | cases h

theorem GroupKind.isLeaf_keyword (k : GroupKind) : k.keyword.isLeaf = false := by
  cases k <;> rfl

theorem areNames_of_asLabel {xs : List Expr} {n : Ident} (h : Grammar.asLabel xs = some n) :
    AreNames xs [n] := by
  unfold Grammar.asLabel at h
  split at h
  · cases h
    rfl
  · cases h

theorem Derives.simple_span {sm : SimpleMode} {m : Mode} {ts : List Token} {d : Draft}
    (h : Derives (.simple sm m) ts d) : d.span = extent ts := by
  cases h <;> rfl

theorem Derives.block_span {ts : List Token} {b : Block} (h : Derives .block ts b) :
    b.span = extent ts := by
  cases h with
  | block => rfl

namespace Holds

variable {ts : List Token}

/-- Items that are one part each. -/
theorem items {p : Phrase} {f : p.Result → Part} {as : List p.Result}
    (h : Holds ts (as.flatMap p.parts)) (hf : p.parts = fun a => [f a]) :
    Holds ts (as.map f) := by
  rwa [List.map_eq_flatMap, ← hf]

theorem exprNode {m : Mode} {x : Expr} (h : Derives (.expr m) ts x)
    (hts : Holds ts x.form.parts) : Holds ts [.expr x] :=
  .joined hts (ExprForm.parts_ne_nil _) h.joined.1

theorem typeNode {i : Nat} {form : TypeForm} (hts : Holds ts form.parts) (hne : ts ≠ []) :
    Holds ts [.type ⟨i, extent ts, form⟩] :=
  .spanned hts hne rfl nofun

theorem stmtNode {i : Nat} {form : StmtForm} (hts : Holds ts form.parts) (hne : ts ≠ []) :
    Holds ts [.stmt ⟨i, extent ts, form⟩] :=
  .spanned hts hne rfl nofun

theorem draftNode {sm : SimpleMode} {m : Mode} {i : Nat} {sp : Span} {form : StmtForm}
    (h : Derives (.simple sm m) ts ⟨form, sp⟩) (hts : Holds ts form.parts) :
    Holds ts [.stmt ⟨i, sp, form⟩] :=
  .spanned hts (h.ne_nil rfl) h.simple_span nofun

theorem blockNode {i : Nat} {b : Block} (h : Derives .block ts b) (hts : Holds ts b.parts) :
    Holds ts [.stmt ⟨i, b.span, .block b⟩] :=
  .spanned hts (h.ne_nil rfl) h.block_span nofun

theorem valueList {m : Mode} {values : Option (List Expr)}
    (h : Holds ts (values.toList.flatMap (Phrase.values m).parts)) :
    Holds ts ((values.getD []).map .expr) := by
  cases values with
  | none => exact h
  | some values => simpa [Phrase.parts] using h

theorem declNode {i : Nat} {form : DeclForm} (hts : Holds ts form.parts) (hne : ts ≠ []) :
    Holds ts [.decl ⟨i, extent ts, form⟩] :=
  .spanned hts hne rfl nofun

end Holds

/-- Whatever is derived from some tokens, they hold its parts. -/
theorem Derives.holds {p : Phrase} {ts : List Token} {a : p.Result} (h : Derives p ts a) :
    Holds ts (p.parts a) := by
  induction h with
  | name ht => exact .name ht
  | literal hv => exact .literal hv
  | mark ht hk => exact .mark (ht ▸ hk)
  | absent | terminatedNil | noStmts | infinite | noDecls => exact .nil
  | present _ ih => simpa [Phrase.parts] using ih
  | terminatedSnoc _ _ hc hsep ih ih' =>
    have := ih.append (ih'.append (.skip (hc ▸ hsep)))
    simpa [Phrase.parts] using this
  | separated _ _ ih ih' => simpa [Phrase.parts] using ih.append ih'
  | listedClosed _ ih | listedOpen _ ih | paramsResult _ ih | typeResult _ ih => exact ih
  -- operands
  | identExpr _ ih | literalExpr _ ih => exact .joined ih (Visit.expr_parts_ne_nil _) rfl
  | typeExpr _ _ ih => exact .joined ih (Visit.expr_parts_ne_nil _) rfl
  | parenExpr hl _ hr ih => exact ih.bracketed hl hr rfl rfl
  -- what is attached to an operand
  | selector hx hd hn ihx ihn =>
    exact .exprNode (.selector hx hd hn) (ihx.append (ihn.skips hd rfl))
  | typeAssert hx hd hl ht hr ihx iht =>
    have hts := iht.append (.marks hr rfl .nil)
    exact .exprNode (.typeAssert hx hd hl ht hr) (ihx.append ((hts.skips hl rfl).skips hd rfl))
  | typeGuard hg hx hd hl hk hr ihx =>
    have hts := (Holds.nil.marks hr rfl).skips hk rfl
    exact .exprNode (.typeGuard hg hx hd hl hk hr) (ihx.append ((hts.skips hl rfl).skips hd rfl))
  | index hx hl hy hr ihx ihy =>
    have hts := ihy.append (.marks hr rfl .nil)
    exact .exprNode (.index hx hl hy hr) (ihx.append (hts.marks hl rfl))
  | slice hx hl hlow hc hhigh hr ihx ihlow ihhigh =>
    have hts := (ihhigh.items rfl).append (.marks hr rfl .nil)
    have hts := (ihlow.items rfl).append (hts.skips hc rfl)
    exact .exprNode (.slice hx hl hlow hc hhigh hr) (ihx.append (hts.marks hl rfl))
  | fullSlice hx hl hlow hc hhigh hc' htop hr ihx ihlow ihhigh ihtop =>
    have hts := ihtop.append (.marks hr rfl .nil)
    have hts := ihhigh.append (hts.skips hc' rfl)
    have hts := (ihlow.items rfl).append (hts.skips hc rfl)
    exact .exprNode (.fullSlice hx hl hlow hc hhigh hc' htop hr) (ihx.append (hts.marks hl rfl))
  | call hx hl hargs hr ihx ihargs =>
    have hts := ihargs.append (.marks hr rfl .nil)
    rw [Phrase.parts, List.append_assoc] at hts
    exact .exprNode (.call hx hl hargs hr) (ihx.append (hts.marks hl rfl))
  | composite hx hopens ht hl hes hr ihx ihes =>
    have hts := (ihes.append (.marks hr rfl .nil)).marks hl rfl
    exact .exprNode (.composite hx hopens ht hl hes hr) ((hx.namesType ihx ht).append hts)
  | plainArguments _ ih =>
    have := ih.items rfl
    rwa [← List.append_nil (List.map _ _)] at this
  | spreadArguments _ hd hcs ih =>
    exact (ih.items rfl).append ((Holds.possibly hcs rfl).marks hd rfl)
  | elided hl hes hr ih =>
    refine .joined ((ih.append (.marks hr rfl .nil)).marks hl rfl) (Visit.expr_parts_ne_nil _) ?_
    exact (Part.hull_through (p := .mark _) (q := .mark _) _).symm
  | part _ ih | value _ ih => exact ih
  | keyed _ hc _ ihk ihv => exact ihk.append (ihv.skips hc rfl)
  -- operators
  | unary ho hx ih =>
    exact .exprNode (.unary ho hx) (ih.marks rfl (UnaryOp.isLeaf_of_ofKind ho))
  | binary hx ho hy ihx ihy =>
    exact .exprNode (.binary hx ho hy) (ihx.append (ihy.marks rfl (BinaryOp.isLeaf_of_ofKind ho)))
  -- types
  | plainName hn ih => exact .typeNode ih (hn.ne_nil rfl)
  | qualifiedName _ hd _ ihp ihn => exact .typeNode (ihp.append (ihn.skips hd rfl)) (by simp)
  | typeName _ ih => exact ih
  | parenType hl _ hr ih => exact ih.bracketed hl hr rfl rfl
  | arrayType hl _ hr _ ihn iht =>
    exact .typeNode ((ihn.append (iht.skips hr rfl)).skips hl rfl) (by simp)
  | sliceType hl hr _ ih => exact .typeNode ((ih.skips hr rfl).skips hl rfl) (by simp)
  | pointerType hs _ ih => exact .typeNode (ih.skips hs rfl) (by simp)
  | mapType hw hl _ hr _ ihk iht =>
    have hts := (ihk.append (iht.skips hr rfl)).skips hl rfl
    exact .typeNode (hts.skips hw rfl) (by simp)
  | chanType hw _ ih | funcType hw _ ih => exact .typeNode (ih.skips hw rfl) (by simp)
  | sendChan hw ha _ ih => exact .typeNode ((ih.skips ha rfl).skips hw rfl) (by simp)
  | receiveChan ha hw _ ih => exact .typeNode ((ih.skips hw rfl).skips ha rfl) (by simp)
  | structType hw hl _ hr ih =>
    exact .typeNode (((ih.items rfl).bracketed hl hr rfl rfl).skips hw rfl) (by simp)
  | interfaceType hw hl _ hr ih =>
    exact .typeNode ((ih.bracketed hl hr rfl rfl).skips hw rfl) (by simp)
  | exprLength _ ih => exact ih
  | dotsLength hd => exact .marks hd rfl .nil
  -- parameters
  | typeParam _ ht ihd iht =>
    exact .spanned ((ihd.items rfl).append iht) (by simp [ht.ne_nil rfl]) rfl (by simp)
  | namedParam _ _ ht ihn ihd iht =>
    refine .spanned ((ihn.items rfl).append ((ihd.items rfl).append iht)) ?_ rfl (by simp)
    simp [ht.ne_nil rfl]
  | params _ _ ih => exact ih.items rfl
  | parameters hl _ hr ih => exact ih.bracketed hl hr rfl rfl
  | signature _ _ ihp ihr => exact ihp.append ihr
  -- fields and methods
  | namedField _ ht _ ihn iht ihg =>
    refine .spanned ((ihn.items rfl).append (iht.append (ihg.items rfl))) ?_ rfl (by simp)
    simp [ht.ne_nil rfl]
  | embeddedField ht _ iht ihg =>
    exact .spanned (iht.append (ihg.items rfl)) (by simp [ht.ne_nil rfl]) rfl (by simp)
  | embeddedName _ ih => exact ih
  | embeddedPointer hs _ ih => exact .typeNode (ih.skips hs rfl) (by simp)
  | tag hv => exact .literal hv
  | methodElement _ _ ihn ihs => exact ihn.append ihs
  | embeddedElement _ ih => exact ih
  -- simple statements
  | rangeOnly _ hw _ ih => exact ih.skips hw rfl
  | labeled _ _ hlabel hc _ ihl ihs =>
    have hl := Holds.names (l := []) (ihl.items rfl) (areNames_of_asLabel hlabel)
    exact hl.append (ihs.skips hc rfl)
  | labeledEmpty _ _ hlabel hc ihl =>
    have hl := Holds.names (l := []) (ihl.items rfl) (areNames_of_asLabel hlabel)
    exact hl.append (.empty (hc ▸ rfl))
  | send _ ha _ ihx ihy => exact ihx.append (ihy.skips ha rfl)
  | step _ ho ih =>
    have := ih.append (.skip (StepOp.isLeaf_of_ofKind ho))
    rwa [List.append_nil] at this
  | shortVar _ hnames hd _ ihl ihv =>
    have hl := Holds.names (l := []) (ihl.items rfl) hnames
    exact hl.append ((ihv.items rfl).marks hd rfl)
  | defineRange _ _ _ hd hw _ ihl ihx =>
    exact (ihl.items rfl).append ((ihx.skips hw rfl).skips hd rfl)
  | assign _ ho _ ihl ihr =>
    exact (ihl.items rfl).append ((ihr.items rfl).marks rfl (AssignOp.isLeaf_of_ofKind ho))
  | assignRange _ _ ha hw _ ihl ihx =>
    exact (ihl.items rfl).append ((ihx.skips hw rfl).skips ha rfl)
  | exprStmt _ ih => exact ih
  -- statements
  | simpleStmt h ih | init h _ ih | post h _ ih => exact .draftNode h ih
  | declStmt h ih | blockStmt h ih => exact .stmtNode ih (h.ne_nil rfl)
  | ifStmt _ ih => exact ih
  | forStmt h ih => exact .stmtNode ih (h.ne_nil rfl)
  | goStmt hw _ ih | deferStmt hw _ ih => exact .stmtNode (ih.skips hw rfl) (by simp)
  | returnNothing hw | fallthroughStmt hw => exact .stmtNode (.skips hw rfl .nil) (by simp)
  | returnStmt hw _ ih => exact .stmtNode ((ih.items rfl).skips hw rfl) (by simp)
  | breakStmt hw _ ih | continueStmt hw _ ih =>
    exact .stmtNode ((ih.items rfl).skips hw rfl) (by simp)
  | gotoStmt hw _ ih => exact .stmtNode (ih.skips hw rfl) (by simp)
  -- blocks
  | skipSemi _ hc ih =>
    have := ih.append (.skips hc rfl .nil)
    rwa [List.append_nil] at this
  | endedStmt _ _ hc ih ihs =>
    have := ih.append (ihs.append (.skips hc rfl .nil))
    simpa [Phrase.parts] using this
  | stmtsClosed _ ih => exact ih
  | stmtsOpen _ _ ih ihs => simpa [Phrase.parts] using ih.append ihs
  | block hl _ hr ih => exact ih.bracketed hl hr rfl rfl
  -- conditionals
  | condOnly _ ih | forCond _ ih => exact ih
  | initCond h hc _ ih ihx => exact (Holds.draftNode h ih).append (ihx.skips hc rfl)
  | conditional hw _ _ _ _ ihh ihb ihe =>
    refine .stmtNode (Holds.skips hw rfl ?_) (by simp)
    have := ihh.append (ihb.append (ihe.items rfl))
    simpa [Phrase.parts, StmtForm.parts] using this
  | elseIf hw _ ih => exact ih.skips hw rfl
  | elseBlock hw h ih => exact (Holds.blockNode h ih).skips hw rfl
  -- loops
  | forRange h ih => exact .draftNode h ih
  | forClause _ hc _ hc' _ ihi ihx ihp =>
    have hts := (ihx.items rfl).append ((ihp.items rfl).skips hc' rfl)
    exact (ihi.items rfl).append (hts.skips hc rfl)
  | loop hw _ _ _ ihh ihb => exact (ihh.append ihb).skips hw rfl
  -- declarations
  | values ha _ ih => exact (ih.items rfl).skips ha rfl
  | constSpec _ _ _ _ ihn iht ihv | varSpec _ _ _ _ ihn iht ihv =>
    exact (ihn.items rfl).append ((iht.items rfl).append (.valueList ihv))
  | typeSpec _ _ _ ihn iha iht => exact ihn.append ((iha.items rfl).append iht)
  | specDecl h ih => exact .declNode ih (h.ne_nil rfl)
  | loneSpec hw _ _ ih => exact .declNode (ih.skips hw (GroupKind.isLeaf_keyword _)) (by simp)
  | specGroup hw hl _ _ hr ih =>
    exact ((ih.items rfl).bracketed hl hr rfl rfl).skips hw (GroupKind.isLeaf_keyword _)
  | func hw _ _ _ ihn ihs ihb =>
    exact .declNode ((ihn.append (ihs.append ihb)).marks hw rfl) (by simp)
  | method hw _ _ _ _ _ ihr ihn ihs ihb =>
    exact .declNode ((ihr.append (ihn.append (ihs.append ihb))).marks hw rfl) (by simp)
  -- imports
  | dotImport hd => exact .marks hd rfl .nil
  | nameImport _ ih => exact ih
  | importPath hv => exact .path hv
  | importSpec _ _ ihn iht => exact ihn.append iht
  | loneImport hw _ ih =>
    refine .declNode (Holds.marks hw rfl ?_) (by simp)
    simpa [Phrase.parts] using ih
  | importGroup hw hl _ hr ih =>
    exact .declNode ((ih.bracketed hl hr rfl rfl).marks hw rfl) (by simp)
  -- files
  | topImport _ ih | topFunction _ ih => exact ih
  | topGroup _ ih => exact ih
  | moreDecls _ _ hcs ih ihm =>
    have := ih.append (ihm.append (.possibly hcs rfl))
    simpa [Phrase.parts] using this
  | file hw _ hcs _ _ ihn ihi ihd =>
    have := ihn.append ((Holds.possibly hcs rfl).append (ihi.append ihd))
    exact .spanned (this.marks hw rfl) (by simp) rfl (by simp)

end GoSource
