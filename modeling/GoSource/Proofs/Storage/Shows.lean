/-
What rows lead to is what stands in their forms.

The handles of a row that reads as a form lead to the nodes that stand in
the form, in the order of a walk, and to no others (`Row.shows`); so do the
handles of an item. Whatever is known of the children of a node can be said
of what is stored, since following handles is going from a node to its
children.
-/
import GoSource.Proofs.Storage.Reader

namespace GoSource.Stored

/-- A node as a stop of a walk. -/
def Form.visit : (k : NodeKind) → Node (Form k) → Visit
  | .decl => .decl
  | .stmt => .stmt
  | .expr => .expr
  | .type => .type
  | .field => .field
  | .param => .param
  | .literal => .literal

/-- The nodes that stand in an item of a list. -/
def Listed.nodes : (k : ListKind) → Listed k → List Visit
  | .idents | .importSpecs | .docLines => fun _ => []
  | .exprs => fun x => [.expr x]
  | .stmts => fun s => [.stmt s]
  | .decls => fun d => [.decl d]
  | .fields => fun f => [.field f]
  | .params => fun p => [.param p]
  | .elements => fun e => e.parts.filterMap Part.node?
  | .interfaceElements => fun e => e.parts.filterMap Part.node?

/-- The nodes that a handle stands for. -/
def Handle.nodes (R : Reader) : Handle → Option (List Visit)
  | node r => (R.node r.kind r.number).map fun x => [Form.visit r.kind x]
  | list k r => (R.list k r).map fun xs => xs.flatMap (Listed.nodes k)
  | text s => (R.text s).map fun _ => []

/-- All the handles read, and these are the nodes that they stand for, one
handle after the other. -/
inductive Shows (R : Reader) : List Handle → List Visit → Prop
  | nil : Shows R [] []
  | cons {h : Handle} {hs : List Handle} {vs ws : List Visit} :
      h.nodes R = some vs → Shows R hs ws → Shows R (h :: hs) (vs ++ ws)

variable {R : Reader} {hs hs' : List Handle} {vs ws : List Visit}

namespace Shows

theorem append (h : Shows R hs vs) (h' : Shows R hs' ws) : Shows R (hs ++ hs') (vs ++ ws) := by
  induction h with
  | nil => exact h'
  | cons hnodes _ ih =>
    rw [List.cons_append, List.append_assoc]
    exact .cons hnodes ih

theorem one {h : Handle} (hvs : h.nodes R = some vs) : Shows R [h] vs := by
  have hone := Shows.nil.cons hvs
  rwa [List.append_nil] at hone

theorem node {k : NodeKind} {i : Nat} {x : Node (Form k)} (hx : R.node k i = some x) :
    Shows R [.node ⟨k, i⟩] [Form.visit k x] :=
  one (Option.map_eq_some_iff.mpr ⟨x, hx, rfl⟩)

theorem list {k : ListKind} {r : ListRef} {xs : List (Listed k)} (hxs : R.list k r = some xs) :
    Shows R [.list k r] (xs.flatMap (Listed.nodes k)) :=
  one (Option.map_eq_some_iff.mpr ⟨xs, hxs, rfl⟩)

theorem text {s : Symbol} {t : String} (ht : R.text s = some t) : Shows R [.text s] [] :=
  one (Option.map_eq_some_iff.mpr ⟨t, ht, rfl⟩)

/-- Something that may be there. -/
theorem optional {α β : Type} {read : β → Option α} {o : Option β} {o' : Option α}
    {f : β → List Handle} {g : α → List Visit} (ho : Stored.optional read o = some o')
    (h : ∀ y x, read y = some x → Shows R (f y) (g x)) :
    Shows R (o.toList.flatMap f) (o'.toList.flatMap g) := by
  cases o with
  | none =>
    obtain rfl := Option.some.inj ho
    exact .nil
  | some y =>
    obtain ⟨x, hx, rfl⟩ := Option.map_eq_some_iff.mp ho
    simpa using h y x hx

theorem optionalNode {k : NodeKind} {o : Option Nat} {o' : Option (Node (Form k))}
    (ho : Stored.optional (R.node k) o = some o') :
    Shows R (o.toList.map fun i => .node ⟨k, i⟩) (o'.toList.map (Form.visit k)) := by
  rw [List.map_eq_flatMap, List.map_eq_flatMap]
  exact optional ho fun _ _ => node

/-- What several items stand for, each by its own handles. -/
theorem flatMap {α β : Type} {read : β → Option α} {ys : List β} {xs : List α}
    {f : β → List Handle} {g : α → List Visit} (hys : ys.mapM read = some xs)
    (h : ∀ y x, read y = some x → Shows R (f y) (g x)) :
    Shows R (ys.flatMap f) (xs.flatMap g) := by
  induction mapM_eq_some_iff.mp hys with
  | nil => exact .nil
  | cons hyx hrest ih => exact (h _ _ hyx).append (ih (mapM_eq_some_iff.mpr hrest))

end Shows

-- ================================================================= parts

theorem flatMap_nothing {α β : Type} (xs : List α) : (xs.flatMap fun _ => ([] : List β)) = [] :=
  List.flatMap_eq_nil_iff.mpr fun _ _ => rfl

/-- Where something is made of what is read. -/
theorem exists_of_into {α β : Type} {o : Option α} {f : α → β} {y : β}
    (h : (o >>= fun x => pure (f x)) = some y) : ∃ x, o = some x ∧ f x = y := by
  obtain ⟨x, hx, hy⟩ := Option.bind_eq_some_iff.mp h
  exact ⟨x, hx, Option.some.inj hy⟩

attribute [local simp] Option.bind_eq_some_iff Function.comp_def Part.node? Form.visit
  List.filterMap_flatMap List.filterMap_cons flatMap_nothing

theorem Ident.shows {n : Ident} {n' : GoSource.Ident} (h : n.read R = some n') :
    Shows R n.handles [] := by
  obtain ⟨t, ht, -⟩ := Option.bind_eq_some_iff.mp h
  exact .text ht

theorem Element.shows {e : Element} {e' : GoSource.Element} (h : e.read R = some e') :
    Shows R e.handles (e'.parts.filterMap Part.node?) := by
  simp [read] at h
  obtain ⟨key, hkey, value, hvalue, rfl⟩ := h
  simpa [handles, GoSource.Element.parts] using (Shows.optionalNode hkey).append (.node hvalue)

theorem ParamList.shows {ps : ParamList} {ps' : GoSource.ParamList} (h : ps.read R = some ps') :
    Shows R ps.handles (ps'.parts.filterMap Part.node?) := by
  simp [read] at h
  obtain ⟨params, hparams, rfl⟩ := h
  simpa [handles, GoSource.ParamList.parts, Listed.nodes, ← List.map_eq_flatMap] using
    Shows.list hparams

theorem FuncResult.shows {r : FuncResult} {r' : GoSource.FuncResult} (h : r.read R = some r') :
    Shows R r.handles (r'.parts.filterMap Part.node?) := by
  cases r with
  | params list =>
    simp [read] at h
    obtain ⟨list', hlist, rfl⟩ := h
    exact list.shows hlist
  | type t =>
    simp [read] at h
    obtain ⟨t', ht, rfl⟩ := h
    exact .node ht

theorem Signature.shows {sig : Signature} {sig' : GoSource.Signature}
    (h : sig.read R = some sig') : Shows R sig.handles (sig'.parts.filterMap Part.node?) := by
  simp [read] at h
  obtain ⟨ps, hps, r, hr, rfl⟩ := h
  simpa [handles, GoSource.Signature.parts] using
    (ParamList.shows hps).append (.optional hr fun _ _ => FuncResult.shows)

theorem InterfaceElement.shows {e : InterfaceElement} {e' : GoSource.InterfaceElement}
    (h : e.read R = some e') : Shows R e.handles (e'.parts.filterMap Part.node?) := by
  cases e with
  | method n sig =>
    simp [read] at h
    obtain ⟨n', hn, sig', hsig, rfl⟩ := h
    exact (Ident.shows hn).append (Signature.shows hsig)
  | embedded t =>
    simp [read] at h
    obtain ⟨t', ht, rfl⟩ := h
    exact .node ht

theorem ArrayLength.shows {length : ArrayLength} {length' : GoSource.ArrayLength}
    (h : length.read R = some length') :
    Shows R length.handles (length'.parts.filterMap Part.node?) := by
  cases length with
  | expr x =>
    simp [read] at h
    obtain ⟨x', hx, rfl⟩ := h
    exact .node hx
  | dots sp =>
    obtain rfl := Option.some.inj h
    exact .nil

theorem ImportSpec.shows {spec : ImportSpec} {spec' : GoSource.ImportSpec}
    (h : spec.read R = some spec') : Shows R spec.handles [] := by
  simp [read] at h
  obtain ⟨n, hn, path, hpath, rfl⟩ := h
  have hname : Shows R (spec.name.toList.flatMap ImportName.handles)
      (n.toList.flatMap fun _ => []) := by
    refine .optional hn fun n n' hn => ?_
    cases n with
    | dot sp => exact .nil
    | name n =>
      obtain ⟨n', hn, -⟩ := Option.bind_eq_some_iff.mp hn
      exact Ident.shows hn
  rw [flatMap_nothing] at hname
  exact hname.append (.text hpath)

theorem Block.shows {b : Block} {b' : GoSource.Block} (h : b.read R = some b') :
    Shows R b.handles (b'.parts.filterMap Part.node?) := by
  simp [read] at h
  obtain ⟨ss, hss, rfl⟩ := h
  simpa [handles, GoSource.Block.parts, Listed.nodes, ← List.map_eq_flatMap] using Shows.list hss

theorem ForHeader.shows {header : ForHeader} {header' : GoSource.ForHeader}
    (h : header.read R = some header') :
    Shows R header.handles (header'.parts.filterMap Part.node?) := by
  cases header with
  | infinite =>
    obtain rfl := Option.some.inj h
    exact .nil
  | cond x =>
    simp [read] at h
    obtain ⟨x', hx, rfl⟩ := h
    exact .node hx
  | clause init test post =>
    simp [read] at h
    obtain ⟨init', hinit, test', htest, post', hpost, rfl⟩ := h
    simpa [handles, GoSource.ForHeader.parts] using (Shows.optionalNode hinit).append
      ((Shows.optionalNode htest).append (.optionalNode hpost))
  | range s =>
    simp [read] at h
    obtain ⟨s', hs, rfl⟩ := h
    exact .node hs

theorem Expr.shows {x : Expr} {form : ExprForm} (h : x.read R = some form) :
    Shows R x.handles (form.parts.filterMap Part.node?) := by
  cases x with
  | ident n =>
    simp [read] at h
    obtain ⟨n', hn, rfl⟩ := h
    exact Ident.shows hn
  | literal l =>
    simp [read] at h
    obtain ⟨l', hl, rfl⟩ := h
    exact .node hl
  | composite t elements lBrace rBrace =>
    simp [read] at h
    obtain ⟨t', ht, es, hes, rfl⟩ := h
    simpa [handles, ExprForm.parts, Listed.nodes] using (Shows.optionalNode ht).append (.list hes)
  | index x lBrack i rBrack =>
    simp [read] at h
    obtain ⟨x', hx, i', hi, rfl⟩ := h
    exact (Shows.node hx).append (.node hi)
  | slice x lBrack low high max rBrack =>
    simp [read] at h
    obtain ⟨x', hx, low', hlow, high', hhigh, max', hmax, rfl⟩ := h
    simpa [handles, ExprForm.parts] using (Shows.node hx).append ((Shows.optionalNode hlow).append
      ((Shows.optionalNode hhigh).append (.optionalNode hmax)))
  | typeAssert x t rParen =>
    simp [read] at h
    obtain ⟨x', hx, t', ht, rfl⟩ := h
    simpa [handles, ExprForm.parts] using (Shows.node hx).append (.optionalNode ht)
  | selector x n =>
    simp [read] at h
    obtain ⟨x', hx, n', hn, rfl⟩ := h
    exact (Shows.node hx).append (Ident.shows hn)
  | call f lParen args dots rParen =>
    simp [read] at h
    obtain ⟨f', hf, xs, hxs, rfl⟩ := h
    simpa [handles, ExprForm.parts, Listed.nodes, ← List.map_eq_flatMap] using
      (Shows.node hf).append (.list hxs)
  | binary op sp left right =>
    simp [read] at h
    obtain ⟨left', hleft, right', hright, rfl⟩ := h
    exact (Shows.node hleft).append (.node hright)
  | unary op sp x =>
    simp [read] at h
    obtain ⟨x', hx, rfl⟩ := h
    exact .node hx
  | type t =>
    simp [read] at h
    obtain ⟨t', ht, rfl⟩ := h
    exact .node ht

theorem TypeExpr.shows {t : TypeExpr} {form : TypeForm} (h : t.read R = some form) :
    Shows R t.handles (form.parts.filterMap Part.node?) := by
  cases t with
  | name pkg n =>
    simp [read] at h
    obtain ⟨pkg', hpkg, n', hn, rfl⟩ := h
    have hnames := (Shows.optional hpkg fun _ _ => Ident.shows).append (Ident.shows hn)
    cases pkg' <;> exact hnames
  | array length t =>
    simp [read] at h
    obtain ⟨length', hlength, t', ht, rfl⟩ := h
    simpa [handles, TypeForm.parts] using (ArrayLength.shows hlength).append (.node ht)
  | slice t | pointer t | chan dir t =>
    simp [read] at h
    obtain ⟨t', ht, rfl⟩ := h
    exact .node ht
  | map key t =>
    simp [read] at h
    obtain ⟨key', hkey, t', ht, rfl⟩ := h
    exact (Shows.node hkey).append (.node ht)
  | func sig =>
    simp [read] at h
    obtain ⟨sig', hsig, rfl⟩ := h
    exact Signature.shows hsig
  | struct fields =>
    simp [read] at h
    obtain ⟨fs, hfs, rfl⟩ := h
    simpa [handles, TypeForm.parts, Listed.nodes, ← List.map_eq_flatMap] using Shows.list hfs
  | interface elements =>
    simp [read] at h
    obtain ⟨es, hes, rfl⟩ := h
    simpa [handles, TypeForm.parts, Listed.nodes] using Shows.list hes

theorem Field.shows {f : Field} {form : FieldForm} (h : f.read R = some form) :
    Shows R f.handles (form.parts.filterMap Part.node?) := by
  simp [read] at h
  obtain ⟨ns, hns, t, ht, tag, htag, rfl⟩ := h
  simpa [handles, FieldForm.parts, Listed.nodes] using
    (Shows.list hns).append ((Shows.node ht).append (.optionalNode htag))

theorem Param.shows {p : Param} {form : ParamForm} (h : p.read R = some form) :
    Shows R p.handles (form.parts.filterMap Part.node?) := by
  simp [read] at h
  obtain ⟨ns, hns, t, ht, rfl⟩ := h
  simpa [handles, ParamForm.parts, Listed.nodes] using (Shows.list hns).append (.node ht)

theorem Decl.shows {d : Decl} {form : DeclForm} (h : d.read R = some form) :
    Shows R d.handles (form.parts.filterMap Part.node?) := by
  cases d with
  | imports d =>
    obtain ⟨d', hd, rfl⟩ := exists_of_into h
    simp [ImportDecl.read] at hd
    obtain ⟨lines, hdoc, specs, hspecs, rfl⟩ := hd
    have hnone : specs.flatMap (fun s => s.parts.filterMap Part.node?) = [] := by
      refine List.flatMap_eq_nil_iff.mpr fun s _ => ?_
      obtain ⟨_ | _ | _, path, sp⟩ := s <;> rfl
    simpa [handles, DeclForm.parts, Listed.nodes, hnone] using
      (Shows.list hdoc).append (.list hspecs)
  | const c =>
    obtain ⟨c', hc, rfl⟩ := exists_of_into h
    simp [ConstSpec.read] at hc
    obtain ⟨lines, hdoc, ns, hns, t, ht, values, hvalues, rfl⟩ := hc
    simpa [handles, DeclForm.parts, Listed.nodes, ← List.map_eq_flatMap] using
      (Shows.list hdoc).append ((Shows.list hns).append ((Shows.optionalNode ht).append
        (.list hvalues)))
  | var v =>
    obtain ⟨v', hv, rfl⟩ := exists_of_into h
    simp [VarSpec.read] at hv
    obtain ⟨lines, hdoc, ns, hns, t, ht, values, hvalues, rfl⟩ := hv
    simpa [handles, DeclForm.parts, Listed.nodes, ← List.map_eq_flatMap] using
      (Shows.list hdoc).append ((Shows.list hns).append ((Shows.optionalNode ht).append
        (.list hvalues)))
  | type t =>
    obtain ⟨t', ht, rfl⟩ := exists_of_into h
    simp [TypeSpec.read] at ht
    obtain ⟨lines, hdoc, n, hn, type, htype, rfl⟩ := ht
    simpa [handles, DeclForm.parts, Listed.nodes] using
      (Shows.list hdoc).append ((Ident.shows hn).append (.node htype))
  | func f =>
    obtain ⟨f', hf, rfl⟩ := exists_of_into h
    simp [FunctionDecl.read] at hf
    obtain ⟨lines, hdoc, n, hn, sig, hsig, body, hbody, rfl⟩ := hf
    simpa [handles, DeclForm.parts, Listed.nodes] using
      (Shows.list hdoc).append ((Ident.shows hn).append ((Signature.shows hsig).append
        (.optional hbody fun _ _ => Block.shows)))
  | method f =>
    obtain ⟨f', hf, rfl⟩ := exists_of_into h
    simp [MethodDecl.read] at hf
    obtain ⟨lines, hdoc, ps, hps, n, hn, sig, hsig, body, hbody, rfl⟩ := hf
    simpa [handles, DeclForm.parts, Listed.nodes] using
      (Shows.list hdoc).append ((ParamList.shows hps).append ((Ident.shows hn).append
        ((Signature.shows hsig).append (.optional hbody fun _ _ => Block.shows))))

theorem Stmt.shows {s : Stmt} {form : StmtForm} (h : s.read R = some form) :
    Shows R s.handles (form.parts.filterMap Part.node?) := by
  cases s with
  | empty | fallthroughStmt =>
    obtain rfl := Option.some.inj h
    exact .nil
  | decl ds =>
    simp [read] at h
    obtain ⟨ds', hds, rfl⟩ := h
    simpa [handles, StmtForm.parts, Listed.nodes, ← List.map_eq_flatMap] using Shows.list hds
  | returnStmt xs =>
    simp [read] at h
    obtain ⟨xs', hxs, rfl⟩ := h
    simpa [handles, StmtForm.parts, Listed.nodes, ← List.map_eq_flatMap] using Shows.list hxs
  | expr x | step x op | goStmt x | deferStmt x =>
    simp [read] at h
    obtain ⟨x', hx, rfl⟩ := h
    exact .node hx
  | assign left op sp right =>
    simp [read] at h
    obtain ⟨left', hleft, right', hright, rfl⟩ := h
    simpa [handles, StmtForm.parts, Listed.nodes, ← List.map_eq_flatMap] using
      (Shows.list hleft).append (.list hright)
  | shortVar names sp values =>
    simp [read] at h
    obtain ⟨names', hnames, values', hvalues, rfl⟩ := h
    simpa [handles, StmtForm.parts, Listed.nodes, ← List.map_eq_flatMap] using
      (Shows.list hnames).append (.list hvalues)
  | range left define x =>
    simp [read] at h
    obtain ⟨left', hleft, x', hx, rfl⟩ := h
    simpa [handles, StmtForm.parts, Listed.nodes, ← List.map_eq_flatMap] using
      (Shows.list hleft).append (.node hx)
  | send x y =>
    simp [read] at h
    obtain ⟨x', hx, y', hy, rfl⟩ := h
    exact (Shows.node hx).append (.node hy)
  | labeled label s =>
    simp [read] at h
    obtain ⟨label', hlabel, s', hs, rfl⟩ := h
    exact (Ident.shows hlabel).append (.node hs)
  | block b =>
    simp [read] at h
    obtain ⟨b', hb, rfl⟩ := h
    exact Block.shows hb
  | ifStmt init x body other =>
    simp [read] at h
    obtain ⟨init', hinit, x', hx, body', hbody, other', hother, rfl⟩ := h
    simpa [handles, StmtForm.parts] using (Shows.optionalNode hinit).append
      ((Shows.node hx).append ((Block.shows hbody).append (.optionalNode hother)))
  | forStmt header body =>
    simp [read] at h
    obtain ⟨header', hheader, body', hbody, rfl⟩ := h
    simpa [handles, StmtForm.parts] using (ForHeader.shows hheader).append (Block.shows hbody)
  | breakStmt label | continueStmt label =>
    simp [read] at h
    obtain ⟨label', hlabel, rfl⟩ := h
    have hnames := Shows.optional hlabel fun _ _ => Ident.shows
    cases label' <;> exact hnames
  | gotoStmt label =>
    simp [read] at h
    obtain ⟨label', hlabel, rfl⟩ := h
    exact Ident.shows hlabel

theorem File.shows {f : File} {f' : GoSource.File} (h : f.read R = some f') :
    Shows R f.handles (f'.parts.filterMap Part.node?) := by
  simp [read] at h
  obtain ⟨n, hn, is, his, ds, hds, rfl⟩ := h
  simpa [handles, GoSource.File.parts, Listed.nodes, ← List.map_eq_flatMap] using
    (Ident.shows hn).append ((Shows.list his).append (.list hds))

-- ========================================================= rows and items

/-- The handles of a row lead to the children of its node. -/
theorem Row.shows {k : NodeKind} {row : Row k} {x : Node (Form k)}
    (h : Row.read R k row = some x.form) :
    Shows R (Row.handles k row) (Form.visit k x).children := by
  cases k with
  | decl => exact Decl.shows h
  | stmt => exact Stmt.shows h
  | expr => exact Expr.shows h
  | type => exact TypeExpr.shows h
  | field => exact Field.shows h
  | param => exact Param.shows h
  | literal => exact .nil

theorem Item.shows {k : ListKind} {item : Item k} {x : Listed k}
    (h : Item.read R k item = some x) : Shows R (Item.handles k item) (Listed.nodes k x) := by
  cases k with
  | idents => exact Ident.shows h
  | elements => exact Element.shows h
  | interfaceElements => exact InterfaceElement.shows h
  | importSpecs => exact ImportSpec.shows h
  | docLines => exact .nil
  | exprs | stmts | decls | fields | params => exact .node h

end GoSource.Stored
