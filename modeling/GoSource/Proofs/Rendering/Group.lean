/-
Groups of declarations read back from their renderings.

In a rendering every spec stands in a group, and has its type and its
values in parentheses. What comes after the names tells which of the two
there are, by a parenthesis or an `=`.

A constant knows its place in its group, which no token tells. So the
specs of a group come back together only, and if they are numbered by
their places (`group_rereads`).
-/
import GoSource.Proofs.Rendering.Statement

namespace GoSource

open GoSource.Parser

variable {parse : SubParser} {h : Bool} {F : Token → Prop} {i : Nat} {sp : Span}

-- ======================================================= what comes back

/-- A spec comes back as the one that has that place in a group. -/
def SpecRereads (parse : SubParser) (k : GroupKind) (place : Nat) (d : Decl) : Prop :=
  (Grammar.listedSpec parse k place).Rereads false (Render.spec d.form) (·.kind = .semi)
    fun d' => Bare.decl d' = Bare.decl d

/-- The specs of a group with its keyword. -/
def GroupRereads (parse : SubParser) (k : GroupKind) (ds : List Decl) : Prop :=
  ∀ h F, (parse (.group k)).Rereads h
    (.kind k.keyword :: Render.parens (Render.ended .semi (ds.map (Render.spec ·.form)))) F
    fun ds' => ds'.map Bare.decl = ds.map Bare.decl

theorem Parser.Rereads.newDecl {form form' : DeclForm} {sp' : Span}
    (hform : Bare.declForm form' = Bare.declForm form) :
    (Parser.newDecl form' sp').Rereads h [] F fun d => Bare.decl d = Bare.decl ⟨i, sp, form⟩ :=
  building fun _ => congrArg (Node.mk 0 .nowhere) hform

theorem Parser.Rereads.bind_doc {β : Type} {start : Location} {f : List String → Parser β}
    {ss : List Slot} {P : β → Prop} (hf : ∀ lines, (f lines).Rereads h ss F P) :
    (doc start >>= f).Rereads h ss F P := by
  refine bind_taking_none (R := fun _ => True) ?_ fun lines _ => hf lines
  exact bind_docLines fun _ => bind_recording (pure trivial)

theorem Render.optionalParens_some (t : TypeExpr) :
    optionalParens (some t) = parens (typeExpr t) :=
  List.append_nil _

namespace Grammar

-- ================================================================ parts

/-- What comes after the names of constants or variables. -/
theorem leads_spec {t : Option TypeExpr} {xs : List Expr} {tok : Token}
    (htok : Leads (Render.optionalParens t ++ Render.values xs) (·.kind = .semi) tok) :
    tok.kind ≠ .comma := by
  have hkind : tok.kind = .lParen ∨ tok.kind = .assign ∨ tok.kind = .semi := by
    cases t with
    | some t => exact .inl htok.2
    | none =>
      cases xs with
      | nil => exact .inr (.inr htok)
      | cons x xs => exact .inr (.inl htok.2)
  obtain hk | hk | hk := hkind <;> rw [hk] <;> decide

theorem leads_values {xs : List Expr} {tok : Token}
    (htok : Leads (Render.values xs) (·.kind = .semi) tok) :
    tok.kind = .assign ∨ tok.kind = .semi := by
  cases xs with
  | nil => exact .inr htok
  | cons x xs => exact .inl htok.2

theorem initializer_rereads {xs : List Expr} (hxs : ∀ x ∈ xs, ExprInParens parse h x) :
    (initializer parse).Rereads h (Render.values xs) (·.kind = .semi)
      fun o => (o.getD []).map Bare.expr = xs.map Bare.expr ∧ (o = none ↔ xs = []) := by
  cases xs with
  | nil =>
    refine .bind_eat_none (fun t ht => ?_) (.pure ⟨rfl, by simp⟩)
    rw [show t.kind = .semi from ht]
    decide
  | cons x xs =>
    refine .bind_eat fun _ => .map ((exprList_rereads (List.cons_ne_nil _ _) hxs
      (fun _ _ t ht => .of_kind ht rfl) fun t ht => ?_).imp (fun _ ht => ht) fun ys hys => ?_)
    · rw [ht]
      decide
    · exact ⟨hys, by simp⟩

/-- Constants may have neither a type nor values. -/
theorem constType_rereads {t : Option TypeExpr} (ht : ∀ u ∈ t, TypeInParens parse u) :
    (constType parse).Rereads h (Render.optionalParens t)
      (fun tok => tok.kind = .assign ∨ tok.kind = .semi)
      fun t' => t'.map Bare.typeExpr = t.map Bare.typeExpr := by
  cases t with
  | none =>
    refine .bind_kind fun tok htok => ?_
    obtain hk | hk := htok
    · rw [hk]
      exact .pure rfl
    · rw [hk]
      exact .pure rfl
  | some u =>
    rw [Render.optionalParens_some]
    refine .bind_kind_at (.map ((ht u rfl h).imp (fun _ _ => trivial) fun u' hu => ?_))
    exact congrArg some hu

theorem constSpec_rereads {ns : List Ident} {t : Option TypeExpr} {xs : List Expr} {iota : Nat}
    {lines lines' : List String} (hne : ns ≠ []) (ht : ∀ u ∈ t, TypeInParens parse u)
    (hxs : ∀ x ∈ xs, ExprInParens parse h x) (hrepeats : xs = [] → t = none ∧ iota ≠ 0) :
    (constSpec parse lines' iota).Rereads h (Render.spec (.const ⟨lines, ns, t, xs, iota⟩))
      (·.kind = .semi)
      fun s => Bare.declForm (.const s) = Bare.declForm (.const ⟨lines, ns, t, xs, iota⟩) := by
  refine .bind (names_rereads hne fun _ htok => htok) (fun _ => leads_spec) fun ns' hns => ?_
  refine .bind (constType_rereads ht) (fun _ => leads_values) fun t' ht' => ?_
  refine .bind_last (initializer_rereads hxs) fun o ⟨ho, hnone⟩ => ?_
  have hfinish : ∀ ys : List Expr, ys.map Bare.expr = xs.map Bare.expr →
      (recording (·.addIdents ns') >>= fun _ => recording (·.addExprs ys) >>= fun _ =>
        pure (ConstSpec.mk lines' ns' t' ys iota)).Rereads h [] (·.kind = .semi)
        fun s => Bare.declForm (.const s) = Bare.declForm (.const ⟨lines, ns, t, xs, iota⟩) := by
    intro ys hys
    refine .bind_recording (.bind_recording (.pure ?_))
    rw [Bare.declForm, Bare.declForm, hns, ht', hys]
  cases o with
  | some ys => exact hfinish ys ho
  | none =>
    obtain ⟨rfl, hiota⟩ := hrepeats (hnone.mp rfl)
    obtain rfl : t' = none := Option.map_eq_none_iff.mp ht'
    dsimp only
    rw [if_neg (by simp [hiota])]
    exact hfinish [] ho

theorem varSpec_rereads {ns : List Ident} {t : Option TypeExpr} {xs : List Expr}
    {lines lines' : List String} (hne : ns ≠ []) (ht : ∀ u ∈ t, TypeInParens parse u)
    (hxs : ∀ x ∈ xs, ExprInParens parse h x) (hknown : xs = [] → t ≠ none) :
    (varSpec parse lines').Rereads h (Render.spec (.var ⟨lines, ns, t, xs⟩)) (·.kind = .semi)
      fun s => Bare.declForm (.var s) = Bare.declForm (.var ⟨lines, ns, t, xs⟩) := by
  refine .bind (names_rereads hne fun _ htok => htok) (fun _ => leads_spec) fun ns' hns => ?_
  have hrest : ∀ t' : Option TypeExpr, t'.map Bare.typeExpr = t.map Bare.typeExpr →
      (initializer parse >>= fun o => recording (·.addIdents ns') >>= fun _ =>
        recording (·.addExprs (o.getD [])) >>= fun _ =>
          pure (VarSpec.mk lines' ns' t' (o.getD []))).Rereads h (Render.values xs) (·.kind = .semi)
        fun s => Bare.declForm (.var s) = Bare.declForm (.var ⟨lines, ns, t, xs⟩) := by
    intro t' ht'
    refine .bind_last (initializer_rereads hxs) fun o ⟨ho, _⟩ => ?_
    refine .bind_recording (.bind_recording (.pure ?_))
    rw [Bare.declForm, Bare.declForm, hns, ht', ho]
  cases t with
  | none =>
    -- Without a type the values follow.
    obtain ⟨x, xs, rfl⟩ := List.exists_cons_of_ne_nil fun hnil => hknown hnil rfl
    exact .ifAt (fun _ htok => htok.2) (.bind_pure (hrest none rfl))
  | some u =>
    rw [Render.optionalParens_some]
    refine .ifNotAt (fun _ => leads_ne (k := .lParen) (by decide)) ?_
    exact .bind_map (ht u rfl h) (fun _ _ => trivial)
      fun u' hu => hrest (some u') (congrArg some hu)

theorem typeSpec_rereads {n : Ident} {assign : Option Span} {t : TypeExpr}
    {lines lines' : List String} (ht : TypeInParens parse t) :
    (typeSpec parse lines').Rereads h (Render.spec (.type ⟨lines, n, assign, t⟩)) F
      fun s => Bare.declForm (.type s) = Bare.declForm (.type ⟨lines, n, assign, t⟩) := by
  have hrest : ∀ (n' : Ident) (assign' : Option Span), Bare.ident n' = Bare.ident n →
      Bare.mark assign' = Bare.mark assign →
      (parse .type >>= fun t' => pure (TypeSpec.mk lines' n' assign' t')).Rereads h
        (Render.parens (Render.typeExpr t)) F
        fun s => Bare.declForm (.type s) = Bare.declForm (.type ⟨lines, n, assign, t⟩) := by
    intro n' assign' hn hassign
    refine .bind_last ((ht h).before fun _ _ => trivial) fun t' ht' => .pure ?_
    rw [Bare.declForm, Bare.declForm, hn, hassign, ht']
  refine .bind (G := fun _ => True) ident_rereads (fun _ _ => trivial)
    fun n' hn => ?_
  cases assign with
  | none =>
    exact .bind_eat_none (fun _ => leads_ne (k := .lParen) (by decide)) (hrest n' none hn rfl)
  | some sp => exact .bind_eat fun sp' => hrest n' (some sp') hn rfl

-- =============================================================== groups

theorem listedSpec_rereads {k : GroupKind} {place : Nat} {form : DeclForm}
    (hform : ∀ lines start, (spec parse k lines start place).Rereads false (Render.spec form) F
      fun d => Bare.decl d = Bare.decl ⟨i, sp, form⟩) :
    (listedSpec parse k place).Rereads false (Render.spec form) F
      fun d => Bare.decl d = Bare.decl ⟨i, sp, form⟩ :=
  .bind_here fun start => .bind_doc fun lines => hform lines start

/-- A spec of whatever kind becomes a declaration. -/
theorem finishSpec_rereads {α : Type} {p : Parser α} {g : α → DeclForm} {start : Location}
    {ss : List Slot} {form : DeclForm}
    (hp : p.Rereads h ss F fun a => Bare.declForm (g a) = Bare.declForm form) :
    (g <$> p >>= fun form' => spanFrom start >>= newDecl form').Rereads h ss F
      fun d => Bare.decl d = Bare.decl ⟨i, sp, form⟩ :=
  .bind_last (.map hp) fun _ hform => .bind_spanFrom fun _ => .newDecl hform

/-- No spec begins like the end of a group. -/
theorem leads_name {n : String} {ss : List Slot} {tok : Token}
    (htok : Leads (.name n :: ss) F tok) : tok.kind ≠ .rParen := by
  rw [show tok.kind = .ident from htok.2.1]
  decide

theorem group_rereads {k : GroupKind} {ds : List Decl}
    (hds : ∀ place d, ds[place]? = some d → SpecRereads parse k place d)
    (hopen : ∀ d ∈ ds, ∀ t, Leads (Render.spec d.form) (·.kind = .semi) t → t.kind ≠ .rParen) :
    (group parse k).Rereads h
      (.kind k.keyword :: Render.parens (Render.ended .semi (ds.map (Render.spec ·.form)))) F
      fun ds' => ds'.map Bare.decl = ds.map Bare.decl := by
  refine .bind_here fun start => .bind_docLines fun lines => .bind_advance fun _ _ => ?_
  refine .bind_eat fun _ => ?_
  refine .bind (.unrestricted (itemsUntil_rereads hds hopen fun _ ht => ht)) (fun _ ht => ht.2)
    fun ds' hds' => ?_
  exact .bind_expect fun _ => .pure hds'

end Grammar

namespace Always

variable {t : Option TypeExpr} {xs : List Expr} {ns : List Ident} {lines : List String}

/-- A type that may be missing. -/
theorem optionalType (ht : ∀ u ∈ t, Always (TypeRereads · u)) :
    Always fun parse => ∀ u ∈ t, TypeInParens parse u :=
  .option fun u hu => (ht u hu).typeInParens

theorem constSpec {iota : Nat} (hne : ns ≠ []) (ht : ∀ u ∈ t, Always (TypeRereads · u))
    (hxs : ∀ x ∈ xs, Always (ExprRereads · x)) (hrepeats : xs = [] → t = none ∧ iota ≠ 0) :
    Always (SpecRereads · .const iota ⟨i, sp, .const ⟨lines, ns, t, xs, iota⟩⟩) :=
  ((optionalType ht).and (inParensAll hxs false)).imp fun _ ⟨ht, hxs⟩ =>
    Grammar.listedSpec_rereads fun _ _ =>
      Grammar.finishSpec_rereads (Grammar.constSpec_rereads hne ht hxs hrepeats)

theorem varSpec {place : Nat} (hne : ns ≠ []) (ht : ∀ u ∈ t, Always (TypeRereads · u))
    (hxs : ∀ x ∈ xs, Always (ExprRereads · x)) (hknown : xs = [] → t ≠ none) :
    Always (SpecRereads · .var place ⟨i, sp, .var ⟨lines, ns, t, xs⟩⟩) :=
  ((optionalType ht).and (inParensAll hxs false)).imp fun _ ⟨ht, hxs⟩ =>
    Grammar.listedSpec_rereads fun _ _ =>
      Grammar.finishSpec_rereads (Grammar.varSpec_rereads hne ht hxs hknown)

theorem typeSpec {place : Nat} {n : Ident} {assign : Option Span} {t : TypeExpr}
    (ht : Always (TypeRereads · t)) :
    Always (SpecRereads · .type place ⟨i, sp, .type ⟨lines, n, assign, t⟩⟩) :=
  ht.typeInParens.imp fun _ ht => Grammar.listedSpec_rereads fun _ _ =>
    Grammar.finishSpec_rereads (Grammar.typeSpec_rereads ht)

theorem group {k : GroupKind} {ds : List Decl}
    (hds : ∀ place d, ds[place]? = some d → Always (SpecRereads · k place d))
    (hopen : ∀ d ∈ ds, ∀ F t, Leads (Render.spec d.form) F t → t.kind ≠ .rParen) :
    Always (GroupRereads · k ds) := by
  have hall : Always fun parse => ∀ place ∈ List.range ds.length, ∀ d, ds[place]? = some d →
      SpecRereads parse k place d := by
    refine all (P := fun place parse => ∀ d, ds[place]? = some d → SpecRereads parse k place d)
      fun place hplace => ?_
    have hd := List.getElem?_eq_getElem (List.mem_range.mp hplace)
    refine (hds place _ hd).imp fun _ hspec d hd' => ?_
    obtain rfl := Option.some.inj (hd.symm.trans hd')
    exact hspec
  refine hall.deeper fun _ hall _ _ => .production (Grammar.group_rereads (fun place d hd => ?_)
    fun d hd t => hopen d hd _ t)
  exact hall place (List.mem_range.mpr (List.getElem?_eq_some_iff.mp hd).1) d hd

end Always

end GoSource
