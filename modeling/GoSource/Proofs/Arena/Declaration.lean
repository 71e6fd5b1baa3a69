/-
What declarations and files build, and with them every production.

The comments of a declaration are recorded where it begins, its names and
values where it ends. A production that runs out of nesting builds
nothing, and any other does what its body does, so all of them build what
they should by induction on how deep they may nest (`parse_builds`).
-/
import GoSource.Proofs.Arena.Statement

namespace GoSource

open GoSource.Parser Renumber

variable {δ : NodeKind → Nat} {a₀ a : Arena}

namespace Grammar

attribute [local simp] declForm constSpec varSpec typeSpec DeclForm.parts DeclForm.lists

-- ============================================================== imports

theorem importName_builds : Builds δ id importName importName a
    fun n b => Held a b (n.toList.flatMap ImportName.parts) [] := by
  refine .bind_look fun kind => ?_
  split
  · exact .bind_look fun _ => .pure ((Held.nil (.refl a)).congr rfl (by simp)) rfl
  · exact .bind .ident fun n b hn => .pure hn rfl
  · exact .pure (.nil (.refl a)) rfl

theorem importPath_builds : Builds δ id importPath importPath a
    fun r b => Held a b [.path r.1 r.2] [] := by
  refine .bind_look fun kind => ?_
  split
  iterate 2
    refine .bind_look fun r => ?_
    obtain ⟨value, sp⟩ := r
    cases value with
    | string bytes =>
      refine .bind .addName fun _ b hb => .pure ?_ rfl
      exact .of_keeps hb.1 (List.forall_mem_singleton.mpr hb.2) rfl
    | _ => exact .unexpectedAt
  exact .unexpected

theorem importSpec_builds : Builds δ id importSpec importSpec a
    fun spec b => Held a b spec.parts [] :=
  .bind importName_builds fun _ _ hn => .bind importPath_builds fun _ _ h => .pure (hn.append h) rfl

theorem importDecl_builds : Builds δ (decl δ) importDecl importDecl a
    fun d b => Held a b [.decl d] [] := by
  refine .bind_look fun start => .bind .doc fun lines b hlines => .bind_look fun kw => ?_
  have finish : ∀ (specs : List ImportSpec) (c : Arena),
      Held b c (specs.flatMap ImportSpec.parts) [] →
      Builds δ (decl δ)
        (do
          recording (·.addImportSpecs specs)
          newDecl (.imports ⟨lines, kw, specs⟩) (← spanFrom start))
        (do
          recording (·.addImportSpecs specs)
          newDecl (.imports ⟨lines, kw, specs⟩) (← spanFrom start)) c
        fun d e => Held a e [.decl d] [] := by
    intro specs c h
    refine .bind_list (c.addImportSpecs_adds specs) (·.addImportSpecs_adds specs) h (by simp)
      (by simp) fun e h => .bind_look fun sp => ?_
    refine .newDecl ((hlines.append h).congr ?_ ?_) rfl
    · simp
    · simp
  refine .bind_look fun o => ?_
  cases o with
  | some sp =>
    refine .bind (itemsUntil_builds (g := id) (l := fun _ => []) fun _ => importSpec_builds)
      fun specs c h => .bind_look fun _ => ?_
    rw [List.map_id]
    exact finish specs c (h.congr rfl nofun)
  | none => exact .bind importSpec_builds fun spec c h => finish [spec] c (by simpa using h)

theorem names_builds :
    Builds δ id (commaSeparated Parser.ident) (commaSeparated Parser.ident) a
      fun names b => Held a b (names.map .name) [] := by
  have h := commaSeparated_builds (δ := δ) (a := a) (g := id) (l := fun _ => []) .ident
  rw [List.map_id_fun] at h
  exact h.imp fun names b hnames => hnames.each

section

variable {parse : SubParser} (hp : parse.Builds δ)

include hp

-- ================================================================ specs

theorem initializer_builds :
    Builds δ (Option.map (List.map (expr δ))) (initializer parse) (initializer parse) a
      fun values b => Held a b ((values.getD []).map .expr) [] := by
  refine .bind_look fun o => ?_
  cases o with
  | none => exact .pure (.nil (.refl a)) rfl
  | some sp => exact .map (exprList_builds hp) fun xs b hxs => ⟨hxs, rfl⟩

theorem constType_builds :
    Builds δ (Option.map (typeExpr δ)) (constType parse) (constType parse) a
      fun t b => Held a b (t.toList.map .type) [] := by
  refine .bind_look fun kind => ?_
  split
  iterate 4 exact .pure (.nil (.refl a)) rfl
  exact .map hp.type fun t b ht => ⟨ht, rfl⟩

omit hp in
/-- The lists of names and values, once all that stands in a spec is held. -/
theorem finishValues_builds {α : Type} {g : α → α} {ps : List Part} {ls : List Listing}
    {names : List Ident} {values : List Expr} {x y : α} {Q : α → Arena → Prop}
    (h : Held a₀ a ps ls) (hnames : names.map .name ⊆ ps) (hvalues : values.map .expr ⊆ ps)
    (hx : ∀ b, Held a₀ b ps (.exprs values :: .idents names :: ls) → Q x b) (hy : y = g x) :
    Builds δ g
      (do
        recording (·.addIdents names)
        recording (·.addExprs values)
        Pure.pure x)
      (do
        recording (·.addIdents names)
        recording (·.addExprs (values.map (expr δ)))
        Pure.pure y) a Q := by
  refine .bind_list (a.addIdents_adds names) (·.addIdents_adds names) h ?_ ?_ fun b h => ?_
  · simpa using hnames
  · simp
  refine .bind_list (b.addExprs_adds values) (·.addExprs_adds _) h ?_ ?_ fun c h => ?_
  · simpa using hvalues
  · simp
  exact .pure (hx c h) hy

variable {lines : List String}

theorem constSpec_builds {iota : Nat} (h : Held a₀ a [] [.docLines lines]) :
    Builds δ (Renumber.constSpec δ) (Grammar.constSpec parse lines iota)
      (Grammar.constSpec parse lines iota) a
      fun c b => Held a₀ b (DeclForm.const c).parts (DeclForm.const c).lists := by
  refine .bind names_builds fun names b hnames => .bind (constType_builds hp) fun t c ht => ?_
  refine .bind (initializer_builds hp) fun values d hvalues => ?_
  have finish : ∀ values : List Expr, Held c d (values.map .expr) [] →
      Builds δ (Renumber.constSpec δ)
        (do
          recording (·.addIdents names)
          recording (·.addExprs values)
          Pure.pure ⟨lines, names, t, values, iota⟩)
        (do
          recording (·.addIdents names)
          recording (·.addExprs (values.map (expr δ)))
          Pure.pure ⟨lines, names, t.map (typeExpr δ), values.map (expr δ), iota⟩)
        d fun c b => Held a₀ b (DeclForm.const c).parts (DeclForm.const c).lists := by
    intro values hvalues
    refine finishValues_builds (h.append (hnames.append (ht.append hvalues))) ?_ ?_ ?_ rfl
    · simp
    · simp
    · exact fun b hb => hb.congr (by simp) (by simp)
  cases values with
  | some values => exact finish values hvalues
  | none =>
    rw [Option.map_none, Option.isSome_map]
    refine .ite (fun _ => .bind_unexpected) fun _ => finish [] (.nil hvalues.grows)

theorem varSpec_builds (h : Held a₀ a [] [.docLines lines]) :
    Builds δ (Renumber.varSpec δ) (Grammar.varSpec parse lines) (Grammar.varSpec parse lines) a
      fun v b => Held a₀ b (DeclForm.var v).parts (DeclForm.var v).lists := by
  refine .bind names_builds fun names b hnames => ?_
  refine .joinChoice (g := Option.map (typeExpr δ))
    (P := fun t c => Held b c (t.toList.map .type) [])
    (.pure (.nil (.refl b)) rfl) (.map hp.type fun t c ht => ⟨ht, rfl⟩) fun t c ht => ?_
  refine .bind (initializer_builds hp) fun values d hvalues => ?_
  have hgetD : (values.map (List.map (expr δ))).getD [] = (values.getD []).map (expr δ) := by
    cases values <;> rfl
  rw [hgetD]
  refine finishValues_builds (h.append (hnames.append (ht.append hvalues))) ?_ ?_ ?_ rfl
  · simp
  · simp
  · exact fun b hb => hb.congr (by simp) (by simp)

theorem typeSpec_builds (h : Held a₀ a [] [.docLines lines]) :
    Builds δ (Renumber.typeSpec δ) (Grammar.typeSpec parse lines)
      (Grammar.typeSpec parse lines) a
      fun t b => Held a₀ b (DeclForm.type t).parts (DeclForm.type t).lists := by
  refine .bind .ident fun n b hn => .bind_look fun assign => .bind hp.type fun t c ht => ?_
  exact .pure ((h.append (hn.append ht)).congr (by simp) (by simp)) rfl

theorem spec_builds {group : GroupKind} {start : Location} {iota : Nat}
    (h : Held a₀ a [] [.docLines lines]) :
    Builds δ (decl δ) (spec parse group lines start iota) (spec parse group lines start iota) a
      fun d b => Held a₀ b [.decl d] [] := by
  have finish : ∀ (form : DeclForm) (b : Arena), Held a₀ b form.parts form.lists →
      Builds δ (decl δ) (do newDecl form (← spanFrom start))
        (do newDecl (declForm δ form) (← spanFrom start)) b fun d c => Held a₀ c [.decl d] [] :=
    fun form b hform => .bind_look fun sp => .newDecl hform rfl
  cases group with
  | const => exact .bind_map (constSpec_builds hp h) fun c b hc => finish (.const c) b hc
  | var => exact .bind_map (varSpec_builds hp h) fun v b hv => finish (.var v) b hv
  | type => exact .bind_map (typeSpec_builds hp h) fun t b ht => finish (.type t) b ht

theorem group_builds {group : GroupKind} :
    Builds δ (List.map (decl δ)) (Grammar.group parse group) (Grammar.group parse group) a
      fun ds b => Held a b (ds.map .decl) [] := by
  refine .bind_look fun start => .bind_look fun lines => .bind_look fun _ => .bind_look fun o => ?_
  cases o with
  | none =>
    refine .bind_list (a.addDocLines_adds lines) (·.addDocLines_adds lines) (.nil (.refl a))
      (by simp) (by simp) fun b h => ?_
    exact .bind (spec_builds hp h) fun d c hd => .pure hd rfl
  | some sp =>
    have listed {b : Arena} (i : Nat) : Builds δ (decl δ) (listedSpec parse group i)
        (listedSpec parse group i) b fun d c => Held b c [.decl d] [] :=
      .bind_look fun start => .bind .doc fun lines c h => spec_builds hp h
    refine .bind (.unrestricted (itemsUntil_builds (f := fun d => [.decl d]) (l := fun _ => [])
      listed)) fun ds b hds => ?_
    exact .bind_look fun _ => .pure hds.each rfl

-- ============================================================ functions

omit hp in
theorem isReceiver_params (ps : List Param) : isReceiver (ps.map (param δ)) = isReceiver ps := by
  rcases ps with _ | ⟨⟨i, sp, names, dots, t⟩, _ | ⟨q, ps⟩⟩ <;> rfl

theorem receiver_builds : Builds δ (paramList δ) (receiver parse) (receiver parse) a
    fun ps b => Held a b ps.parts ps.lists := by
  refine .bind hp.parameters fun ps b hps => ?_
  have hparams : isReceiver (paramList δ ps).params = isReceiver ps.params := by
    obtain ⟨ps, sp⟩ := ps
    rw [← isReceiver_params (δ := δ) ps]
    simp [paramList]
  rw [hparams, span_paramList]
  exact .ite (fun _ => .pure hps rfl) fun _ => .unexpectedAt

theorem functionDecl_builds : Builds δ (decl δ) (Grammar.functionDecl parse)
    (Grammar.functionDecl parse) a fun d b => Held a b [.decl d] [] := by
  refine .bind_look fun start => .bind .doc fun lines b hlines => .bind_look fun kw => ?_
  refine .joinChoice (g := Option.map (paramList δ))
    (P := fun r c => Held b c (r.toList.flatMap ParamList.parts) (r.toList.flatMap ParamList.lists))
    (.map (receiver_builds hp) fun r c hr => ⟨by simpa using hr, rfl⟩)
    (.pure (.nil (.refl b)) rfl) fun recv c hrecv => ?_
  refine .bind .ident fun n d hn => .bind hp.signature fun sig e hsig => ?_
  refine .joinChoice (g := Option.map (Renumber.block δ))
    (P := fun body f =>
      Held e f (body.toList.flatMap Block.parts) (body.toList.flatMap Block.lists))
    (.map hp.block fun body f h => ⟨by simpa using h, rfl⟩)
    (.pure (.nil (.refl e)) rfl) fun body f hbody => ?_
  have hall := hlines.append (hrecv.append (hn.append (hsig.append hbody)))
  refine .bind_look fun sp => ?_
  cases recv with
  | none =>
    refine .newDecl (hall.congr ?_ fun l hl => .inl (by simpa using hl)) ?_
    · simp
    · simp [Renumber.functionDecl]
  | some recv =>
    refine .newDecl (hall.congr ?_ fun l hl => .inl (by simpa using hl)) ?_
    · simp
    · simp [Renumber.methodDecl]

-- ================================================================ files

theorem topLevelDecl_builds :
    Builds δ (List.map (decl δ)) (topLevelDecl parse) (topLevelDecl parse) a
      fun ds b => Held a b (ds.map .decl) [] := by
  refine .bind_look fun kind => ?_
  split
  · exact hp.group
  · refine .choice ?_ .unexpected
    exact .bind hp.functionDecl fun d b hd => .pure hd rfl

theorem imports_builds : Builds δ (List.map (decl δ)) (imports parse) (imports parse) a
    fun ds b => Held a b (ds.map .decl) [.decls ds] := by
  refine .bind (.repeating (g := List.map (decl δ))
    (I := fun ds b => Held a b (ds.reverse.map .decl) []) (.nil (.refl a)) rfl fun ds b hds => ?_)
    fun ds b hds => ?_
  · refine .choice (.bind hp.importDecl fun d c hd => ?_) (.pure hds rfl)
    have hmore : Held a c ((d :: ds).reverse.map .decl) [] := by simpa using hds.append hd
    exact .bind_look fun _ => .pure hmore rfl
  · refine .bind_list (b.addDecls_adds ds.reverse) (·.addDecls_adds _) hds (by simp) (by simp) ?_
    exact fun c hds => .pure hds List.map_reverse.symm

omit hp in
theorem declsWith_builds {p q : Parser (List Decl)}
    (h : ∀ {a}, Builds δ (List.map (decl δ)) p q a fun ds b => Held a b (ds.map .decl) []) :
    Builds δ (List.map (decl δ)) (declsWith p) (declsWith q) a
      fun ds b => Held a b (ds.map .decl) [.decls ds] := by
  refine .bind (.repeating (g := List.map (decl δ))
    (I := fun ds b => Held a b (ds.reverse.map .decl) []) (.nil (.refl a)) rfl fun ds b hds => ?_)
    fun ds b hds => ?_
  · refine .choice (.pure hds rfl) (.bind h fun more c hmore => .bind_look fun _ => .pure ?_ ?_)
    · simpa [Builds.Leads] using hds.append hmore
    · simp [Builds.turn]
  · refine .bind_list (b.addDecls_adds ds.reverse) (·.addDecls_adds _) hds (by simp) (by simp) ?_
    exact fun c hds => .pure hds List.map_reverse.symm

theorem declarations_builds :
    Builds δ (List.map (decl δ)) (declarations parse) (declarations parse) a
      fun ds b => Held a b (ds.map .decl) [.decls ds] := by
  refine declsWith_builds fun {a} => .choice ?_ (topLevelDecl_builds hp)
  exact .bind hp.importDecl fun d b hd => .pure hd rfl

theorem file_builds : Builds δ (Renumber.file δ) (Grammar.file parse) (Grammar.file parse) a
    fun f b => Held a b f.parts f.lists := by
  refine .bind_look fun start => .bind_look fun kw => .bind .ident fun n b hn => ?_
  refine .bind_look fun _ => .bind (imports_builds hp) fun is c his => ?_
  refine .bind (declsWith_builds (topLevelDecl_builds hp)) fun ds d hds => .bind_look fun sp => ?_
  exact .pure ((hn.append (his.append hds)).congr rfl (by simp [File.lists])) rfl

end

end Grammar

-- ========================================================== productions

open Grammar in
/-- A production builds what it should if those below it do. -/
theorem Production.body_builds {α : Type} {parse : SubParser} (hp : parse.Builds δ)
    (p : Production α) (h : Held a₀ a p.operands []) :
    Builds δ (p.result δ) (p.body parse) ((p.renumber δ).body parse) a
      fun x b => Held a₀ b (p.parts x) (p.lists x) := by
  cases p with
  | expression => exact (binaryExpr_builds hp _ _).imp fun _ _ hx => hx.since h.grows
  | unaryExpr => exact (unaryExpr_builds hp).imp fun _ _ hx => hx.since h.grows
  | primaryExpr => exact (primaryExpr_builds hp).imp fun _ _ hx => hx.since h.grows
  | operand => exact (operand_builds hp).imp fun _ _ hx => hx.since h.grows
  | indexOrSlice => exact indexOrSlice_builds hp h
  | call => exact call_builds hp h
  | compositeLit => exact compositeLit_builds hp h
  | type => exact (type_builds hp).imp fun _ _ hx => hx.since h.grows
  | signature => exact (signature_builds hp).imp fun _ _ hx => hx.since h.grows
  | parameters => exact (parameters_builds hp).imp fun _ _ hx => hx.since h.grows
  | structType => exact (structType_builds hp).imp fun _ _ hx => hx.since h.grows
  | fieldDecl => exact (fieldDecl_builds hp).imp fun _ _ hx => hx.since h.grows
  | interfaceType => exact (interfaceType_builds hp).imp fun _ _ hx => hx.since h.grows
  | block => exact (block_builds hp).imp fun _ _ hx => hx.since h.grows
  | statement => exact (statement_builds hp).imp fun _ _ hx => hx.since h.grows
  | simpleStmt => exact (simpleStmt_builds hp).imp fun _ _ hx => hx.since h.grows
  | ifStmt => exact (ifStmt_builds hp).imp fun _ _ hx => hx.since h.grows
  | forStmt => exact (forStmt_builds hp).imp fun _ _ hx => hx.since h.grows
  | group => exact (group_builds hp).imp fun _ _ hx => hx.since h.grows
  | functionDecl => exact (functionDecl_builds hp).imp fun _ _ hx => hx.since h.grows
  | importDecl => exact importDecl_builds.imp fun _ _ hx => hx.since h.grows
  | file => exact (file_builds hp).imp fun _ _ hx => hx.since h.grows
  | typeSwitchGuard => exact (typeSwitchGuard_builds hp).imp fun _ _ hx => hx.since h.grows

theorem Grammar.parse_builds (depth : Nat) : SubParser.Builds δ (Grammar.parse depth) := by
  induction depth with
  | zero => exact fun p _ _ _ => .tooDeep
  | succ depth ih =>
    intro α p a₀ a h
    show Builds δ _ (Grammar.parse (depth + 1) p) (Grammar.parse (depth + 1) (p.renumber δ)) a _
    rw [Grammar.parse_succ, Grammar.parse_succ, Production.name_renumber]
    exact .during (Production.body_builds ih p h)

end GoSource
