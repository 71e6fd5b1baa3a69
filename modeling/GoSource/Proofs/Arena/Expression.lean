/-
What expressions build.

A way to parse further productions builds what it should if the result of
each is held by the arena that it leaves (`SubParser.Builds`): its nodes,
names and lists are recorded, and no node stands twice in it. A production
that continues something needs what it continues to be held, and then holds
the whole.

# Types among operands

What turns out to be a type was an operand at first. The operand stays in
the arena, but the result does not contain it: the type it names is held in
its place (`toType_builds`).
-/
import GoSource.Grammar
import GoSource.Proofs.Arena.Builds

namespace GoSource

open GoSource.Parser Renumber

-- ========================================================== productions

namespace Production

variable {α : Type} (δ : NodeKind → Nat)

/-- The same production with what it continues renumbered. -/
def renumber : Production α → Production α
  | indexOrSlice x => indexOrSlice (expr δ x)
  | call f => call (expr δ f)
  | compositeLit t start => compositeLit (t.map (typeExpr δ)) start
  | p => p

/-- What a production returns, renumbered. -/
def result : Production α → α → α
  | expression | unaryExpr | primaryExpr | operand | indexOrSlice _ | call _
  | compositeLit _ _ => expr δ
  | type => typeExpr δ
  | signature => Renumber.signature δ
  | parameters => paramList δ
  | structType => List.map (field δ)
  | fieldDecl => field δ
  | interfaceType => List.map (interfaceElement δ)
  | block => Renumber.block δ
  | statement | ifStmt | typeSwitchGuard => stmt δ
  | simpleStmt _ => draft δ
  | forStmt => stmtForm δ
  | group _ => List.map (decl δ)
  | functionDecl | importDecl => decl δ
  | file => Renumber.file δ

/-- What a production continues. -/
def operands : Production α → List Part
  | indexOrSlice x | call x => [.expr x]
  | compositeLit t _ => t.toList.map .type
  | _ => []

/-- What a production returns, part by part. -/
def parts : Production α → α → List Part
  | expression, x | unaryExpr, x | primaryExpr, x | operand, x => [.expr x]
  | indexOrSlice _, x | call _, x | compositeLit _ _, x => [.expr x]
  | type, t => [.type t]
  | signature, sig => sig.parts
  | parameters, ps => ps.parts
  | structType, fs => fs.map .field
  | fieldDecl, f => [.field f]
  | interfaceType, es => es.flatMap InterfaceElement.parts
  | block, b => b.parts
  | statement, s | ifStmt, s | typeSwitchGuard, s => [.stmt s]
  | simpleStmt _, d => d.form.parts
  | forStmt, form => form.parts
  | group _, ds => ds.map .decl
  | functionDecl, d | importDecl, d => [.decl d]
  | file, f => f.parts

/-- The lists that a production has recorded for what it is part of. -/
def lists : Production α → α → List Listing
  | signature, sig => sig.lists
  | parameters, ps => ps.lists
  | structType, fs => [.fields fs]
  | interfaceType, es => .interfaceElements es :: es.flatMap InterfaceElement.lists
  | block, b => b.lists
  | simpleStmt _, d => d.form.lists
  | forStmt, form => form.lists
  | file, f => f.lists
  | _, _ => []

theorem name_renumber (p : Production α) : (p.renumber δ).name = p.name := by
  cases p <;> rfl

end Production

variable {δ : NodeKind → Nat} {α : Type} {a₀ a : Arena}

/-- Every production builds what it returns, and would elsewhere. -/
def SubParser.Builds (δ : NodeKind → Nat) (parse : SubParser) : Prop :=
  ∀ {α : Type} (p : Production α) {a₀ a : Arena}, Held a₀ a p.operands [] →
    GoSource.Builds δ (p.result δ) (parse p) (parse (p.renumber δ)) a
      fun x b => Held a₀ b (p.parts x) (p.lists x)

namespace SubParser.Builds

variable {parse : SubParser} (hp : parse.Builds δ)

include hp

theorem expression : GoSource.Builds δ (expr δ) (parse .expression) (parse .expression) a
    fun x b => Held a b [.expr x] [] := hp .expression (.nil (.refl a))

theorem unaryExpr : GoSource.Builds δ (expr δ) (parse .unaryExpr) (parse .unaryExpr) a
    fun x b => Held a b [.expr x] [] := hp .unaryExpr (.nil (.refl a))

theorem type : GoSource.Builds δ (typeExpr δ) (parse .type) (parse .type) a
    fun t b => Held a b [.type t] [] := hp .type (.nil (.refl a))

theorem signature : GoSource.Builds δ (Renumber.signature δ) (parse .signature) (parse .signature) a
    fun sig b => Held a b sig.parts sig.lists := hp .signature (.nil (.refl a))

theorem parameters : GoSource.Builds δ (paramList δ) (parse .parameters) (parse .parameters) a
    fun ps b => Held a b ps.parts ps.lists := hp .parameters (.nil (.refl a))

theorem structType :
    GoSource.Builds δ (List.map (field δ)) (parse .structType) (parse .structType) a
      fun fs b => Held a b (fs.map .field) [.fields fs] := hp .structType (.nil (.refl a))

theorem interfaceType :
    GoSource.Builds δ (List.map (interfaceElement δ)) (parse .interfaceType)
      (parse .interfaceType) a fun es b => Held a b (es.flatMap InterfaceElement.parts)
        (.interfaceElements es :: es.flatMap InterfaceElement.lists) :=
  hp .interfaceType (.nil (.refl a))

theorem group {kind : GroupKind} :
    GoSource.Builds δ (List.map (decl δ)) (parse (.group kind)) (parse (.group kind)) a
      fun ds b => Held a b (ds.map .decl) [] := hp (.group kind) (.nil (.refl a))

theorem functionDecl :
    GoSource.Builds δ (decl δ) (parse .functionDecl) (parse .functionDecl) a
      fun d b => Held a b [.decl d] [] := hp .functionDecl (.nil (.refl a))

theorem importDecl : GoSource.Builds δ (decl δ) (parse .importDecl) (parse .importDecl) a
    fun d b => Held a b [.decl d] [] := hp .importDecl (.nil (.refl a))

theorem block : GoSource.Builds δ (Renumber.block δ) (parse .block) (parse .block) a
    fun b c => Held a c b.parts b.lists := hp .block (.nil (.refl a))

theorem statement : GoSource.Builds δ (stmt δ) (parse .statement) (parse .statement) a
    fun s b => Held a b [.stmt s] [] := hp .statement (.nil (.refl a))

theorem simpleStmt {mode : SimpleMode} :
    GoSource.Builds δ (draft δ) (parse (.simpleStmt mode)) (parse (.simpleStmt mode)) a
      fun d b => Held a b d.form.parts d.form.lists := hp (.simpleStmt mode) (.nil (.refl a))

end SubParser.Builds

namespace Held

variable {β : Type} {b : Arena} {f : β → Part}

/-- Parts that were held one by one. -/
theorem each {xs : List β} {ls : List Listing} (h : Held a b (xs.flatMap fun x => [f x]) ls) :
    Held a b (xs.map f) [] :=
  h.congr (by rw [List.map_eq_flatMap]) nofun

end Held

namespace Grammar

-- ============================================================= sequences

section

variable {g : α → α} {f : α → List Part} {l : α → List Listing}

theorem afterCommas_builds {item item' : Parser α} {first : α}
    (hfirst : Held a₀ a (f first) (l first))
    (h : ∀ {a}, Builds δ g item item' a fun x b => Held a b (f x) (l x)) :
    Builds δ (List.map g) (afterCommas item first) (afterCommas item' (g first)) a
      fun xs b => Held a₀ b (xs.flatMap f) (xs.flatMap l) := by
  refine .bind (.repeating (g := List.map g)
    (I := fun xs b => Held a₀ b (xs.reverse.flatMap f) (xs.reverse.flatMap l)) ?_ rfl ?_) ?_
  · simpa using hfirst
  · intro xs b hxs
    refine .bind_look fun o => ?_
    cases o with
    | none => exact .pure hxs rfl
    | some sp => exact .bind h fun x c hx => .pure (by simpa [Builds.Leads] using hxs.append hx) rfl
  · exact fun xs b hxs => .pure hxs (List.map_reverse).symm

theorem commaSeparated_builds {item item' : Parser α}
    (h : ∀ {a}, Builds δ g item item' a fun x b => Held a b (f x) (l x)) :
    Builds δ (List.map g) (commaSeparated item) (commaSeparated item') a
      fun xs b => Held a b (xs.flatMap f) (xs.flatMap l) :=
  .bind h fun _ _ hfirst => afterCommas_builds hfirst h

theorem itemsUntil_builds {close separator : Token.Kind} {item item' : Nat → Parser α}
    (h : ∀ {a} i, Builds δ g (item i) (item' i) a fun x b => Held a b (f x) (l x)) :
    Builds δ (List.map g) (itemsUntil close separator item) (itemsUntil close separator item') a
      fun xs b => Held a b (xs.flatMap f) (xs.flatMap l) := by
  refine .bind (.repeating (g := fun st => (st.1, st.2.map g))
    (I := fun st b => Held a b (st.2.reverse.flatMap f) (st.2.reverse.flatMap l)) ?_ rfl ?_) ?_
  · exact .nil (.refl a)
  · rintro ⟨n, xs⟩ b hxs
    refine .choice (.pure hxs rfl) (.bind (h n) fun x c hx => .bind_look fun o => ?_)
    have hmore : Held a c ((x :: xs).reverse.flatMap f) ((x :: xs).reverse.flatMap l) := by
      simpa using hxs.append hx
    cases o with
    | none => exact .pure hmore rfl
    | some sp => exact .pure hmore rfl
  · exact fun st b hst => .pure hst (List.map_reverse).symm

end

-- =========================================================== expressions

variable {parse : SubParser} (hp : parse.Builds δ)

include hp

theorem binaryExpr_builds (levels least : Nat) :
    Builds δ (expr δ) (binaryExpr parse levels least) (binaryExpr parse levels least) a
      fun x b => Held a b [.expr x] [] := by
  induction levels generalizing least a with
  | zero => exact hp.unaryExpr
  | succ levels ih =>
    refine .bind hp.unaryExpr fun first b hfirst => .repeating hfirst rfl fun left c hleft => ?_
    refine .bind_look fun kind => ?_
    split
    · refine .ite (fun _ => .bind_look fun t => .bind (ih _) fun right d hright => ?_) fun _ => ?_
      · refine .bind (.newExpr ((hleft.append hright).congr rfl nofun) (by simp [exprForm])) ?_
        exact fun x e hx => .pure hx rfl
      · exact .pure hleft rfl
    · exact .pure hleft rfl

theorem exprList_builds : Builds δ (List.map (expr δ)) (exprList parse) (exprList parse) a
    fun xs b => Held a b (xs.map .expr) [] :=
  (commaSeparated_builds hp.expression).imp fun _ _ h => h.each

-- ======================================================= types, reread

omit hp in
/-- What an operand names is held in its place. -/
theorem toType_builds {x : Expr} (h : Held a₀ a [.expr x] []) :
    Builds δ (typeExpr δ) (toType x) (toType (expr δ x)) a
      fun t b => Held a₀ b [.type t] [] := by
  refine .closing fun ha => ?_
  have hparts := h.opened ha
  obtain ⟨i, sp, form⟩ := x
  cases form with
  | type t => exact .pure hparts rfl
  | ident n => exact .newType (f := .name none n) hparts rfl
  | selector y n =>
    obtain ⟨j, sp', form⟩ := y
    cases form with
    | ident pkg =>
      refine .newType (f := .name (some pkg) n) ?_ rfl
      have hy : a.Holds (.expr ⟨j, sp', .ident pkg⟩) := hparts.keeps.1 _ (List.mem_cons_self ..)
      have hpkg : a.Keeps (.name pkg) := (ha.keepsAll_of_holds hy).1 _ (List.mem_singleton_self _)
      have hn : a.Keeps (.name n) := hparts.keeps.1 _ (.tail _ (List.mem_singleton_self _))
      refine .of_keeps h.grows (List.forall_mem_cons.mpr ⟨hpkg, ?_⟩) rfl
      exact List.forall_mem_singleton.mpr hn
    | _ => exact .unexpectedAt
  | _ => exact .unexpectedAt

omit hp in
theorem opensComposite_expr (inHeader : Bool) (x : Expr) :
    opensComposite inHeader (expr δ x) = opensComposite inHeader x := by
  obtain ⟨i, sp, form⟩ := x
  cases form with
  | selector y n =>
    obtain ⟨j, sp', form⟩ := y
    cases form <;> rfl
  | type t =>
    obtain ⟨j, sp', form⟩ := t
    cases form <;> rfl
  | _ => rfl

-- ============================================================= suffixes

theorem selectorOrAssertion_builds {x : Expr} (h : Held a₀ a [.expr x] []) :
    Builds δ (expr δ) (selectorOrAssertion parse x) (selectorOrAssertion parse (expr δ x)) a
      fun y b => Held a₀ b [.expr y] [] := by
  refine .bind_look fun _ => .choice (.bind .ident fun n b hn => ?_) (.choice ?_ .unexpected)
  · exact .newExpr (f := .selector x n) (h.append hn) (by simp [exprForm])
  · refine .bind_look fun _ => .choice (.choice ?_ .bind_unexpected) ?_
    · refine .bind_look fun _ => .bind_look fun _ => .bind_pure (.bind_look fun rParen => ?_)
      exact .newExpr (h.congr rfl nofun) (by simp [exprForm])
    · refine .bind_map (.unrestricted hp.type) fun t b ht => .bind_look fun rParen => ?_
      exact .newExpr ((h.append ht).congr rfl nofun) (by simp [exprForm])

theorem suffixes_builds {x : Expr} (h : Held a₀ a [.expr x] []) :
    Builds δ (expr δ) (suffixes parse x) (suffixes parse (expr δ x)) a
      fun y b => Held a₀ b [.expr y] [] := by
  refine .repeating h rfl fun y b hy => .bind_look fun kind => ?_
  split
  · exact .map (selectorOrAssertion_builds hp hy) fun z c hz => ⟨hz, rfl⟩
  · exact .map (hp (.indexOrSlice y) hy) fun z c hz => ⟨hz, rfl⟩
  · exact .map (hp (.call y) hy) fun z c hz => ⟨hz, rfl⟩
  · refine .bind_look fun inHeader => ?_
    rw [opensComposite_expr]
    refine .ite (fun _ => .bind (toType_builds hy) fun t c ht => ?_) fun _ => .pure hy rfl
    rw [span_type]
    exact .map (hp (.compositeLit (some t) t.span.start) ht) fun z d hz => ⟨hz, rfl⟩
  · exact .pure hy rfl

theorem upperBounds_builds :
    Builds δ (fun bs => (bs.1.map (expr δ), bs.2.map (expr δ))) (upperBounds parse)
      (upperBounds parse) a
      fun bs b => Held a b (bs.1.toList.map .expr ++ bs.2.toList.map .expr) [] := by
  refine .choice (.pure (.nil (.refl a)) rfl) (.bind hp.expression fun high b hhigh => ?_)
  refine .bind_look fun o => ?_
  cases o with
  | none => exact .pure hhigh rfl
  | some sp => exact .bind hp.expression fun top c htop => .pure (hhigh.append htop) rfl

theorem indexOrSlice_builds {x : Expr} (h : Held a₀ a [.expr x] []) :
    Builds δ (expr δ) (indexOrSlice parse x) (indexOrSlice parse (expr δ x)) a
      fun y b => Held a₀ b [.expr y] [] := by
  refine .unrestricted (.bind_look fun lBrack => ?_)
  refine .joinChoice (g := Option.map (expr δ))
    (P := fun low b => Held a b (low.toList.map .expr) [])
    (.pure (.nil (.refl a)) rfl) (.map hp.expression fun y b hy => ⟨hy, rfl⟩) fun low b hlow => ?_
  have slice : Builds δ (expr δ)
      (expect .colon >>= fun _ => upperBounds parse >>= fun bounds =>
        expect .rBrack >>= fun rBrack => newExpr (.slice x lBrack low bounds.1 bounds.2 rBrack)
          (x.span.through rBrack))
      (expect .colon >>= fun _ => upperBounds parse >>= fun bounds =>
        expect .rBrack >>= fun rBrack =>
          newExpr (.slice (expr δ x) lBrack (low.map (expr δ)) bounds.1 bounds.2 rBrack)
            ((expr δ x).span.through rBrack)) b fun y c => Held a₀ c [.expr y] [] := by
    refine .bind_look fun _ => .bind (upperBounds_builds hp) fun bounds c hbounds => ?_
    refine .bind_look fun rBrack => ?_
    exact .newExpr ((h.append (hlow.append hbounds)).congr (by simp [ExprForm.parts]) nofun)
      (by simp [exprForm])
  refine .bind_look fun colon => ?_
  cases low with
  | none => exact slice
  | some i =>
    cases colon with
    | true => exact slice
    | false =>
      refine .bind_look fun rBrack => ?_
      exact .newExpr ((h.append hlow).congr rfl nofun) (by simp [exprForm])

theorem call_builds {f : Expr} (h : Held a₀ a [.expr f] []) :
    Builds δ (expr δ) (call parse f) (call parse (expr δ f)) a
      fun y b => Held a₀ b [.expr y] [] := by
  refine .unrestricted (.bind_look fun lParen => ?_)
  refine .bind (.repeating (g := fun st => (st.1.map (expr δ), st.2))
    (I := fun st b => Held a b (st.1.reverse.map .expr) []) (.nil (.refl a)) rfl ?_) ?_
  · rintro ⟨args, dots⟩ b hargs
    refine .choice (.pure hargs rfl) (.bind hp.expression fun arg c harg => .bind_look fun o => ?_)
    have hmore : Held a c ((arg :: args).reverse.map .expr) [] := by simpa using hargs.append harg
    cases o with
    | some sp => exact .bind_look fun _ => .pure hmore rfl
    | none =>
      refine .bind_look fun o => ?_
      cases o with
      | some sp => exact .pure hmore rfl
      | none => exact .pure hmore rfl
  · rintro ⟨args, dots⟩ b hargs
    refine .bind_look fun rParen => ?_
    refine .bind_list (b.addExprs_adds args.reverse) (·.addExprs_adds _) hargs (by simp) (by simp)
      fun c hargs => ?_
    exact .newExpr ((h.append hargs).congr (by simp [ExprForm.parts]) (by simp [ExprForm.lists]))
      (by simp [exprForm])

-- =================================================== composite literals

theorem elementPart_builds : Builds δ (expr δ) (elementPart parse) (elementPart parse) a
    fun x b => Held a b [.expr x] [] := by
  refine .choice (.bind_look fun start => ?_) hp.expression
  exact hp (.compositeLit none start) (.nil (.refl a))

theorem element_builds : Builds δ (Renumber.element δ) (Grammar.element parse)
    (Grammar.element parse) a fun e b => Held a b e.parts [] := by
  refine .bind (elementPart_builds hp) fun first b hfirst => .bind_look fun o => ?_
  cases o with
  | none => exact .pure hfirst rfl
  | some sp =>
    exact .bind (elementPart_builds hp) fun value c hvalue => .pure (hfirst.append hvalue) rfl

theorem compositeLit_builds {t : Option TypeExpr} {start : Location}
    (h : Held a₀ a (t.toList.map .type) []) :
    Builds δ (expr δ) (compositeLit parse t start)
      (compositeLit parse (t.map (typeExpr δ)) start) a fun y b => Held a₀ b [.expr y] [] := by
  refine .unrestricted (.bind_look fun lBrace => ?_)
  refine .bind (itemsUntil_builds (f := Element.parts) (l := fun _ => [])
    fun _ => element_builds hp) fun es b hes => .bind_look fun rBrace => ?_
  refine .bind_list (b.addElements_adds es) (·.addElements_adds _) hes (by simp) (by simp) ?_
  intro c hes
  exact .newExpr ((h.append hes).congr (by simp [ExprForm.parts]) (by simp [ExprForm.lists]))
    (by simp [exprForm])

-- ============================================================= operands

theorem receiveChan_builds {arrow : Span} :
    Builds δ (typeExpr δ) (receiveChan parse arrow) (receiveChan parse arrow) a
      fun t b => Held a b [.type t] [] := by
  refine .bind_look fun _ => .bind hp.type fun t b ht => .bind_look fun sp => ?_
  exact .newType ht rfl

theorem unaryExpr_builds : Builds δ (expr δ) (unaryExpr parse) (unaryExpr parse) a
    fun x b => Held a b [.expr x] [] := by
  refine .bind_look fun kind => ?_
  split
  · exact hp .primaryExpr (.nil (.refl a))
  · next op _ =>
    refine .bind_look fun opToken => .bind_look fun isChan => .ite (fun _ => ?_) fun _ => ?_
    · refine .bind (receiveChan_builds hp) fun t b ht => ?_
      refine .bind (.newExpr (f := .type t) ht (by simp [exprForm])) fun x c hx => ?_
      exact suffixes_builds hp hx
    · refine .bind hp.unaryExpr fun x b hx => ?_
      exact .newExpr (hx.congr rfl nofun) (by simp [exprForm])

theorem primaryExpr_builds : Builds δ (expr δ) (primaryExpr parse) (primaryExpr parse) a
    fun x b => Held a b [.expr x] [] :=
  .bind (hp .operand (.nil (.refl a))) fun _ _ hx => suffixes_builds hp hx

theorem operand_builds : Builds δ (expr δ) (operand parse) (operand parse) a
    fun x b => Held a b [.expr x] [] := by
  have literal : Builds δ (expr δ)
      (Parser.literal >>= fun l => newExpr (.literal l) l.span)
      (Parser.literal >>= fun l => newExpr (.literal l) l.span) a
      fun x b => Held a b [.expr x] [] :=
    .bind .literal fun l b hl => .newExpr hl rfl
  have type : Builds δ (expr δ) (parse .type >>= fun t => newExpr (.type t) t.span)
      (parse .type >>= fun t => newExpr (.type t) t.span) a fun x b => Held a b [.expr x] [] :=
    .bind hp.type fun t b ht => .newExpr ht (by simp [exprForm])
  refine .bind_look fun kind => ?_
  split
  · exact .bind .ident fun n b hn => .newExpr hn rfl
  iterate 6 exact literal
  · refine .bind_look fun _ => .bind (.unrestricted hp.expression) fun x b hx => ?_
    exact .bind_look fun _ => .pure hx rfl
  · refine .bind_look fun func => .bind hp.signature fun sig b hsig => .choice ?_ ?_
    · exact .bind_look fun t => .throw
    · refine .bind (.newType (f := .func sig) hsig (by simp [typeForm])) fun t c ht => ?_
      exact .newExpr (f := .type t) ht (by simp [exprForm])
  iterate 5 exact type
  · exact .unexpected

end Grammar

end GoSource
