/-
How deep statements, declarations and files nest.

What the depth of further productions says of the bodies that contain
statements, and from it what every production adds at most
(`body_nests`). The number of productions that may be active is then a
bound on the nesting of every result (`parse_nests`).
-/
import GoSource.Proofs.Nesting.Expression

namespace GoSource

open GoSource.Parser

variable {α : Type} {n k : Nat}

namespace Grammar

variable {parse : SubParser} (hp : parse.Nests n)

include hp

-- ==================================================== simple statements

theorem stmtList_nests : (stmtList parse).Yields fun ss => ∀ s ∈ ss, (Visit.stmt s).Nests n := by
  refine .bind (.repeating (I := fun ss => ∀ s ∈ ss, (Visit.stmt s).Nests n) nofun fun ss hss => ?_)
    fun ss hss => .bind_any fun _ => .pure (by simpa using hss)
  refine .choice (.pure hss) (.bind_any fun o => ?_)
  cases o with
  | some sp => exact .pure hss
  | none =>
    refine .bind hp.statement fun s hs => ?_
    have hmore : ∀ t ∈ s :: ss, (Visit.stmt t).Nests n := List.forall_mem_cons.mpr ⟨hs, hss⟩
    exact .choice (.pure hmore) (.bind_any fun _ => .pure hmore)

theorem block_nests : (block parse).Yields fun b => Part.Nest n b.parts := by
  refine .unrestricted (.bind_any fun lBrace => .bind (stmtList_nests hp) fun ss hss => ?_)
  refine .bind_any fun rBrace => .pure ?_
  simpa [Block.parts] using hss

omit hp in
theorem single_nests {left : List Expr} (hleft : ∀ x ∈ left, (Visit.expr x).Nests n) :
    (single left).Yields fun x => (Visit.expr x).Nests n := by
  unfold single
  split
  · exact .pure (hleft _ (List.mem_singleton_self _))
  · exact .unexpected

theorem rangeClause_nests (mode : SimpleMode) :
    (rangeClause parse mode).Yields fun o => ∀ x ∈ o, (Visit.expr x).Nests n := by
  refine .ite (fun _ => .bind_any fun o => ?_) fun _ => .pure nofun
  cases o with
  | none => exact .pure nofun
  | some sp => exact .map (hp.expression.imp fun x hx y hy => Option.some.inj hy ▸ hx)

variable {left : List Expr} (hleft : ∀ x ∈ left, (Visit.expr x).Nests n)

include hleft

theorem definition_nests (mode : SimpleMode) :
    (definition parse mode left).Yields fun form => Part.Nest n form.parts := by
  refine .bind_any fun names => .bind_any fun op => .bind (rangeClause_nests hp mode) fun o ho => ?_
  cases o with
  | some x =>
    have hx : (Visit.expr x).Nests n := ho x rfl
    refine .bind_any fun _ => .pure ?_
    simpa [StmtForm.parts] using ⟨hleft, hx⟩
  | none =>
    refine .bind (exprList_nests hp) fun values hvalues => .bind_any fun _ =>
      .bind_any fun _ => .pure ?_
    simpa [StmtForm.parts] using hvalues

theorem assignment_nests (mode : SimpleMode) (op : AssignOp) :
    (assignment parse mode left op).Yields fun form => Part.Nest n form.parts := by
  have plain : ∀ opSpan, (exprList parse >>= fun right => recording (·.addExprs left) >>= fun _ =>
      recording (·.addExprs right) >>= fun _ => pure (StmtForm.assign left op opSpan right)).Yields
        fun form => Part.Nest n form.parts := by
    intro opSpan
    refine .bind (exprList_nests hp) fun right hright => .bind_any fun _ =>
      .bind_any fun _ => .pure ?_
    simpa [StmtForm.parts] using ⟨hleft, hright⟩
  refine .bind_any fun opToken => .ite (fun _ => ?_) fun _ => .bind_pure (plain opToken.span)
  refine .bind (rangeClause_nests hp mode) fun o ho => ?_
  cases o with
  | none => exact plain opToken.span
  | some x =>
    have hx : (Visit.expr x).Nests n := ho x rfl
    refine .bind_any fun _ => .pure ?_
    simpa [StmtForm.parts] using ⟨hleft, hx⟩

theorem afterExprs_nests (mode : SimpleMode) :
    (afterExprs parse mode left).Yields fun form => Part.Nest n form.parts := by
  refine .bind_any fun kind => ?_
  split
  · refine .bind (single_nests hleft) fun chan hchan => .bind_any fun _ => ?_
    refine .bind hp.expression fun value hvalue => .pure ?_
    simpa [StmtForm.parts] using ⟨hchan, hvalue⟩
  iterate 2
    refine .bind (single_nests hleft) fun x hx => .bind_any fun _ => .pure ?_
    simpa [StmtForm.parts] using hx
  · exact definition_nests hp hleft mode
  · split
    · exact assignment_nests hp hleft mode _
    · exact .map ((single_nests hleft).imp fun x hx => by simpa [StmtForm.parts] using hx)

omit hleft

theorem simpleStmt_nests (mode : SimpleMode) :
    (simpleStmt parse mode).Yields fun d => Part.Nest n d.form.parts := by
  refine .bind_any fun start => .bind (rangeClause_nests hp mode) fun o ho => ?_
  cases o with
  | some x =>
    have hx : (Visit.expr x).Nests n := ho x rfl
    refine .bind_any fun _ => .pure ?_
    simpa [StmtForm.parts] using hx
  | none =>
    refine .bind (exprList_nests hp) fun left hleft => .bind_any fun label => ?_
    cases label with
    | none =>
      exact .bind (afterExprs_nests hp hleft mode) fun form hform => .bind_any fun _ => .pure hform
    | some label =>
      refine .bind_any fun _ => .bind hp.statement fun s hs => .bind_any fun _ => .pure ?_
      simpa [StmtForm.parts] using hs

-- ============================================================== headers

omit hp in
theorem condition_nests {draft : Draft} (h : Part.Nest n draft.form.parts) :
    (condition draft).Yields fun x => (Visit.expr x).Nests n := by
  unfold condition
  split
  · next x hx =>
    rw [hx] at h
    refine .pure ?_
    simpa [StmtForm.parts] using h
  · exact .unexpectedAt

omit hp in
theorem keep_nests {draft : Draft} (h : Part.Nest n draft.form.parts) :
    (keep draft).Yields fun s => (Visit.stmt s).Nests (n + 1) :=
  newStmt_nests h

theorem ifHeader_nests : (ifHeader parse).Yields fun r =>
    (∀ s ∈ r.1, (Visit.stmt s).Nests (n + 1)) ∧ (Visit.expr r.2).Nests (n + 1) := by
  refine .bind hp.simpleStmt fun first hfirst => .bind_any fun o => ?_
  cases o with
  | none =>
    exact .bind (condition_nests hfirst) fun x hx => .pure ⟨nofun, hx.mono (Nat.le_succ n)⟩
  | some sp =>
    refine .bind (keep_nests hfirst) fun init hinit => ?_
    refine .bind hp.simpleStmt fun second hsecond => ?_
    refine .bind (condition_nests hsecond) fun x hx => .pure ⟨?_, hx.mono (Nat.le_succ n)⟩
    rintro _ ⟨⟩
    exact hinit

theorem otherwise_nests : (otherwise parse).Yields fun s => (Visit.stmt s).Nests (n + 1) := by
  refine .bind_any fun kind => ?_
  split
  · exact (hp .ifStmt).imp fun s hs => hs.mono (Nat.le_succ n)
  · exact .bind hp.block fun b hb => newStmt_nests hb
  · exact .unexpected

theorem ifStmt_nests : (ifStmt parse).Yields fun s => (Visit.stmt s).Nests (n + 2) := by
  refine .bind_any fun kw => .bind (.asHeader (ifHeader_nests hp))
    fun header hheader => ?_
  obtain ⟨init, cond⟩ := header
  obtain ⟨hinit, hcond⟩ := hheader
  refine .bind hp.block fun body hbody => ?_
  have hbody : Part.Nest (n + 1) body.parts := hbody.mono (Nat.le_succ n)
  have finish : ∀ {other : Option Stmt}, (∀ s ∈ other, (Visit.stmt s).Nests (n + 1)) →
      (spanFrom kw.start >>= newStmt (.ifStmt init cond body other)).Yields
        fun s => (Visit.stmt s).Nests (n + 2) := by
    intro other hother
    refine .bind_any fun sp => newStmt_nests ?_
    simpa [StmtForm.parts] using ⟨hinit, hcond, hbody, hother⟩
  refine .bind_any fun o => ?_
  cases o with
  | none => exact .bind_pure (finish (by simp))
  | some sp =>
    refine .bind_map (otherwise_nests hp) fun s hs => finish ?_
    rintro _ ⟨⟩
    exact hs

theorem postStmt_nests :
    (postStmt parse).Yields fun o => ∀ s ∈ o, (Visit.stmt s).Nests (n + 1) := by
  refine .choice (.pure nofun) (.bind hp.simpleStmt fun draft hdraft => ?_)
  split
  · exact .unexpectedAt
  · exact .map ((keep_nests hdraft).imp fun s hs t ht => Option.some.inj ht ▸ hs)

theorem forClause_nests {init : Option Stmt} (hinit : ∀ s ∈ init, (Visit.stmt s).Nests (n + 1)) :
    (forClause parse init).Yields fun header => Part.Nest (n + 1) header.parts := by
  refine .bind_any fun _ => ?_
  refine .joinChoice (P := fun cond => ∀ x ∈ cond, (Visit.expr x).Nests (n + 1)) (.pure nofun)
    (.map (hp.expression.imp fun x hx y hy => ?_)) fun cond hcond => ?_
  · exact Option.some.inj hy ▸ hx.mono (Nat.le_succ n)
  · refine .bind_any fun _ => .bind (postStmt_nests hp) fun post hpost => .pure ?_
    simpa [ForHeader.parts] using ⟨hinit, hcond, hpost⟩

theorem forHeader_nests :
    (forHeader parse).Yields fun header => Part.Nest (n + 1) header.parts := by
  refine .bind_any fun kind => ?_
  split
  · exact .pure Part.nest_nil
  · exact forClause_nests hp fun _ h => by cases h
  · refine .bind hp.simpleStmt fun draft hdraft => ?_
    split
    · exact .map ((keep_nests hdraft).imp fun s hs => by simpa [ForHeader.parts] using hs)
    · refine .choice (.map ((condition_nests hdraft).imp fun x hx => ?_))
        (.bind (keep_nests hdraft) fun init hinit => forClause_nests hp ?_)
      · have hx : (Visit.expr x).Nests (n + 1) := hx.mono (Nat.le_succ n)
        simpa [ForHeader.parts] using hx
      · rintro _ ⟨⟩
        exact hinit

theorem forStmt_nests : (forStmt parse).Yields fun form => Part.Nest (n + 1) form.parts := by
  refine .bind_any fun _ => .bind (.asHeader (forHeader_nests hp)) fun header hheader => ?_
  refine .bind hp.block fun body hbody => .pure ?_
  have hbody : Part.Nest (n + 1) body.parts := hbody.mono (Nat.le_succ n)
  simpa [StmtForm.parts] using ⟨hheader, hbody⟩

-- =========================================================== statements

theorem calledBy_nests (keyword : String) :
    (calledBy parse keyword).Yields fun x => (Visit.expr x).Nests n := by
  refine .bind hp.expression fun x hx => ?_
  split
  · exact .pure hx
  · exact .unexpectedAt

theorem results_nests : (results parse).Yields fun xs => ∀ x ∈ xs, (Visit.expr x).Nests n := by
  refine .bind_any fun kind => ?_
  split
  iterate 2 exact .pure (by simp)
  · exact .bind (exprList_nests hp) fun xs hxs => .bind_any fun _ => .pure hxs

theorem statement_nests : (statement parse).Yields fun s => (Visit.stmt s).Nests (n + 1) := by
  refine .bind_any fun start => ?_
  have finish : ∀ {form : StmtForm}, Part.Nest n form.parts →
      (finishStmt start form).Yields fun s => (Visit.stmt s).Nests (n + 1) :=
    fun h => .bind_any fun _ => newStmt_nests h
  have decls : ∀ k, (declStmt parse start k).Yields fun s => (Visit.stmt s).Nests (n + 1) :=
    fun k => .bind (hp (.group k)) fun ds hds => .bind_any fun _ => finish hds
  have called : ∀ {keyword : String} {form : Expr → StmtForm}, (∀ x, (form x).parts = [.expr x]) →
      (calledBy parse keyword >>= fun x => finishStmt start (form x)).Yields
        fun s => (Visit.stmt s).Nests (n + 1) :=
    fun hform => .bind (calledBy_nests hp _) fun x hx => finish (by simpa [hform] using hx)
  refine .bind_any fun kind => ?_
  split
  iterate 3 exact decls _
  · exact .bind hp.block fun b hb => finish hb
  · exact (hp .ifStmt).imp fun s hs => hs.mono (Nat.le_succ n)
  · exact .bind (hp .forStmt) fun form hform => finish hform
  iterate 2 exact .bind_any fun _ => called fun _ => rfl
  · refine .bind_any fun _ => .bind (results_nests hp) fun xs hxs => finish ?_
    simpa [StmtForm.parts] using hxs
  iterate 2
    refine .bind_any fun _ => .bind_any fun label => finish ?_
    simp [StmtForm.parts]
  · exact .bind_any fun _ => .bind_any fun label => finish (by simp [StmtForm.parts])
  · exact .bind_any fun _ => finish (by simp [StmtForm.parts])
  iterate 3 exact .bind_any fun _ => newStmt_nests Part.nest_nil
  iterate 2 exact .bind_any fun _ => .throw
  · exact .bind hp.simpleStmt fun draft hdraft => keep_nests hdraft

-- ========================================================= declarations

theorem initializer_nests :
    (initializer parse).Yields fun o => ∀ x ∈ o.getD [], (Visit.expr x).Nests n := by
  refine .bind_any fun o => ?_
  cases o with
  | none => exact .pure nofun
  | some sp => exact .map (exprList_nests hp)

theorem constType_nests :
    (constType parse).Yields fun o => ∀ t ∈ o, (Visit.type t).Nests n := by
  refine .bind_any fun kind => ?_
  split
  iterate 4 exact .pure (by simp)
  · exact .map (hp.type.imp fun t ht u hu => Option.some.inj hu ▸ ht)

theorem constSpec_nests (lines : List String) (iota : Nat) :
    (constSpec parse lines iota).Yields fun c => Part.Nest n (DeclForm.const c).parts := by
  refine .bind_any fun names => .bind (constType_nests hp) fun t ht => ?_
  refine .bind (initializer_nests hp) fun values hvalues => ?_
  cases values with
  | some values =>
    refine .bind_pure (.bind_any fun _ => .bind_any fun _ => .pure ?_)
    simpa [DeclForm.parts] using ⟨ht, hvalues⟩
  | none =>
    refine .ite (fun _ => .bind_unexpected) fun _ =>
      .bind_pure (.bind_any fun _ => .bind_any fun _ => .pure ?_)
    simpa [DeclForm.parts] using ht

theorem varSpec_nests (lines : List String) :
    (varSpec parse lines).Yields fun v => Part.Nest n (DeclForm.var v).parts := by
  refine .bind_any fun names => ?_
  refine .joinChoice (P := fun t => ∀ u ∈ t, (Visit.type u).Nests n) (.pure nofun)
    (.map (hp.type.imp fun t ht u hu => Option.some.inj hu ▸ ht)) fun t ht => ?_
  refine .bind (initializer_nests hp) fun values hvalues => ?_
  refine .bind_any fun _ => .bind_any fun _ => .pure ?_
  simpa [DeclForm.parts] using ⟨ht, hvalues⟩

theorem typeSpec_nests (lines : List String) :
    (typeSpec parse lines).Yields fun t => Part.Nest n (DeclForm.type t).parts := by
  refine .bind_any fun name => .bind_any fun assign => .bind hp.type fun t ht => .pure ?_
  simpa [DeclForm.parts] using ht

theorem spec_nests (k : GroupKind) (lines : List String) (start : Location) (iota : Nat) :
    (spec parse k lines start iota).Yields fun d => (Visit.decl d).Nests (n + 1) := by
  have finish : ∀ {p : Parser DeclForm}, p.Yields (fun form => Part.Nest n form.parts) →
      (p >>= fun form => spanFrom start >>= newDecl form).Yields
        fun d => (Visit.decl d).Nests (n + 1) :=
    fun h => .bind h fun form hform => .bind_any fun _ => newDecl_nests hform
  cases k with
  | const => exact finish (.map (constSpec_nests hp lines iota))
  | var => exact finish (.map (varSpec_nests hp lines))
  | type => exact finish (.map (typeSpec_nests hp lines))

theorem group_nests (k : GroupKind) :
    (group parse k).Yields fun ds => Part.Nest (n + 1) (ds.map .decl) := by
  refine .bind_any fun start => .bind_any fun lines => .bind_any fun _ => .bind_any fun o => ?_
  cases o with
  | none =>
    refine .bind_any fun _ => .bind (spec_nests hp k lines start 0) fun d hd => .pure ?_
    simpa using hd
  | some sp =>
    refine .bind (P := fun ds => ∀ d ∈ ds, (Visit.decl d).Nests (n + 1))
      (.unrestricted (itemsUntil_nests fun iota => ?_)) fun ds hds => .bind_any fun _ => .pure ?_
    · exact .bind_any fun start => .bind_any fun lines => spec_nests hp k lines start iota
    · simpa using hds

theorem functionDecl_nests :
    (functionDecl parse).Yields fun d => (Visit.decl d).Nests (n + 1) := by
  refine .bind_any fun start => .bind_any fun lines => .bind_any fun kw => ?_
  refine .joinChoice (P := fun o => ∀ ps ∈ o, Part.Nest n ps.parts)
    (.map (.bind hp.parameters fun ps hps => .ite (fun _ => .pure ?_) fun _ => .unexpectedAt))
    (.pure nofun) fun recv hrecv => ?_
  · rintro _ ⟨⟩
    exact hps
  refine .bind_any fun name => .bind hp.signature fun sig hsig => ?_
  refine .joinChoice (P := fun o => ∀ b ∈ o, Part.Nest n b.parts)
    (.map (hp.block.imp fun b hb c hc => Option.some.inj hc ▸ hb))
    (.pure nofun) fun body hbody => ?_
  refine .bind_any fun sp => newDecl_nests ?_
  cases recv with
  | none => simpa [DeclForm.parts] using ⟨hsig, hbody⟩
  | some ps =>
    have hps : Part.Nest n ps.parts := hrecv ps rfl
    simpa [DeclForm.parts] using ⟨hps, hsig, hbody⟩

omit hp in
theorem importSpecs_nest (specs : List ImportSpec) :
    Part.Nest n (specs.flatMap ImportSpec.parts) := by
  refine Part.nest_flatMap.mpr fun spec _ => ?_
  obtain ⟨name, path, sp⟩ := spec
  obtain _ | (_ | _) := name <;> simp [ImportSpec.parts, ImportName.parts]

omit hp in
theorem importDecl_nests : importDecl.Yields fun d => (Visit.decl d).Nests (n + 1) := by
  refine .bind_any fun start => .bind_any fun lines => .bind_any fun kw => ?_
  have finish : ∀ specs, (recording (·.addImportSpecs specs) >>= fun _ => spanFrom start >>=
      newDecl (.imports ⟨lines, kw, specs⟩)).Yields fun d => (Visit.decl d).Nests (n + 1) := by
    refine fun specs => .bind_any fun _ => .bind_any fun _ => newDecl_nests ?_
    simpa [DeclForm.parts] using importSpecs_nest specs
  refine .bind_any fun o => ?_
  cases o with
  | none => exact .bind_any fun spec => .bind_pure (finish [spec])
  | some sp => exact .bind_any fun specs => .bind_any fun _ => .bind_pure (finish specs)

theorem topLevelDecl_nests :
    (topLevelDecl parse).Yields fun ds => ∀ d ∈ ds, (Visit.decl d).Nests n := by
  refine .bind_any fun kind => ?_
  split
  · exact (hp (.group _)).imp fun ds hds d hd => hds _ (List.mem_map_of_mem hd)
  · refine .choice (.bind (hp .functionDecl) fun d hd => .pure ?_) .unexpected
    exact List.forall_mem_singleton.mpr hd

theorem imports_nests : (imports parse).Yields fun ds => ∀ d ∈ ds, (Visit.decl d).Nests n := by
  refine .bind (.repeating (I := fun ds => ∀ d ∈ ds, (Visit.decl d).Nests n) nofun fun ds hds => ?_)
    fun ds hds => .bind_any fun _ => .pure (by simpa using hds)
  refine .choice (.bind (hp .importDecl) fun d hd => .bind_any fun _ => .pure ?_) (.pure hds)
  exact List.forall_mem_cons.mpr ⟨hd, hds⟩

omit hp in
theorem declsWith_nests {decl : Parser (List Decl)}
    (hdecl : decl.Yields fun ds => ∀ d ∈ ds, (Visit.decl d).Nests n) :
    (declsWith decl).Yields fun ds => ∀ d ∈ ds, (Visit.decl d).Nests n := by
  refine .bind (.repeating (I := fun ds => ∀ d ∈ ds, (Visit.decl d).Nests n) nofun fun ds hds => ?_)
    fun ds hds => .bind_any fun _ => .pure (by simpa using hds)
  refine .choice (.pure hds) (.bind hdecl fun more hmore => .bind_any fun _ => .pure ?_)
  exact List.forall_mem_append.mpr ⟨by simpa using hmore, hds⟩

theorem declarations_nests :
    (declarations parse).Yields fun ds => ∀ d ∈ ds, (Visit.decl d).Nests n := by
  refine declsWith_nests
    (.choice (.bind (hp .importDecl) fun d hd => .pure ?_) (topLevelDecl_nests hp))
  exact List.forall_mem_singleton.mpr hd

theorem file_nests : (file parse).Yields fun f => (Visit.file f).Nests (n + 1) := by
  refine .bind_any fun start => .bind_any fun kw => .bind_any fun name => .bind_any fun _ => ?_
  refine .bind (imports_nests hp) fun imports himports => ?_
  refine .bind (declsWith_nests (topLevelDecl_nests hp)) fun decls hdecls => ?_
  refine .bind_any fun sp => .pure (.of_parts ?_ rfl)
  show Part.Nest n (.mark kw :: .name name :: (imports.map .decl ++ decls.map .decl))
  simpa using ⟨himports, hdecls⟩

theorem typeSwitchGuard_nests :
    (typeSwitchGuard parse).Yields fun s => (Visit.stmt s).Nests (n + 1) := by
  refine .bind_any fun _ => .bind hp.simpleStmt fun draft hdraft => .bind_any fun _ => ?_
  refine .ite (fun _ => .bind (keep_nests hdraft) fun s hs => ?_) fun _ => .unexpectedAt
  exact .bind_any fun _ => .bind_any fun _ => .pure hs

end Grammar

-- ================================================== one production more

/-- No production puts more than five levels around what it is given. -/
theorem body_nests {parse : SubParser} (hp : parse.Nests n) (p : Production α) :
    (p.body parse).Yields (p.Nests (n + 5)) := by
  cases p with
  | expression => exact Grammar.binaryExpr_nests hp 5 1
  | unaryExpr => exact (Grammar.unaryExpr_nests hp).imp fun x hx => hx.mono (by omega)
  | primaryExpr => exact (Grammar.primaryExpr_nests hp).imp fun x hx => hx.mono (by omega)
  | operand => exact (Grammar.operand_nests hp).imp fun x hx => hx.mono (by omega)
  | indexOrSlice x => exact Grammar.indexOrSlice_nests hp x
  | call x => exact Grammar.call_nests hp x
  | compositeLit t start => exact Grammar.compositeLit_nests hp t start
  | type => exact (Grammar.type_nests hp).imp fun t ht => ht.mono (by omega)
  | signature => exact (Grammar.signature_nests hp).imp fun sig hsig => hsig.mono (by omega)
  | parameters => exact (Grammar.parameters_nests hp).imp fun ps hps => hps.mono (by omega)
  | structType => exact (Grammar.structType_nests hp).imp fun fs hfs => hfs.mono (by omega)
  | fieldDecl => exact (Grammar.fieldDecl_nests hp).imp fun f hf => hf.mono (by omega)
  | interfaceType => exact (Grammar.interfaceType_nests hp).imp fun es hes => hes.mono (by omega)
  | block => exact (Grammar.block_nests hp).imp fun b hb => hb.mono (by omega)
  | statement => exact (Grammar.statement_nests hp).imp fun s hs => hs.mono (by omega)
  | simpleStmt mode => exact (Grammar.simpleStmt_nests hp mode).imp fun d hd => hd.mono (by omega)
  | ifStmt => exact (Grammar.ifStmt_nests hp).imp fun s hs => hs.mono (by omega)
  | forStmt => exact (Grammar.forStmt_nests hp).imp fun form hform => hform.mono (by omega)
  | group k => exact (Grammar.group_nests hp k).imp fun ds hds => hds.mono (by omega)
  | functionDecl => exact (Grammar.functionDecl_nests hp).imp fun d hd => hd.mono (by omega)
  | importDecl => exact (Grammar.importDecl_nests (n := n)).imp fun d hd => hd.mono (by omega)
  | file => exact (Grammar.file_nests hp).imp fun f hf => hf.mono (by omega)
  | typeSwitchGuard => exact (Grammar.typeSwitchGuard_nests hp).imp fun s hs => hs.mono (by omega)

/-- Every production that may be active adds five levels at most. -/
theorem parse_nests (depth : Nat) : SubParser.Nests (5 * depth) (Grammar.parse depth) := by
  induction depth with
  | zero => exact fun p s a s' ha => nomatch ha
  | succ depth ih =>
    intro α p
    show (Grammar.parse (depth + 1) p).Yields _
    rw [Grammar.parse_succ]
    exact .during (body_nests ih p)

end GoSource
