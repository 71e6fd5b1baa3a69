/-
Declarations and files, in a store and as trees.

With these all productions are compared, so the whole grammar does the same
in a store, to whatever depth it goes (`Grammar.parse_mimics`).
-/
import GoSource.Proofs.Storage.Statement

namespace GoSource.Stored

open GoSource.Stored.Parser

variable {R : Reader} {parse : SubParser} {tree : GoSource.SubParser}

namespace Grammar

section

variable (hp : parse.Mimics tree)

include hp

-- ================================================================ specs

theorem initializer_mimics :
    Mimics R (initializer parse) (GoSource.Grammar.initializer tree)
      (maybe (each Reader.expr)) := by
  refine .bind_look fun o => ?_
  cases o with
  | none => exact .pure rfl
  | some sp => exact .map (exprList_mimics hp) fun _ _ _ _ => maybe_some

theorem constType_mimics :
    Mimics R (constType parse) (GoSource.Grammar.constType tree) (maybe Reader.type) := by
  refine .bind_look fun kind => ?_
  cases kind with
  | assign | semi | rParen | eof => exact .pure rfl
  | _ => exact .map hp.type fun _ _ _ _ => maybe_some

theorem constSpec_mimics {doc : ListRef} {lines : List String} {iota : Nat}
    (hdoc : R.docLines doc = some lines) :
    Mimics R (constSpec parse doc iota) (GoSource.Grammar.constSpec tree lines iota)
      ConstSpec.read := by
  refine .bind (commaSeparated_mimics Ident.read_le .ident) fun R₁ names names' hle₁ hnames => ?_
  refine .bind (constType_mimics hp) fun R₂ t t' hle₂ ht => ?_
  have finish {R₃ : Reader} {values : List ExprId} {values' : List GoSource.Expr}
      (hle₃ : R₂.Le R₃) (hvalues : each Reader.expr R₃ values = some values') : Mimics R₃
      (listIdents names >>= fun names => listExprs values >>= fun values =>
        pure ⟨doc, names, t, values, iota⟩)
      (GoSource.Parser.recording (·.addIdents names') >>= fun _ =>
        GoSource.Parser.recording (·.addExprs values') >>= fun _ =>
          pure ⟨lines, names', t', values', iota⟩) ConstSpec.read := by
    have hnames := each_le (Ident.read_le (hle₂.trans hle₃)) hnames
    refine .bind_listIdents hnames fun R₄ r hle₄ hr => ?_
    refine .bind_listExprs (each_le (hle₄.node .expr) hvalues) fun R₅ r' hle₅ hr' => .pure ?_
    have hle := hle₃.trans (hle₄.trans hle₅)
    have hdoc := (hle₁.trans (hle₂.trans hle)).list _ _ hdoc
    have ht : optional R₅.type t = some t' := Sub.optional (hle.node .type) _ ht
    have hr := hle₅.list _ _ hr
    simp [ConstSpec.read, hdoc, hr, ht, hr']
  refine .bind (initializer_mimics hp) fun R₃ o o' hle₃ ho => ?_
  obtain ⟨rfl, rfl⟩ | ⟨values, values', rfl, rfl, hvalues⟩ := maybe_cases ho
  · have hsome : t.isSome = t'.isSome := by
      obtain ⟨rfl, rfl⟩ | ⟨_, _, rfl, rfl, -⟩ := maybe_cases ht <;> rfl
    refine hsome ▸ .ite (fun _ => .bind_unexpected) fun _ => .pure_bind (finish hle₃ each_nil)
  · exact .pure_bind (finish hle₃ hvalues)

theorem varSpec_mimics {doc : ListRef} {lines : List String}
    (hdoc : R.docLines doc = some lines) :
    Mimics R (varSpec parse doc) (GoSource.Grammar.varSpec tree lines) VarSpec.read := by
  refine .bind (commaSeparated_mimics Ident.read_le .ident) fun R₁ names names' hle₁ hnames => ?_
  refine .joinChoice (maybe Reader.type) (.pure rfl) (.map hp.type fun _ _ _ _ => maybe_some) ?_
  intro R₂ t t' hle₂ ht
  refine .bind (initializer_mimics hp) fun R₃ o o' hle₃ ho => ?_
  have hvalues : each Reader.expr R₃ (o.getD []) = some (o'.getD []) := by
    obtain ⟨rfl, rfl⟩ | ⟨_, _, rfl, rfl, h⟩ := maybe_cases ho
    · exact each_nil
    · exact h
  refine .bind_listIdents (each_le (Ident.read_le (hle₂.trans hle₃)) hnames) fun R₄ r hle₄ hr => ?_
  refine .bind_listExprs (each_le (hle₄.node .expr) hvalues) fun R₅ r' hle₅ hr' => .pure ?_
  have hle := hle₃.trans (hle₄.trans hle₅)
  have hdoc := (hle₁.trans (hle₂.trans hle)).list _ _ hdoc
  have ht : optional R₅.type t = some t' := Sub.optional (hle.node .type) _ ht
  have hr := hle₅.list _ _ hr
  simp [VarSpec.read, hdoc, hr, ht, hr']

theorem typeSpec_mimics {doc : ListRef} {lines : List String}
    (hdoc : R.docLines doc = some lines) :
    Mimics R (typeSpec parse doc) (GoSource.Grammar.typeSpec tree lines) TypeSpec.read := by
  refine .bind .ident fun R₁ n n' hle₁ hn => .bind_look fun assign => ?_
  refine .bind hp.type fun R₂ t t' hle₂ ht => .pure ?_
  have hdoc := (hle₁.trans hle₂).list _ _ hdoc
  have hn := Ident.read_le hle₂ _ hn
  simp [TypeSpec.read, hdoc, hn, ht]

theorem spec_mimics {group : GroupKind} {doc : ListRef} {lines : List String} {start : Location}
    {iota : Nat} (hdoc : R.docLines doc = some lines) :
    Mimics R (spec parse group doc start iota) (GoSource.Grammar.spec tree group lines start iota)
      Reader.decl := by
  cases group with
  | const =>
    refine .bind_map (constSpec_mimics hp hdoc) fun R' c c' _ hc => .bind_look fun sp => ?_
    exact .newDecl (by simp [Decl.read, hc])
  | var =>
    refine .bind_map (varSpec_mimics hp hdoc) fun R' v v' _ hv => .bind_look fun sp => ?_
    exact .newDecl (by simp [Decl.read, hv])
  | type =>
    refine .bind_map (typeSpec_mimics hp hdoc) fun R' t t' _ ht => .bind_look fun sp => ?_
    exact .newDecl (by simp [Decl.read, ht])

theorem listedSpec_mimics {group : GroupKind} {iota : Nat} :
    Mimics R (listedSpec parse group iota) (GoSource.Grammar.listedSpec tree group iota)
      Reader.decl :=
  .bind_look fun _ => .bind .doc fun _ _ _ _ hdoc => spec_mimics hp hdoc

theorem group_mimics {kind : GroupKind} :
    Mimics R (group parse kind) (GoSource.Grammar.group tree kind) (each Reader.decl) := by
  refine .bind_look fun start => .bind_look fun lines => .bind_look fun _ => .bind_look fun o => ?_
  cases o with
  | none =>
    refine .bind_listDocLines fun R₁ doc _ hdoc => ?_
    exact .bind (spec_mimics hp hdoc) fun R₂ d d' _ hd => .pure (each_cons hd each_nil)
  | some sp =>
    refine .bind (.unrestricted (itemsUntil_mimics (fun h => h.node .decl)
      fun _ => listedSpec_mimics hp)) fun R₁ ds ds' _ hds => ?_
    exact .bind_look fun _ => .pure hds

-- ============================================================ functions

omit hp in
theorem isReceiver_finds {r : ListRef} {ps : List GoSource.Param} (h : R.params r = some ps) :
    Finds R (isReceiver r) (· = GoSource.Grammar.isReceiver ps) := by
  refine .bind (.paramItems h) fun is his => ?_
  cases mapM_eq_some_iff.mp his with
  | nil => exact .pure rfl
  | @cons i p _ _ hparam hrest =>
    cases hrest with
    | cons => exact .pure rfl
    | nil =>
      refine .bind (.paramRow hparam) fun row hrow => ?_
      obtain ⟨_, sp, names, dots, t⟩ := p
      obtain ⟨names', hnames, hrow⟩ := Option.bind_eq_some_iff.mp hrow
      obtain ⟨t', -, hform⟩ := Option.bind_eq_some_iff.mp hrow
      obtain ⟨rfl, hdots, rfl⟩ : names' = names ∧ row.dots = dots ∧ t' = t := by
        simpa using hform
      refine .withLength hnames fun hlength => .pure ?_
      simp [GoSource.Grammar.isReceiver, hlength, hdots]

theorem receiver_mimics :
    Mimics R (receiver parse) (GoSource.Grammar.receiver tree) ParamList.read := by
  refine .bind hp.parameters fun R₁ ps ps' _ hps => ?_
  obtain ⟨params, hparams, hform⟩ := Option.bind_eq_some_iff.mp hps
  obtain rfl := Option.some.inj hform
  exact .known (isReceiver_finds hparams) (.ite (fun _ => .pure hps) fun _ => .unexpectedAt)

theorem functionDecl_mimics :
    Mimics R (functionDecl parse) (GoSource.Grammar.functionDecl tree) Reader.decl := by
  refine .bind_look fun start => .bind .doc fun R₁ doc lines _ hdoc => .bind_look fun funcSpan => ?_
  refine .joinChoice (maybe ParamList.read) (.map (receiver_mimics hp) fun _ _ _ _ => maybe_some)
    (.pure rfl) fun R₂ recv recv' hle₂ hrecv => ?_
  refine .bind .ident fun R₃ n n' hle₃ hn => .bind hp.signature fun R₄ sig sig' hle₄ hsig => ?_
  refine .joinChoice (maybe Block.read) (.map hp.block fun _ _ _ _ => maybe_some) (.pure rfl) ?_
  refine fun R₅ body body' hle₅ hbody => .bind_look fun sp => .newDecl ?_
  have hle := hle₄.trans hle₅
  have hdoc := (hle₂.trans (hle₃.trans hle)).list _ _ hdoc
  have hn := Ident.read_le hle _ hn
  have hsig := Signature.read_le hle₅ _ hsig
  have hbody : optional (Block.read R₅) body = some body' := hbody
  obtain ⟨rfl, rfl⟩ | ⟨ps, ps', rfl, rfl, hps⟩ := maybe_cases hrecv
  · simp [Decl.read, FunctionDecl.read, hdoc, hn, hsig, hbody]
  · have hps := ParamList.read_le (hle₃.trans hle) _ hps
    simp [Decl.read, MethodDecl.read, hdoc, hps, hn, hsig, hbody]

-- ============================================================== imports

omit hp

theorem importName_mimics :
    Mimics R importName GoSource.Grammar.importName (maybe ImportName.read) := by
  refine .bind_look fun kind => ?_
  cases kind with
  | dot => exact .bind_look fun t => .pure rfl
  | ident =>
    exact .bind .ident fun R' n n' _ hn => .pure (maybe_some (by simp [ImportName.read, hn]))
  | _ => exact .pure rfl

theorem importPath_mimics :
    Mimics R importPath GoSource.Grammar.importPath (both Reader.text same) := by
  refine .bind_look fun kind => ?_
  cases kind with
  | stringLit | rawStringLit =>
    refine .bind_look fun literal => ?_
    obtain ⟨value, sp⟩ := literal
    cases value with
    | string bytes =>
      exact .bind_intern fun R' s _ hs => .pure (both_eq_some.mpr ⟨hs, rfl⟩)
    | _ => exact .unexpectedAt
  | _ => exact .unexpected

theorem importSpec_mimics :
    Mimics R importSpec GoSource.Grammar.importSpec ImportSpec.read := by
  refine .bind importName_mimics fun R₁ n n' _ hn => .bind importPath_mimics ?_
  rintro R₂ ⟨path, sp⟩ ⟨path', sp'⟩ hle h
  obtain ⟨hpath, hsp⟩ := both_eq_some.mp h
  obtain rfl : sp = sp' := same_eq_some.mp hsp
  have hpath : R₂.text path = some path' := hpath
  have hn : optional (ImportName.read R₂) n = some n' := Sub.optional (ImportName.read_le hle) _ hn
  exact .pure (by simp [ImportSpec.read, hn, hpath])

theorem importDecl_mimics :
    Mimics R importDecl GoSource.Grammar.importDecl Reader.decl := by
  refine .bind_look fun start => .bind .doc fun R₁ doc lines _ hdoc => .bind_look fun sp => ?_
  have finish {R₂ : Reader} {specs : List ImportSpec} {specs' : List GoSource.ImportSpec}
      (hle₂ : R₁.Le R₂) (hspecs : each ImportSpec.read R₂ specs = some specs') : Mimics R₂
      (listImportSpecs specs >>= fun r => do
        newDecl (.imports ⟨doc, sp, r⟩) (← spanFrom start))
      (GoSource.Parser.recording (·.addImportSpecs specs') >>= fun _ => do
        GoSource.Parser.newDecl (.imports ⟨lines, sp, specs'⟩) (← GoSource.Parser.spanFrom start))
      Reader.decl := by
    refine .bind_listImportSpecs hspecs fun R₃ r hle₃ hr => .bind_look fun sp => .newDecl ?_
    have hdoc := (hle₂.trans hle₃).list _ _ hdoc
    simp [Decl.read, ImportDecl.read, hdoc, hr]
  refine .bind_look fun o => ?_
  cases o with
  | none =>
    refine .bind importSpec_mimics fun R₂ s s' hle hs => .pure_bind ?_
    exact finish hle (each_cons hs each_nil)
  | some sp =>
    refine .bind (itemsUntil_mimics ImportSpec.read_le fun _ => importSpec_mimics)
      fun R₂ specs specs' hle hspecs => .bind_look fun _ => .pure_bind ?_
    exact finish hle hspecs

-- ================================================================ files

include hp

theorem topLevelDecl_mimics :
    Mimics R (topLevelDecl parse) (GoSource.Grammar.topLevelDecl tree) (each Reader.decl) := by
  refine .bind_look fun kind => ?_
  generalize GroupKind.ofKind kind = o
  cases o with
  | some g => exact hp.group
  | none =>
    refine .choice (.bind hp.functionDecl fun R' d d' _ hd => ?_) .unexpected
    exact .pure (each_cons hd each_nil)

theorem imports_mimics :
    Mimics R (imports parse) (GoSource.Grammar.imports tree) Reader.decls := by
  have hinit : each Reader.decl R [] = some [] := each_nil
  refine .bind (.repeating hinit fun R₁ ds ds' _ hds => ?_) fun R₁ ds ds' _ hds => ?_
  · refine .choice (.bind hp.importDecl fun R₂ d d' hle hd => ?_) (.pure (turn_stop hds))
    exact .bind_look fun _ => .pure (turn_again (each_cons hd (each_le (hle.node .decl) hds)))
  · exact .of_bind_pure (.bind_listDecls (each_reverse hds) fun R₂ r _ hr => .pure hr)

omit hp in
theorem declsWith_mimics {p : Parser (List DeclId)} {q : GoSource.Parser (List GoSource.Decl)}
    (h : ∀ {R}, Mimics R p q (each Reader.decl)) :
    Mimics R (declsWith p) (GoSource.Grammar.declsWith q) Reader.decls := by
  have hinit : each Reader.decl R [] = some [] := each_nil
  refine .bind (.repeating hinit fun R₁ ds ds' _ hds => ?_) fun R₁ ds ds' _ hds => ?_
  · refine .choice (.pure (turn_stop hds)) (.bind h fun R₂ more more' hle hmore => ?_)
    refine .bind_look fun _ => .pure (turn_again ?_)
    exact each_append (each_reverse hmore) (each_le (hle.node .decl) hds)
  · exact .of_bind_pure (.bind_listDecls (each_reverse hds) fun R₂ r _ hr => .pure hr)

theorem declarations_mimics :
    Mimics R (declarations parse) (GoSource.Grammar.declarations tree) Reader.decls := by
  refine declsWith_mimics (.choice (.bind hp.importDecl fun R' d d' _ hd => ?_)
    (topLevelDecl_mimics hp))
  exact .pure (each_cons hd each_nil)

theorem file_mimics : Mimics R (file parse) (GoSource.Grammar.file tree) File.read := by
  refine .bind_look fun start => .bind_look fun kw => .bind .ident fun R₁ n n' _ hn => ?_
  refine .bind_look fun _ => .bind (imports_mimics hp) fun R₂ is is' hle₂ his => ?_
  refine .bind (declsWith_mimics (topLevelDecl_mimics hp)) fun R₃ ds ds' hle₃ hds => ?_
  refine .bind_look fun sp => .pure ?_
  have hn := Ident.read_le (hle₂.trans hle₃) _ hn
  have his := hle₃.list _ _ his
  simp [File.read, hn, his, hds]

end

end Grammar

-- ============================================================ the grammar

/-- With nothing allowed to become active both fail. -/
theorem SubParser.exhausted_mimics :
    SubParser.exhausted.Mimics (GoSource.Grammar.parse 0) := by
  constructor <;> intros <;> exact .tooDeep

open GoSource.Stored.Grammar in
/-- What holds of the productions below holds of those they are part of. -/
theorem SubParser.next_mimics {depth : Nat} (hp : parse.Mimics (GoSource.Grammar.parse depth)) :
    parse.next.Mimics (GoSource.Grammar.parse (depth + 1)) where
  expression := .within (binaryExpr_mimics hp _ _)
  unaryExpr := .within (unaryExpr_mimics hp)
  primaryExpr := .within (primaryExpr_mimics hp)
  operand := .within (operand_mimics hp)
  indexOrSlice hx := .within (indexOrSlice_mimics hp hx)
  call hx := .within (call_mimics hp hx)
  compositeLit ht := .within (compositeLit_mimics hp ht)
  type := .within (type_mimics hp)
  signature := .within (signature_mimics hp)
  parameters := .within (parameters_mimics hp)
  structType := .within (structType_mimics hp)
  fieldDecl := .within (fieldDecl_mimics hp)
  interfaceType := .within (interfaceType_mimics hp)
  block := .within (block_mimics hp)
  statement := .within (statement_mimics hp)
  simpleStmt := .within (simpleStmt_mimics hp)
  ifStmt := .within (ifStmt_mimics hp)
  forStmt := .within (forStmt_mimics hp)
  group := .within (group_mimics hp)
  functionDecl := .within (functionDecl_mimics hp)
  importDecl := .within importDecl_mimics
  file := .within (file_mimics hp)
  typeSwitchGuard := .within (typeSwitchGuard_mimics hp)

theorem Grammar.parse_mimics (depth : Nat) :
    (Grammar.parse depth).Mimics (GoSource.Grammar.parse depth) := by
  induction depth with
  | zero => exact SubParser.exhausted_mimics
  | succ depth ih => exact SubParser.next_mimics ih

end GoSource.Stored
