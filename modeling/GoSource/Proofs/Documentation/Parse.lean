/-
Comments mean nothing but documentation.

A declaration is given the comments in front of it as its documentation, and
without comments it is given none (`doc_echoes`). The grammar does nothing
else with comments, so every production returns the same without them, but
for the documentation, by induction on how deep it may nest (`parse_echoes`).

For a source this says that its comments may be blanked
(`parseSource_blankComments`): the lexer then returns the same tokens, with
the same spans and the same inserted semicolons, and any parse of the source
fails in the same way or returns the same tree undocumented.
-/
import GoSource.Proofs.Documentation.Statement

namespace GoSource

open GoSource.Parser Undocumented

namespace Grammar

open Echoes (bind bind_heedless choice joinChoice)

-- ======================================================== documentation

theorem docLines_echoes {start : Location} :
    Echoes (fun _ => []) (docLines start) (docLines start) := by
  intro s t hst
  have hcomments : t.comments = [] := by rw [hst.rest]
  have hnone : docLines start t = .ok [] { t with comments := [] } := by
    rw [docLines, hcomments, documenting]
    rfl
  rw [hnone]
  exact .ok ⟨by rw [hst.rest], hst.count⟩

theorem addDocLines_echoes {lines lines' : List String} :
    Echoes id (recording (·.addDocLines lines)) (recording (·.addDocLines lines')) :=
  .recording (fun a => (a.addDocLines_adds lines).count) fun a => (a.addDocLines_adds lines').count

theorem doc_echoes {start : Location} : Echoes (fun _ => []) (doc start) (doc start) :=
  bind docLines_echoes fun _ => bind addDocLines_echoes fun _ => .pure rfl

-- ============================================================== imports

instance : Heedless importSpec := .of_composed fun _ => inferInstance

theorem importDecl_echoes : Echoes decl importDecl importDecl := by
  refine bind_heedless fun start => bind doc_echoes fun lines => bind_heedless fun kw => ?_
  have finish (specs : List ImportSpec) : Echoes decl
      (do
        recording (·.addImportSpecs specs)
        newDecl (.imports ⟨lines, kw, specs⟩) (← spanFrom start))
      (do
        recording (·.addImportSpecs specs)
        newDecl (.imports ⟨[], kw, specs⟩) (← spanFrom start)) :=
    bind_heedless fun _ => bind_heedless fun sp => .newDecl rfl
  refine bind_heedless fun paren => ?_
  cases paren with
  | some sp =>
    refine bind (itemsUntil_heedless fun _ => inferInstance).echoes fun specs => ?_
    exact bind_heedless fun _ => finish specs
  | none => exact bind_heedless fun spec => finish [spec]

-- ================================================================ specs

variable {parse : SubParser} [hp : parse.Echoes]

instance : Heedless (initializer parse) :=
  (inferInstance : Composed parse (initializer parse)).heedless

instance : Heedless (constType parse) := (inferInstance : Composed parse (constType parse)).heedless

variable {lines : List String}

/-- A spec in which nothing but the documentation is not heedless. -/
theorem finishValues_echoes {α : Type} {g : α → α} {names : List Ident} {values : List Expr}
    {x y : α} (hy : y = g x) :
    Echoes g
      (do
        recording (·.addIdents names)
        recording (·.addExprs values)
        Pure.pure x)
      (do
        recording (·.addIdents names)
        recording (·.addExprs values)
        Pure.pure y) :=
  bind_heedless fun _ => bind_heedless fun _ => .pure hy

theorem constSpec_echoes {iota : Nat} : Echoes (fun c : ConstSpec => { c with doc := [] })
    (constSpec parse lines iota) (constSpec parse [] iota) := by
  refine bind_heedless fun names => bind_heedless fun t => bind_heedless fun values => ?_
  cases values with
  | some values => exact finishValues_echoes rfl
  | none => exact .ite (bind_heedless fun _ => finishValues_echoes rfl) (finishValues_echoes rfl)

theorem varSpec_echoes : Echoes (fun v : VarSpec => { v with doc := [] })
    (varSpec parse lines) (varSpec parse []) := by
  refine bind_heedless fun names => joinChoice (g := id) (.pure rfl)
    (Heedless.map inferInstance).echoes fun t => ?_
  exact bind_heedless fun values => finishValues_echoes rfl

theorem typeSpec_echoes : Echoes (fun t : TypeSpec => { t with doc := [] })
    (typeSpec parse lines) (typeSpec parse []) :=
  bind_heedless fun _ => bind_heedless fun _ => bind_heedless fun _ => .pure rfl

theorem spec_echoes {kind : GroupKind} {start : Location} {iota : Nat} :
    Echoes decl (spec parse kind lines start iota) (spec parse kind [] start iota) := by
  have finish (form : DeclForm) : Echoes decl (do newDecl form (← spanFrom start))
      (do newDecl (declForm form) (← spanFrom start)) :=
    bind_heedless fun sp => .newDecl rfl
  cases kind with
  | const => exact .bind_map constSpec_echoes fun c => finish (.const c)
  | var => exact .bind_map varSpec_echoes fun v => finish (.var v)
  | type => exact .bind_map typeSpec_echoes fun t => finish (.type t)

theorem itemsUntil_echoes {α : Type} {g : α → α} {close separator : Token.Kind}
    {item : Nat → Parser α} (hitem : ∀ i, Echoes g (item i) (item i)) :
    Echoes (List.map g) (itemsUntil close separator item) (itemsUntil close separator item) := by
  refine bind (.repeating (g := fun st => (st.1, st.2.map g)) rfl fun ⟨count, items⟩ => ?_)
    fun st => .pure List.map_reverse.symm
  refine choice (.pure rfl) (bind (hitem count) fun x => bind_heedless fun sep => ?_)
  cases sep with
  | some sp => exact .pure rfl
  | none => exact .pure rfl

theorem group_echoes {kind : GroupKind} :
    Echoes (List.map decl) (Grammar.group parse kind) (Grammar.group parse kind) := by
  refine bind_heedless fun start => bind docLines_echoes fun lines => bind_heedless fun _ => ?_
  refine bind_heedless fun paren => ?_
  cases paren with
  | none => exact bind addDocLines_echoes fun _ => bind spec_echoes fun d => .pure rfl
  | some sp =>
    have listed (i : Nat) : Echoes decl (listedSpec parse kind i) (listedSpec parse kind i) :=
      bind_heedless fun start => bind doc_echoes fun lines => spec_echoes
    refine bind (.unrestricted (itemsUntil_echoes listed)) fun ds => ?_
    exact bind_heedless fun _ => .pure rfl

-- ============================================================ functions

instance : Heedless (receiver parse) := (inferInstance : Composed parse (receiver parse)).heedless

theorem functionDecl_echoes :
    Echoes decl (Grammar.functionDecl parse) (Grammar.functionDecl parse) := by
  refine bind_heedless fun start => bind doc_echoes fun lines => bind_heedless fun kw => ?_
  refine joinChoice (g := id) (Heedless.map inferInstance).echoes (.pure rfl) fun recv => ?_
  refine bind_heedless fun name => bind_heedless fun sig => ?_
  refine joinChoice (g := Option.map Undocumented.block) (hp.block.map fun b => rfl) (.pure rfl)
    fun body => bind_heedless fun sp => .newDecl ?_
  cases recv with
  | none => simp [declForm, Undocumented.functionDecl]
  | some recv => simp [declForm, Undocumented.methodDecl]

-- ================================================================ files

theorem topLevelDecl_echoes : Echoes (List.map decl) (topLevelDecl parse) (topLevelDecl parse) := by
  refine bind_heedless fun kind => ?_
  split
  · exact hp.group _
  · refine choice (bind (hp.echoes .functionDecl) fun d => .pure rfl) ?_
    exact bind_heedless fun t => .ite .throw (bind_heedless fun _ => .throw)

theorem addDecls_echoes {ds ds' : List Decl} :
    Echoes id (recording (·.addDecls ds)) (recording (·.addDecls ds')) :=
  .recording (fun a => (a.addDecls_adds ds).count) fun a => (a.addDecls_adds ds').count

theorem imports_echoes : Echoes (List.map decl) (imports parse) (imports parse) := by
  refine bind (.repeating (g := List.map decl) rfl fun ds => ?_) fun ds => ?_
  · refine choice (bind (hp.echoes .importDecl) fun d => ?_) (.pure rfl)
    exact bind_heedless fun _ => .pure rfl
  · exact bind addDecls_echoes fun _ => .pure List.map_reverse.symm

theorem declsWith_echoes {p : Parser (List Decl)} (h : Echoes (List.map decl) p p) :
    Echoes (List.map decl) (declsWith p) (declsWith p) := by
  refine bind (.repeating (g := List.map decl) rfl fun ds => ?_) fun ds => ?_
  · refine choice (.pure rfl) (bind h fun more => bind_heedless fun _ => .pure ?_)
    simp [Echoes.turn]
  · exact bind addDecls_echoes fun _ => .pure List.map_reverse.symm

theorem declarations_echoes : Echoes (List.map decl) (declarations parse) (declarations parse) := by
  refine declsWith_echoes (choice ?_ topLevelDecl_echoes)
  exact bind (hp.echoes .importDecl) fun d => .pure rfl

theorem file_echoes : Echoes Undocumented.file (Grammar.file parse) (Grammar.file parse) := by
  refine bind_heedless fun start => bind_heedless fun kw => bind_heedless fun name => ?_
  refine bind_heedless fun _ => bind imports_echoes fun imports => ?_
  refine bind (declsWith_echoes topLevelDecl_echoes) fun decls => bind_heedless fun sp => ?_
  exact .pure rfl

end Grammar

-- ========================================================== productions

open Grammar in
/-- A production returns the same if those below it do. -/
theorem Production.body_echoes {α : Type} {parse : SubParser} [parse.Echoes] (p : Production α) :
    Echoes p.undocumented (p.body parse) (p.body parse) := by
  by_cases hp : p.isPart = true
  · rw [p.undocumented_of_isPart hp]
    exact (Production.body_composed hp).heedless.echoes
  cases p with
  | block => exact block_echoes
  | statement => exact statement_echoes
  | simpleStmt mode => exact simpleStmt_echoes
  | ifStmt => exact ifStmt_echoes
  | forStmt => exact forStmt_echoes
  | group kind => exact group_echoes
  | functionDecl => exact functionDecl_echoes
  | importDecl => exact importDecl_echoes
  | file => exact file_echoes
  | typeSwitchGuard => exact typeSwitchGuard_echoes
  | _ => exact absurd rfl hp

theorem Grammar.parse_echoes (depth : Nat) : SubParser.Echoes (Grammar.parse depth) := by
  induction depth with
  | zero => exact ⟨fun p => .tooDeep⟩
  | succ depth ih =>
    refine ⟨fun p => ?_⟩
    rw [Grammar.parse_succ]
    exact .during p.body_echoes

theorem Entry.parser_echoes (entry : Entry) (depth : Nat) :
    Echoes root (entry.parser (Grammar.parse depth)) (entry.parser (Grammar.parse depth)) := by
  have hp := Grammar.parse_echoes depth
  cases entry with
  | expression =>
    refine .map (g := id) (.bind_heedless fun x => ?_) fun x => rfl
    exact .bind_heedless fun _ => .bind_heedless fun _ => .pure rfl
  | declarations => exact Grammar.declarations_echoes.map fun ds => rfl
  | file => exact (hp.echoes .file).map fun f => rfl
  | statements =>
    refine .map (.bind Grammar.stmtList_echoes fun ss => ?_) fun ss => rfl
    exact .bind_heedless fun _ => .pure rfl
  | typeSwitchGuard => exact (hp.echoes .typeSwitchGuard).map fun s => rfl

-- =============================================================== sources

/-- A call returns the same token, and no comments with it. -/
theorem Token.Stream.call_withoutComments (s : Token.Stream) (k : Nat) :
    s.withoutComments.call k = ⟨[], (s.call k).token⟩ := by
  induction k generalizing s with
  | zero => rw [call, call, next_withoutComments]
  | succ k ih => rw [call, call, next_withoutComments, ih]

theorem Quiet.start (stream : Token.Stream) (arena : Arena) :
    Quiet (.start stream arena) (.start stream.withoutComments arena) := by
  refine ⟨?_, fun k => rfl⟩
  unfold Parsing.start
  rw [Token.Stream.next_withoutComments]
  simp [Token.Stream.withoutComments]

theorem parseStream_withoutComments (stream : Token.Stream) (entry : Entry) (maxDepth : Nat)
    (arena : Arena) :
    (parseStream stream.withoutComments entry maxDepth arena).1 =
      (parseStream stream entry maxDepth arena).1.map root := by
  have hrun := entry.parser_echoes maxDepth _ _ (.start stream arena)
  unfold parseStream
  generalize entry.parser _ (.start stream arena) = o,
    entry.parser _ (.start stream.withoutComments arena) = o' at hrun ⊢
  cases hrun with
  | ok => rfl
  | error => rfl

/-- A source with its comments blanked. However often the lexer is called, it
returns the token that it returns for the source, inserted semicolons and the
end included, at the same place, and no comments. Whatever the source is taken
for and however deep it may nest, the same error comes of it, or the tree of
the source without the documentation. -/
theorem parseSource_blankComments (source : String) :
    (∀ k, (Token.Stream.ofSource (blankComments source)).call k =
      ⟨[], ((Token.Stream.ofSource source).call k).token⟩) ∧
    ∀ (entry : Entry) (maxDepth : Nat) (arena : Arena),
      (parseSource (blankComments source) entry maxDepth arena).1 =
        (parseSource source entry maxDepth arena).1.map root := by
  have hstream := Token.Stream.ofSource_blankComments source
  constructor
  · intro k
    rw [hstream, Token.Stream.call_withoutComments]
  · intro entry maxDepth arena
    unfold parseSource
    rw [hstream, parseStream_withoutComments]

end GoSource
