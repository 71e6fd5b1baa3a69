/-
Declarations and files, built in a store.

The lines of a comment become a list before the declaration they document
is read, so that list is there also if the declaration fails.
-/
import GoSource.Storage.Grammar.Statement

namespace GoSource.Stored.Grammar

open GoSource.Parser (Turn)
open GoSource.Stored.Parser

variable (parse : SubParser)

-- ================================================================ specs

/-- The values after an `=`, if there is one. -/
def initializer : Parser (Option (List ExprId)) := do
  match ← eat .assign with
  | some _ => some <$> exprList parse
  | none => pure none

/-- The type of constants, which is missing if the spec ends or its
values begin. -/
def constType : Parser (Option TypeId) := do
  match ← kind with
  | .assign | .semi | .rParen | .eof => pure none
  | _ => some <$> parse.type

def constSpec (doc : ListRef) (iota : Nat) : Parser ConstSpec := do
  let names ← commaSeparated ident
  let type ← constType parse
  let values ←
    match ← initializer parse with
    | some values => pure values
    | none => if type.isSome || iota = 0 then unexpected "=" else pure []
  let names ← listIdents names
  let values ← listExprs values
  pure ⟨doc, names, type, values, iota⟩

def varSpec (doc : ListRef) : Parser VarSpec := do
  let names ← commaSeparated ident
  let type ← if (← isAt .assign) then pure none else some <$> parse.type
  let values := (← initializer parse).getD []
  let names ← listIdents names
  let values ← listExprs values
  pure ⟨doc, names, type, values⟩

def typeSpec (doc : ListRef) : Parser TypeSpec := do
  let name ← ident
  let assign ← eat .assign
  let type ← parse.type
  pure ⟨doc, name, assign, type⟩

/-- A spec of a group, as a declaration that starts at a place. -/
def spec (group : GroupKind) (doc : ListRef) (start : Location) (iota : Nat) :
    Parser DeclId := do
  let row ←
    match group with
    | .const => .const <$> constSpec parse doc iota
    | .var => .var <$> varSpec parse doc
    | .type => .type <$> typeSpec parse doc
  newDecl row (← spanFrom start)

/-- A spec in parentheses, which is documented on its own. -/
def listedSpec (group : GroupKind) (iota : Nat) : Parser DeclId := do
  let start ← here
  spec parse group (← doc start) start iota

/-- A keyword with a spec, or with a group of them in parentheses. -/
def group (group : GroupKind) : Parser (List DeclId) := do
  let start ← here
  let lines ← docLines start
  let _ ← advance
  match ← eat .lParen with
  | none =>
    let doc ← listDocLines lines
    pure [← spec parse group doc start 0]
  | some _ =>
    let decls ← unrestricted (itemsUntil .rParen .semi (listedSpec parse group))
    let _ ← expect .rParen
    pure decls

-- ============================================================ functions

/-- A receiver: one parameter, with at most one name and no dots. -/
def isReceiver (list : ListRef) : Parser Bool := do
  match ← paramItems list with
  | [p] =>
    let row ← paramRow p
    pure (row.names.length ≤ 1 && row.dots.isNone)
  | _ => pure false

def receiver : Parser ParamList := do
  let list ← parse.parameters
  if (← isReceiver list.params) then pure list
  else unexpectedAt list.span "single receiver" "receiver list"

/-- A function, or a method if parentheses come before the name. -/
def functionDecl : Parser DeclId := do
  let start ← here
  let lines ← doc start
  let funcSpan ← expect .kwFunc
  let recv ← if (← isAt .lParen) then some <$> receiver parse else pure none
  let name ← ident
  let signature ← parse.signature
  let body ← if (← isAt .lBrace) then some <$> parse.block else pure none
  let row : Decl :=
    match recv with
    | some recv => .method ⟨lines, funcSpan, recv, name, signature, body⟩
    | none => .func ⟨lines, funcSpan, name, signature, body⟩
  newDecl row (← spanFrom start)

-- ============================================================== imports

/-- The name an import is given before its path. -/
def importName : Parser (Option ImportName) := do
  match ← kind with
  | .dot => pure (some (.dot (← advance).span))
  | .ident => pure (some (.name (← ident)))
  | _ => pure none

/-- The text of an import path, interned like a name. -/
def importPath : Parser (Symbol × Span) := do
  match ← kind with
  | .stringLit | .rawStringLit =>
    let (value, span) ← literalValue
    match value with
    | .string bytes =>
      let path ← intern (Text.lossyText bytes)
      pure (path, span)
    | _ => unexpectedAt span "import path" "literal"
  | _ => unexpected "import path"

def importSpec : Parser ImportSpec := do
  let name ← importName
  let (path, span) ← importPath
  pure ⟨name, path, span⟩

def importDecl : Parser DeclId := do
  let start ← here
  let lines ← doc start
  let importSpan ← expect .kwImport
  let specs ←
    match ← eat .lParen with
    | some _ =>
      let specs ← itemsUntil .rParen .semi fun _ => importSpec
      let _ ← expect .rParen
      pure specs
    | none => pure [← importSpec]
  let specs ← listImportSpecs specs
  newDecl (.imports ⟨lines, importSpan, specs⟩) (← spanFrom start)

-- ================================================================ files

/-- A declaration at top level that is no import; a group is several. -/
def topLevelDecl : Parser (List DeclId) := do
  match GroupKind.ofKind (← kind) with
  | some g => parse.group g
  | none => if (← isAt .kwFunc) then pure [← parse.functionDecl] else unexpected "declaration"

/-- One import more, if it is one. -/
def nextImport (decls : List DeclId) : Parser (Turn (List DeclId)) := do
  if (← isAt .kwImport) then
    let decl ← parse.importDecl
    expectSemi
    pure (.again (decl :: decls))
  else pure (.stop decls)

/-- The imports with which a file begins. -/
def imports : Parser ListRef := do
  let decls ← repeating (nextImport parse) []
  listDecls decls.reverse

/-- One declaration more, which may be several, unless the input ends. -/
def nextDecl (decl : Parser (List DeclId)) (decls : List DeclId) :
    Parser (Turn (List DeclId)) := do
  if (← isAt .eof) then pure (.stop decls)
  else
    let more ← decl
    expectSemi
    pure (.again (more.reverse ++ decls))

/-- Declarations up to the end of the input. -/
def declsWith (decl : Parser (List DeclId)) : Parser ListRef := do
  let decls ← repeating (nextDecl decl) []
  listDecls decls.reverse

/-- A declaration where imports may stand anywhere. -/
def anyDecl : Parser (List DeclId) := do
  if (← isAt .kwImport) then pure [← parse.importDecl] else topLevelDecl parse

/-- Declarations without a package clause, imports among them. -/
def declarations : Parser ListRef := declsWith (anyDecl parse)

def file : Parser File := do
  let start ← here
  let packageSpan ← expect .kwPackage
  let name ← ident
  expectSemi
  let imports ← imports parse
  let decls ← declsWith (topLevelDecl parse)
  pure ⟨packageSpan, name, imports, decls, ← spanFrom start⟩

end GoSource.Stored.Grammar
