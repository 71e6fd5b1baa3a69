/-
Declarations and files.

# Groups

`const`, `var` and `type` declare one thing or, in parentheses, several.
Either way each spec becomes a declaration of its own. A lone spec starts
at the keyword and is documented by the comments before it; the specs of a
group start where they start and are documented each on its own, so the
comments before the keyword of a group document nothing.

# Constants without values

Within a group a constant may leave out its values together with its type;
it then repeats those before it. The first of a group has nothing to
repeat, and neither has a lone one.
-/
import GoSource.Grammar.Statement

namespace GoSource.Grammar

open GoSource.Parser

variable (parse : SubParser)

-- ================================================================ specs

/-- The values after an `=`, if there is one. -/
def initializer : Parser (Option (List Expr)) := do
  match ← eat .assign with
  | some _ => some <$> exprList parse
  | none => pure none

/-- The type of constants, which is missing if the spec ends or its
values begin. -/
def constType : Parser (Option TypeExpr) := do
  match ← kind with
  | .assign | .semi | .rParen | .eof => pure none
  | _ => some <$> parse .type

def constSpec (doc : List String) (iota : Nat) : Parser ConstSpec := do
  let names ← commaSeparated ident
  let type ← constType parse
  let values ←
    match ← initializer parse with
    | some values => pure values
    | none => if type.isSome || iota = 0 then unexpected "=" else pure []
  recording (·.addIdents names)
  recording (·.addExprs values)
  pure ⟨doc, names, type, values, iota⟩

def varSpec (doc : List String) : Parser VarSpec := do
  let names ← commaSeparated ident
  let type ← if (← isAt .assign) then pure none else some <$> parse .type
  let values := (← initializer parse).getD []
  recording (·.addIdents names)
  recording (·.addExprs values)
  pure ⟨doc, names, type, values⟩

def typeSpec (doc : List String) : Parser TypeSpec := do
  let name ← ident
  let assign ← eat .assign
  let type ← parse .type
  pure ⟨doc, name, assign, type⟩

/-- A spec of a group, as a declaration that starts at a place. -/
def spec (group : GroupKind) (doc : List String) (start : Location) (iota : Nat) :
    Parser Decl := do
  let form ←
    match group with
    | .const => .const <$> constSpec parse doc iota
    | .var => .var <$> varSpec parse doc
    | .type => .type <$> typeSpec parse doc
  newDecl form (← spanFrom start)

/-- A spec in parentheses, which is documented on its own. -/
def listedSpec (group : GroupKind) (iota : Nat) : Parser Decl := do
  let start ← here
  spec parse group (← doc start) start iota

/-- A keyword with a spec, or with a group of them in parentheses. -/
def group (group : GroupKind) : Parser (List Decl) := do
  let start ← here
  let lines ← docLines start
  let _ ← advance
  match ← eat .lParen with
  | none =>
    recording (·.addDocLines lines)
    pure [← spec parse group lines start 0]
  | some _ =>
    let decls ← unrestricted (itemsUntil .rParen .semi (listedSpec parse group))
    let _ ← expect .rParen
    pure decls

-- ============================================================ functions

/-- A receiver: one parameter, with at most one name and no dots. -/
def isReceiver : List Param → Bool
  | [p] => p.form.names.length ≤ 1 && p.form.dots.isNone
  | _ => false

def receiver : Parser ParamList := do
  let list ← parse .parameters
  if isReceiver list.params then pure list
  else unexpectedAt list.span "single receiver" "receiver list"

/-- A function, or a method if parentheses come before the name. The body
may be missing. -/
def functionDecl : Parser Decl := do
  let start ← here
  let lines ← doc start
  let funcSpan ← expect .kwFunc
  let recv ← if (← isAt .lParen) then some <$> receiver parse else pure none
  let name ← ident
  let signature ← parse .signature
  let body ← if (← isAt .lBrace) then some <$> parse .block else pure none
  let form : DeclForm :=
    match recv with
    | some recv => .method ⟨lines, funcSpan, recv, name, signature, body⟩
    | none => .func ⟨lines, funcSpan, name, signature, body⟩
  newDecl form (← spanFrom start)

-- ============================================================== imports

/-- The name an import is given before its path. -/
def importName : Parser (Option ImportName) := do
  match ← kind with
  | .dot => pure (some (.dot (← advance).span))
  | .ident => pure (some (.name (← ident)))
  | _ => pure none

/-- The text of an import path, which is recorded like a name. -/
def importPath : Parser (String × Span) := do
  match ← kind with
  | .stringLit | .rawStringLit =>
    let (value, span) ← literalValue
    match value with
    | .string bytes =>
      let path := Text.lossyText bytes
      recording (·.addName path)
      pure (path, span)
    | _ => unexpectedAt span "import path" "literal"
  | _ => unexpected "import path"

def importSpec : Parser ImportSpec := do
  let name ← importName
  let (path, span) ← importPath
  pure ⟨name, path, span⟩

def importDecl : Parser Decl := do
  let start ← here
  let lines ← doc start
  let importSpan ← expect .kwImport
  let specs ←
    match ← eat .lParen with
    | some _ =>
      let specs ← itemsUntil .rParen .semi fun _ => importSpec
      let _ ← expect .rParen
      pure specs
    | none => pure [← importSpec]
  recording (·.addImportSpecs specs)
  newDecl (.imports ⟨lines, importSpan, specs⟩) (← spanFrom start)

-- ================================================================ files

/-- A declaration at top level that is no import; a group is several. -/
def topLevelDecl : Parser (List Decl) := do
  match GroupKind.ofKind (← kind) with
  | some g => parse (.group g)
  | none =>
    if (← isAt .kwFunc) then pure [← parse .functionDecl] else unexpected "declaration"

/-- One import more, if it is one. -/
def nextImport (decls : List Decl) : Parser (Turn (List Decl)) := do
  if (← isAt .kwImport) then
    let decl ← parse .importDecl
    expectSemi
    pure (.again (decl :: decls))
  else pure (.stop decls)

/-- The imports with which a file begins. -/
def imports : Parser (List Decl) := do
  let decls ← repeating (nextImport parse) []
  recording (·.addDecls decls.reverse)
  pure decls.reverse

/-- One declaration more, which may be several, unless the input ends. -/
def nextDecl (decl : Parser (List Decl)) (decls : List Decl) : Parser (Turn (List Decl)) := do
  if (← isAt .eof) then pure (.stop decls)
  else
    let more ← decl
    expectSemi
    pure (.again (more.reverse ++ decls))

/-- Declarations up to the end of the input. -/
def declsWith (decl : Parser (List Decl)) : Parser (List Decl) := do
  let decls ← repeating (nextDecl decl) []
  recording (·.addDecls decls.reverse)
  pure decls.reverse

/-- A declaration where imports may stand anywhere. -/
def anyDecl : Parser (List Decl) := do
  if (← isAt .kwImport) then pure [← parse .importDecl] else topLevelDecl parse

/-- Declarations without a package clause, imports among them. -/
def declarations : Parser (List Decl) := declsWith (anyDecl parse)

def file : Parser File := do
  let start ← here
  let packageSpan ← expect .kwPackage
  let name ← ident
  expectSemi
  let imports ← imports parse
  let decls ← declsWith (topLevelDecl parse)
  pure ⟨packageSpan, name, imports, decls, ← spanFrom start⟩

end GoSource.Grammar
