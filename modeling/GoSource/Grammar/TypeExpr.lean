/-
Types, signatures and what they contain.

# Parameters

A parameter list holds either types only or names with types, and which
of the two it is shows late: `a, b, c` may be three types or the names of
parameters whose type follows. `leadingNames` reads names for as long as
they decide nothing and stops at the token that does. Then the list goes
on in one of two ways, and never changes its mind: types after types,
named groups after named groups.

# Embedded things

A name alone in a struct or an interface is an embedded type. In a struct
the token after the first name tells: a tag, the end of the field or of
the struct, or the point of a qualified name.
-/
import GoSource.Grammar.Expression

namespace GoSource.Grammar

open GoSource.Parser

variable (parse : SubParser)

-- ================================================================ names

/-- A type named by an identifier that has been read, and qualified if a
point follows. -/
def qualifiedType (first : Ident) : Parser TypeExpr := do
  let form ←
    match ← eat .dot with
    | some _ => pure (.name (some first) (← ident))
    | none => pure (.name none first)
  newType form (← spanFrom first.span.start)

def typeName : Parser TypeExpr := do
  qualifiedType (← ident)

-- ================================================================ types

/-- A node for a type that started at a place and ends here. -/
def finishType (start : Location) (form : TypeForm) : Parser TypeExpr := do
  newType form (← spanFrom start)

/-- The rest of an array or slice type, after its opening bracket. -/
def bracketType (start : Location) : Parser TypeExpr := do
  match ← eat .rBrack with
  | some _ => finishType start (.slice (← parse .type))
  | none =>
    let length ←
      match ← eat .ellipsis with
      | some dots => pure (.dots dots)
      | none => ArrayLength.expr <$> unrestricted (parse .expression)
    let _ ← expect .rBrack
    finishType start (.array length (← parse .type))

/-- Tokens that can begin a type. -/
def startsType : Token.Kind → Bool
  | .ident | .lParen | .lBrack | .star | .arrow
  | .kwMap | .kwChan | .kwFunc | .kwStruct | .kwInterface => true
  | _ => false

/-- Types. Parentheses leave no trace, as around an operand. -/
def type : Parser TypeExpr := do
  let start ← here
  match ← kind with
  | .ident => typeName
  | .lParen =>
    let _ ← advance
    let t ← unrestricted (parse .type)
    let _ ← expect .rParen
    pure t
  | .arrow =>
    let arrow ← advance
    receiveChan parse arrow.span
  | .lBrack =>
    let _ ← advance
    bracketType parse start
  | .star =>
    let _ ← advance
    finishType start (.pointer (← parse .type))
  | .kwMap =>
    let _ ← advance
    let _ ← expect .lBrack
    let key ← unrestricted (parse .type)
    let _ ← expect .rBrack
    finishType start (.map key (← parse .type))
  | .kwChan =>
    let _ ← advance
    let dir ←
      match ← eat .arrow with
      | some _ => pure .send
      | none => pure .both
    finishType start (.chan dir (← parse .type))
  | .kwFunc =>
    let _ ← advance
    finishType start (.func (← parse .signature))
  | .kwStruct => finishType start (.struct (← parse .structType))
  | .kwInterface => finishType start (.interface (← parse .interfaceType))
  | _ => unexpected "type"

-- =========================================================== parameters

/-- What the beginning of a parameter list has turned out to be. -/
inductive LeadingNames where
  /-- Nothing is decided yet; so far there are these names, the latest
  first. -/
  | undecided (names : List Ident)
  /-- The names are types. -/
  | types (names : List Ident)
  /-- The names are types, and so is the last one, which qualifies the
  name after a point. -/
  | qualified (names : List Ident) (pkg : Ident)
  /-- The names are those of the first group of parameters. -/
  | named (names : List Ident)

/-- Reads one more name and the comma after it, or finds what decides. A
comma before the closing parenthesis decides for types, and so does
anything but a name after a comma. -/
def leadingName (state : LeadingNames) : Parser (Turn LeadingNames) := do
  match state with
  | .undecided names =>
    if (← isAt .ident) then
      let name ← ident
      match ← kind with
      | .comma =>
        let _ ← advance
        if (← isAt .rParen) then pure (.stop (.types (name :: names)))
        else pure (.again (.undecided (name :: names)))
      | .rParen => pure (.stop (.types (name :: names)))
      | .dot => pure (.stop (.qualified names name))
      | _ => pure (.stop (.named (name :: names)))
    else pure (.stop (.types names))
  | decided => pure (.stop decided)

/-- Reads names and the commas after them up to the token that decides. -/
def leadingNames : Parser LeadingNames := repeating leadingName (.undecided [])

/-- A parameter that started at a place and ends here. -/
def finishParam (names : List Ident) (dots : Option Span) (type : TypeExpr) (start : Location) :
    Parser Param := do
  recording (·.addIdents names)
  newParam ⟨names, dots, type⟩ (← spanFrom start)

/-- Parameters without names, for names that are types. The names come
and the parameters go the latest first. -/
def typeNameParams (names : List Ident) : Parser (List Param) :=
  names.foldrM (fun name params => do
    let type ← newType (.name none name) name.span
    let param ← newParam ⟨[], none, type⟩ name.span
    pure (param :: params)) []

/-- After a parameter: whether the list goes on. A comma may stand before
the closing parenthesis. -/
def moreParams : Parser Bool := do
  match ← eat .comma with
  | some _ => pure !(← isAt .rParen)
  | none => pure false

/-- A parameter with names that have been read, if it has names, and
whether the list goes on after it. Dots make it the last. -/
def paramAfter (names : List Ident) (start : Location) : Parser (Param × Bool) := do
  let dots ← eat .ellipsis
  let type ← parse .type
  let param ← finishParam names dots type start
  if dots.isSome then
    let _ ← eat .comma
    pure (param, false)
  else pure (param, ← moreParams)

/-- One type more. -/
def unnamedParam (params : List Param) : Parser (Turn (List Param)) := do
  let (param, more) ← paramAfter parse [] (← here)
  if more then pure (.again (param :: params)) else pure (.stop (param :: params))

/-- Types, the last of them possibly variadic, after parameters that have
been read. -/
def unnamedParams (params : List Param) : Parser (List Param) :=
  repeating (unnamedParam parse) params

/-- The type of a group whose names have been read, and the names of the
next. -/
def namedParam : List Ident × List Param → Parser (Turn (List Ident × List Param))
  | (names, params) => do
    let start ← match names with
      | n :: _ => pure n.span.start
      | [] => here
    let (param, more) ← paramAfter parse names start
    if more then pure (.again (← commaSeparated ident, param :: params))
    else pure (.stop ([], param :: params))

/-- Named groups, the last of them possibly variadic; the names of the
first have been read. -/
def namedParams (names : List Ident) : Parser (List Param) := do
  let (_, params) ← repeating (namedParam parse) (names, [])
  pure params

/-- The parameters between parentheses, the latest first. There is at
least one token before the closing parenthesis. -/
def params : Parser (List Param) := do
  match ← leadingNames with
  | .named names => namedParams parse names.reverse
  | .qualified names pkg =>
    let params ← typeNameParams names
    let type ← qualifiedType pkg
    let params := (← finishParam [] none type pkg.span.start) :: params
    if (← moreParams) then unnamedParams parse params else pure params
  | .types names | .undecided names =>
    let params ← typeNameParams names
    if (← isAt .rParen) then pure params else unnamedParams parse params

def parameters : Parser ParamList := unrestricted do
  let lParen ← expect .lParen
  let params ← if (← isAt .rParen) then pure [] else List.reverse <$> params parse
  let rParen ← expect .rParen
  recording (·.addParams params)
  pure ⟨params, lParen.through rParen⟩

/-- Parameters and what is returned: nothing, a list in parentheses, or
any single type. -/
def signature : Parser Signature := do
  let params ← parse .parameters
  let result ←
    if (← isAt .lParen) then some <$> FuncResult.params <$> parse .parameters
    else if startsType (← kind) then some <$> FuncResult.type <$> parse .type
    else pure none
  pure ⟨params, result, ← spanFrom params.span.start⟩

-- =============================================== structs and interfaces

def structType : Parser (List Field) := do
  let _ ← expect .kwStruct
  let _ ← expect .lBrace
  let fields ← unrestricted (itemsUntil .rBrace .semi fun _ => parse .fieldDecl)
  let _ ← expect .rBrace
  recording (·.addFields fields)
  pure fields

/-- The names and the type of a field; no names if it is embedded. -/
def fieldParts : Parser (List Ident × TypeExpr) := do
  let start ← here
  match ← kind with
  | .star =>
    let _ ← advance
    let elem ← typeName
    pure ([], ← finishType start (.pointer elem))
  | .ident =>
    let first ← ident
    match ← kind with
    | .dot | .stringLit | .rawStringLit | .semi | .rBrace =>
      pure ([], ← qualifiedType first)
    | _ =>
      let names ← afterCommas ident first
      let type ← parse .type
      recording (·.addIdents names)
      pure (names, type)
  | _ => unexpected "field name or embedded type"

def fieldDecl : Parser Field := do
  let start ← here
  let (names, type) ← fieldParts parse
  let tag ←
    match ← kind with
    | .stringLit | .rawStringLit => some <$> literal
    | _ => pure none
  newField ⟨names, type, tag⟩ (← spanFrom start)

/-- A method if parameters follow the name, an embedded interface if not. -/
def interfaceElement : Parser InterfaceElement := do
  let name ← ident
  if (← isAt .lParen) then pure (.method name (← parse .signature))
  else pure (.embedded (← qualifiedType name))

def interfaceType : Parser (List InterfaceElement) := do
  let _ ← expect .kwInterface
  let _ ← expect .lBrace
  let elements ← unrestricted (itemsUntil .rBrace .semi fun _ => interfaceElement parse)
  let _ ← expect .rBrace
  recording (·.addInterfaceElements elements)
  pure elements

end GoSource.Grammar
