/-
Types, signatures and what they contain, built in a store.

A parameter list, a signature and the elements of an interface are parts
of rows, so they are returned as they are and stored with the row. The
fields of a struct and the elements of an interface have become lists by
then, and a list of parameters is one before its production returns.
-/
import GoSource.Grammar.TypeExpr
import GoSource.Storage.Grammar.Expression

namespace GoSource.Stored.Grammar

open GoSource.Grammar (startsType)
open GoSource.Parser (Turn)
open GoSource.Stored.Parser

variable (parse : SubParser)

-- ================================================================ names

/-- A type named by an identifier that has been read, and qualified if a
point follows. -/
def qualifiedType (first : Ident) : Parser TypeId := do
  let row ←
    match ← eat .dot with
    | some _ => pure (.name (some first) (← ident))
    | none => pure (.name none first)
  newType row (← spanFrom first.span.start)

def typeName : Parser TypeId := do
  qualifiedType (← ident)

-- ================================================================ types

/-- A row for a type that started at a place and ends here. -/
def finishType (start : Location) (row : TypeExpr) : Parser TypeId := do
  newType row (← spanFrom start)

/-- The rest of an array or slice type, after its opening bracket. -/
def bracketType (start : Location) : Parser TypeId := do
  match ← eat .rBrack with
  | some _ => finishType start (.slice (← parse.type))
  | none =>
    let length ←
      match ← eat .ellipsis with
      | some dots => pure (.dots dots)
      | none => ArrayLength.expr <$> unrestricted parse.expression
    let _ ← expect .rBrack
    finishType start (.array length (← parse.type))

def type : Parser TypeId := do
  let start ← here
  match ← kind with
  | .ident => typeName
  | .lParen =>
    let _ ← advance
    let t ← unrestricted parse.type
    let _ ← expect .rParen
    pure t
  | .arrow =>
    let arrow ← advance
    receiveChan parse arrow.span
  | .lBrack =>
    let _ ← advance
    bracketType parse start
  | .star =>
    let _ ← advance
    finishType start (.pointer (← parse.type))
  | .kwMap =>
    let _ ← advance
    let _ ← expect .lBrack
    let key ← unrestricted parse.type
    let _ ← expect .rBrack
    finishType start (.map key (← parse.type))
  | .kwChan =>
    let _ ← advance
    let dir ←
      match ← eat .arrow with
      | some _ => pure .send
      | none => pure .both
    finishType start (.chan dir (← parse.type))
  | .kwFunc =>
    let _ ← advance
    finishType start (.func (← parse.signature))
  | .kwStruct => finishType start (.struct (← parse.structType))
  | .kwInterface => finishType start (.interface (← parse.interfaceType))
  | _ => unexpected "type"

-- =========================================================== parameters

/-- What the beginning of a parameter list has turned out to be. -/
inductive LeadingNames where
  | undecided (names : List Ident)
  | types (names : List Ident)
  | qualified (names : List Ident) (pkg : Ident)
  | named (names : List Ident)

/-- Reads one more name and the comma after it, or finds what decides. -/
def leadingName (state : LeadingNames) : Parser (Turn LeadingNames) := do
  match state with
  | .undecided names =>
    if (← isAt .ident) then
      let name ← ident
      match ← kind with
      | .comma =>
        let _ ← advance
        if (← isAt .rParen) then pure (.stop (.types (name :: names)))
        else pure (.again (.undecided (name :: names)))
      | .rParen => pure (.stop (.types (name :: names)))
      | .dot => pure (.stop (.qualified names name))
      | _ => pure (.stop (.named (name :: names)))
    else pure (.stop (.types names))
  | decided => pure (.stop decided)

/-- Reads names and the commas after them up to the token that decides. -/
def leadingNames : Parser LeadingNames := repeating leadingName (.undecided [])

/-- A parameter that started at a place and ends here. Its names become a
list even if there are none. -/
def finishParam (names : List Ident) (dots : Option Span) (type : TypeId) (start : Location) :
    Parser ParamId := do
  let names ← listIdents names
  newParam ⟨names, dots, type⟩ (← spanFrom start)

/-- Parameters without names, for names that are types. These have no list
of names in the buffer. -/
def typeNameParams (names : List Ident) : Parser (List ParamId) :=
  names.foldrM (fun name params => do
    let type ← newType (.name none name) name.span
    let param ← newParam ⟨.empty, none, type⟩ name.span
    pure (param :: params)) []

/-- After a parameter: whether the list goes on. -/
def moreParams : Parser Bool := do
  match ← eat .comma with
  | some _ => pure !(← isAt .rParen)
  | none => pure false

/-- A parameter with names that have been read, if it has names, and
whether the list goes on after it. -/
def paramAfter (names : List Ident) (start : Location) : Parser (ParamId × Bool) := do
  let dots ← eat .ellipsis
  let type ← parse.type
  let param ← finishParam names dots type start
  if dots.isSome then
    let _ ← eat .comma
    pure (param, false)
  else pure (param, ← moreParams)

/-- One type more. -/
def unnamedParam (params : List ParamId) : Parser (Turn (List ParamId)) := do
  let (param, more) ← paramAfter parse [] (← here)
  if more then pure (.again (param :: params)) else pure (.stop (param :: params))

def unnamedParams (params : List ParamId) : Parser (List ParamId) :=
  repeating (unnamedParam parse) params

/-- The type of a group whose names have been read, and the names of the
next. -/
def namedParam : List Ident × List ParamId → Parser (Turn (List Ident × List ParamId))
  | (names, params) => do
    let start ← match names with
      | n :: _ => pure n.span.start
      | [] => here
    let (param, more) ← paramAfter parse names start
    if more then pure (.again (← commaSeparated ident, param :: params))
    else pure (.stop ([], param :: params))

def namedParams (names : List Ident) : Parser (List ParamId) := do
  let (_, params) ← repeating (namedParam parse) (names, [])
  pure params

/-- The parameters between parentheses, the latest first. -/
def params : Parser (List ParamId) := do
  match ← leadingNames with
  | .named names => namedParams parse names.reverse
  | .qualified names pkg =>
    let params ← typeNameParams names
    let type ← qualifiedType pkg
    let params := (← finishParam [] none type pkg.span.start) :: params
    if (← moreParams) then unnamedParams parse params else pure params
  | .types names | .undecided names =>
    let params ← typeNameParams names
    if (← isAt .rParen) then pure params else unnamedParams parse params

def parameters : Parser ParamList := unrestricted do
  let lParen ← expect .lParen
  let params ← if (← isAt .rParen) then pure [] else List.reverse <$> params parse
  let rParen ← expect .rParen
  let params ← listParams params
  pure ⟨params, lParen.through rParen⟩

def signature : Parser Signature := do
  let params ← parse.parameters
  let result ←
    if (← isAt .lParen) then some <$> FuncResult.params <$> parse.parameters
    else if startsType (← kind) then some <$> FuncResult.type <$> parse.type
    else pure none
  pure ⟨params, result, ← spanFrom params.span.start⟩

-- =============================================== structs and interfaces

def structType : Parser ListRef := do
  let _ ← expect .kwStruct
  let _ ← expect .lBrace
  let fields ← unrestricted (itemsUntil .rBrace .semi fun _ => parse.fieldDecl)
  let _ ← expect .rBrace
  listFields fields

/-- The names and the type of a field; an embedded one has no list of names
in the buffer. -/
def fieldParts : Parser (ListRef × TypeId) := do
  let start ← here
  match ← kind with
  | .star =>
    let _ ← advance
    let elem ← typeName
    pure (.empty, ← finishType start (.pointer elem))
  | .ident =>
    let first ← ident
    match ← kind with
    | .dot | .stringLit | .rawStringLit | .semi | .rBrace =>
      pure (.empty, ← qualifiedType first)
    | _ =>
      let names ← afterCommas ident first
      let type ← parse.type
      pure (← listIdents names, type)
  | _ => unexpected "field name or embedded type"

def fieldDecl : Parser FieldId := do
  let start ← here
  let (names, type) ← fieldParts parse
  let tag ←
    match ← kind with
    | .stringLit | .rawStringLit => some <$> literal
    | _ => pure none
  newField ⟨names, type, tag⟩ (← spanFrom start)

/-- A method if parameters follow the name, an embedded interface if not. -/
def interfaceElement : Parser InterfaceElement := do
  let name ← ident
  if (← isAt .lParen) then pure (.method name (← parse.signature))
  else pure (.embedded (← qualifiedType name))

def interfaceType : Parser ListRef := do
  let _ ← expect .kwInterface
  let _ ← expect .lBrace
  let elements ← unrestricted (itemsUntil .rBrace .semi fun _ => interfaceElement parse)
  let _ ← expect .rBrace
  listInterfaceElements elements

end GoSource.Stored.Grammar
