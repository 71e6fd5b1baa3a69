/-
The grammar over a store, tied together.

Every production counts against the number of those that may be active,
as it does where trees are built.
-/
import GoSource.Storage.Grammar.Declaration

namespace GoSource.Stored

/-- How productions are parsed when none may become active. -/
def SubParser.exhausted : SubParser where
  expression := Parser.tooDeep
  unaryExpr := Parser.tooDeep
  primaryExpr := Parser.tooDeep
  operand := Parser.tooDeep
  indexOrSlice _ := Parser.tooDeep
  call _ := Parser.tooDeep
  compositeLit _ _ := Parser.tooDeep
  type := Parser.tooDeep
  signature := Parser.tooDeep
  parameters := Parser.tooDeep
  structType := Parser.tooDeep
  fieldDecl := Parser.tooDeep
  interfaceType := Parser.tooDeep
  block := Parser.tooDeep
  statement := Parser.tooDeep
  simpleStmt _ := Parser.tooDeep
  ifStmt := Parser.tooDeep
  forStmt := Parser.tooDeep
  group _ := Parser.tooDeep
  functionDecl := Parser.tooDeep
  importDecl := Parser.tooDeep
  file := Parser.tooDeep
  typeSwitchGuard := Parser.tooDeep

open GoSource.Stored.Parser in
/-- How productions are parsed as active ones, with those that they contain
parsed as given. -/
def SubParser.next (parse : SubParser) : SubParser where
  expression := within "Expression" (Grammar.expression parse)
  unaryExpr := within "UnaryExpr" (Grammar.unaryExpr parse)
  primaryExpr := within "PrimaryExpr" (Grammar.primaryExpr parse)
  operand := within "Operand" (Grammar.operand parse)
  indexOrSlice x := within "IndexOrSlice" (Grammar.indexOrSlice parse x)
  call f := within "Call" (Grammar.call parse f)
  compositeLit t start := within "CompositeLit" (Grammar.compositeLit parse t start)
  type := within "Type" (Grammar.type parse)
  signature := within "Signature" (Grammar.signature parse)
  parameters := within "Parameters" (Grammar.parameters parse)
  structType := within "StructType" (Grammar.structType parse)
  fieldDecl := within "FieldDecl" (Grammar.fieldDecl parse)
  interfaceType := within "InterfaceType" (Grammar.interfaceType parse)
  block := within "Block" (Grammar.block parse)
  statement := within "Statement" (Grammar.statement parse)
  simpleStmt mode := within "SimpleStmt" (Grammar.simpleStmt parse mode)
  ifStmt := within "IfStmt" (Grammar.ifStmt parse)
  forStmt := within "ForStmt" (Grammar.forStmt parse)
  group kind := within (Production.group kind).name (Grammar.group parse kind)
  functionDecl := within "FunctionDecl" (Grammar.functionDecl parse)
  importDecl := within "ImportDecl" Grammar.importDecl
  file := within "File" (Grammar.file parse)
  typeSwitchGuard := within "TypeSwitchGuard" (Grammar.typeSwitchGuard parse)

/-- Parses productions when as many may be active as given. -/
def Grammar.parse : (depth : Nat) → SubParser
  | 0 => .exhausted
  | depth + 1 => (parse depth).next

end GoSource.Stored
