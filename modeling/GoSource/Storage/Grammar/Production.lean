/-
How further productions are parsed, for parsers that build in a store.

There is a field for each production, with what it returns: the number of
a node, or what is to become part of a row. Those with arguments continue
something that has been stored.
-/
import GoSource.Grammar.Production
import GoSource.Storage.Parser

namespace GoSource.Stored

structure SubParser where
  expression : Parser ExprId
  unaryExpr : Parser ExprId
  primaryExpr : Parser ExprId
  operand : Parser ExprId
  indexOrSlice (x : ExprId) : Parser ExprId
  call (f : ExprId) : Parser ExprId
  compositeLit (type : Option TypeId) (start : Location) : Parser ExprId
  type : Parser TypeId
  signature : Parser Signature
  parameters : Parser ParamList
  /-- The list of the fields. -/
  structType : Parser ListRef
  fieldDecl : Parser FieldId
  /-- The list of the elements. -/
  interfaceType : Parser ListRef
  block : Parser Block
  statement : Parser StmtId
  simpleStmt (mode : SimpleMode) : Parser Draft
  ifStmt : Parser StmtId
  forStmt : Parser Stmt
  /-- The declarations, which are still to become a list. -/
  group (kind : GroupKind) : Parser (List DeclId)
  functionDecl : Parser DeclId
  importDecl : Parser DeclId
  file : Parser File
  typeSwitchGuard : Parser StmtId

end GoSource.Stored
