/-
The grammar, tied together.

`Production.body` says what each production consists of, given a way to
parse further ones. `Grammar.parse` supplies that way: it takes the number
of productions that may still become active, and every production it
starts has one less to give away. At zero nothing can be started, and the
parse fails. The limit is thus the measure of the recursion; there is no
other bound on nesting, in particular none on the stack that a machine
needs for it.
-/
import GoSource.Grammar.Declaration

namespace GoSource

/-- What a production consists of. -/
def Production.body (parse : SubParser) {α : Type} : Production α → Parser α
  | .expression => Grammar.expression parse
  | .unaryExpr => Grammar.unaryExpr parse
  | .primaryExpr => Grammar.primaryExpr parse
  | .operand => Grammar.operand parse
  | .indexOrSlice x => Grammar.indexOrSlice parse x
  | .call f => Grammar.call parse f
  | .compositeLit t start => Grammar.compositeLit parse t start
  | .type => Grammar.type parse
  | .signature => Grammar.signature parse
  | .parameters => Grammar.parameters parse
  | .structType => Grammar.structType parse
  | .fieldDecl => Grammar.fieldDecl parse
  | .interfaceType => Grammar.interfaceType parse
  | .block => Grammar.block parse
  | .statement => Grammar.statement parse
  | .simpleStmt mode => Grammar.simpleStmt parse mode
  | .ifStmt => Grammar.ifStmt parse
  | .forStmt => Grammar.forStmt parse
  | .group kind => Grammar.group parse kind
  | .functionDecl => Grammar.functionDecl parse
  | .importDecl => Grammar.importDecl
  | .file => Grammar.file parse
  | .typeSwitchGuard => Grammar.typeSwitchGuard parse

/-- Parses a production when as many more may be active as given, this one
included. -/
def Grammar.parse : (depth : Nat) → SubParser
  | 0, _, _ => Parser.tooDeep
  | depth + 1, _, p => Parser.within p.name (p.body (parse depth))

end GoSource
