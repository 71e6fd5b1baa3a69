/-
Parsing whole inputs into a store.

A parse is given a store and returns it with what it has put in, also if
it fails. What it returns refers to the store.
-/
import GoSource.Parse
import GoSource.Storage.Grammar

namespace GoSource.Stored

/-- What a successful parse returns. -/
inductive Root where
  | expr (x : ExprId)
  | decls (decls : ListRef)
  | file (file : File)
  | stmts (stmts : ListRef)
  | stmt (stmt : StmtId)

open GoSource.Stored.Parser in
def wholeExpr (parse : SubParser) : Parser ExprId := do
  let x ← parse.expression
  let _ ← eat .semi
  let _ ← expect .eof
  pure x

open GoSource.Stored.Parser in
def wholeStmts (parse : SubParser) : Parser ListRef := do
  let stmts ← Grammar.stmtList parse
  let _ ← expect .eof
  pure stmts

/-- The whole input, taken for what the entry says. -/
def entryParser (parse : SubParser) : Entry → Parser Root
  | .expression => .expr <$> wholeExpr parse
  | .declarations => .decls <$> Grammar.declarations parse
  | .file => .file <$> parse.file
  | .statements => .stmts <$> wholeStmts parse
  | .typeSwitchGuard => .stmt <$> parse.typeSwitchGuard

/-- Parses a stream of tokens into a store. -/
def parseStream (stream : Token.Stream) (entry : Entry) (maxDepth : Nat) (store : Store) :
    Except Fault Root × Store :=
  match entryParser (Grammar.parse maxDepth) entry ⟨.start stream .empty, store⟩ with
  | .ok root s => (.ok root, s.store)
  | .error e s => (.error e, s.store)

end GoSource.Stored
