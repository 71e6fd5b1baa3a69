/-
Parsing whole inputs.

An entry says what the whole input is taken for. Whatever it is, success
means that the input was read to its end; a semicolon may stand after a
lone expression or guard, since the end of a line puts one there.

A parse is given an arena and returns it with what it added, also if it
fails.
-/
import GoSource.Grammar
import GoSource.Lexer

namespace GoSource

/-- What a whole input is taken for. -/
inductive Entry where
  | expression
  /-- Top-level declarations, imports among them, without a package
  clause. -/
  | declarations
  | file
  /-- Statements as inside a block. -/
  | statements
  /-- `x.(type)` or `v := x.(type)`. -/
  | typeSwitchGuard
deriving DecidableEq, Repr

/-- What a successful parse returns, by entry. -/
inductive Root where
  | expr (x : Expr)
  | decls (decls : List Decl)
  | file (file : File)
  | stmts (stmts : List Stmt)
  | stmt (stmt : Stmt)

namespace Entry

open GoSource.Parser

variable (parse : SubParser)

def wholeExpr : Parser Expr := do
  let x ← parse .expression
  let _ ← eat .semi
  let _ ← expect .eof
  pure x

def wholeStmts : Parser (List Stmt) := do
  let stmts ← Grammar.stmtList parse
  let _ ← expect .eof
  pure stmts

def parser : Entry → Parser Root
  | expression => Root.expr <$> wholeExpr parse
  | declarations => Root.decls <$> Grammar.declarations parse
  | file => Root.file <$> parse .file
  | statements => Root.stmts <$> wholeStmts parse
  | typeSwitchGuard => Root.stmt <$> parse .typeSwitchGuard

end Entry

/-- How many productions may be active at once, unless said otherwise. -/
def defaultMaxDepth : Nat := 1000

/-- Parses a stream of tokens into an arena. -/
def parseStream (stream : Token.Stream) (entry : Entry) (maxDepth : Nat) (arena : Arena) :
    Except ParseError Root × Arena :=
  match entry.parser (Grammar.parse maxDepth) (.start stream arena) with
  | .ok root s => (.ok root, s.arena)
  | .error e s => (.error e, s.arena)

/-- Parses prepared tokens into an arena. -/
def parseTokens (tokens : List Token) (entry : Entry) (maxDepth : Nat) (arena : Arena) :
    Except ParseError Root × Arena :=
  parseStream (.ofTokens tokens) entry maxDepth arena

/-- Parses a source text into an arena. -/
def parseSource (source : String) (entry : Entry) (maxDepth : Nat) (arena : Arena) :
    Except ParseError Root × Arena :=
  parseStream (.ofSource source) entry maxDepth arena

-- ======================================================= single entries

/-- Parses a source file. -/
def parseFile (source : String) (maxDepth : Nat) (arena : Arena) :
    Except ParseError File × Arena :=
  match Grammar.parse maxDepth .file (.start (.ofSource source) arena) with
  | .ok file s => (.ok file, s.arena)
  | .error e s => (.error e, s.arena)

/-- Parses top-level declarations. -/
def parseDecls (source : String) (maxDepth : Nat) (arena : Arena) :
    Except ParseError (List Decl) × Arena :=
  match Grammar.declarations (Grammar.parse maxDepth) (.start (.ofSource source) arena) with
  | .ok decls s => (.ok decls, s.arena)
  | .error e s => (.error e, s.arena)

end GoSource
