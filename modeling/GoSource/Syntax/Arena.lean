/-
The record of everything that was built.

An arena numbers nodes: completing a node means asking the arena for the
next number of its kind and leaving the node there. So the node with
number `i` is the `i`-th entry, for as long as the arena lives, and a node
is recorded after all nodes it contains. Nodes stay recorded also if the
parse that made them fails, or makes something else of what it read.

Beside the nodes the arena holds the names that occur in them, and the
lists: every list of a finished form is appended, item by item, to the
list of its kind when the form is completed.

What is recorded is whole: a node holds the nodes, lists and names that it
is made of. How nodes can be kept apart instead, with numbers, ranges and
symbols for what they are made of, is told by the store (`Stored.Store`);
both come to the same (`Stored.parseStream_mimics`).

One arena may serve many parses, one after the other. Nothing recorded is
ever changed, so a tree from an earlier parse is not disturbed by a later
one.
-/
import GoSource.Interner
import GoSource.Syntax.Tree

namespace GoSource

/-- The items of all lists, by kind, in the order of completion. -/
structure Lists where
  idents : Array Ident
  exprs : Array Expr
  stmts : Array Stmt
  decls : Array Decl
  fields : Array Field
  params : Array Param
  elements : Array Element
  interfaceElements : Array InterfaceElement
  importSpecs : Array ImportSpec
  docLines : Array String

def Lists.empty : Lists := ⟨#[], #[], #[], #[], #[], #[], #[], #[], #[], #[]⟩

structure Arena where
  decls : Array Decl
  stmts : Array Stmt
  exprs : Array Expr
  types : Array TypeExpr
  fields : Array Field
  params : Array Param
  literals : Array Lit
  names : Names
  lists : Lists

namespace Arena

def empty : Arena := ⟨#[], #[], #[], #[], #[], #[], #[], .empty, .empty⟩

-- ================================================================ nodes

/-- The node that comes next in a sequence of nodes. -/
def nextNode {α : Type} (nodes : Array (Node α)) (form : α) (span : Span) : Node α :=
  ⟨nodes.size, span, form⟩

def addDecl (a : Arena) (form : DeclForm) (span : Span) : Decl × Arena :=
  let n := nextNode a.decls form span
  (n, { a with decls := a.decls.push n })

def addStmt (a : Arena) (form : StmtForm) (span : Span) : Stmt × Arena :=
  let n := nextNode a.stmts form span
  (n, { a with stmts := a.stmts.push n })

def addExpr (a : Arena) (form : ExprForm) (span : Span) : Expr × Arena :=
  let n := nextNode a.exprs form span
  (n, { a with exprs := a.exprs.push n })

def addType (a : Arena) (form : TypeForm) (span : Span) : TypeExpr × Arena :=
  let n := nextNode a.types form span
  (n, { a with types := a.types.push n })

def addField (a : Arena) (form : FieldForm) (span : Span) : Field × Arena :=
  let n := nextNode a.fields form span
  (n, { a with fields := a.fields.push n })

def addParam (a : Arena) (form : ParamForm) (span : Span) : Param × Arena :=
  let n := nextNode a.params form span
  (n, { a with params := a.params.push n })

def addLiteral (a : Arena) (form : Literal) (span : Span) : Lit × Arena :=
  let n := nextNode a.literals form span
  (n, { a with literals := a.literals.push n })

-- ====================================================== names and lists

/-- Records a name that occurs. -/
def addName (a : Arena) (name : String) : Arena :=
  { a with names := (a.names.intern name).2 }

def addIdents (a : Arena) (items : List Ident) : Arena :=
  { a with lists := { a.lists with idents := a.lists.idents.appendList items } }

def addExprs (a : Arena) (items : List Expr) : Arena :=
  { a with lists := { a.lists with exprs := a.lists.exprs.appendList items } }

def addStmts (a : Arena) (items : List Stmt) : Arena :=
  { a with lists := { a.lists with stmts := a.lists.stmts.appendList items } }

def addDecls (a : Arena) (items : List Decl) : Arena :=
  { a with lists := { a.lists with decls := a.lists.decls.appendList items } }

def addFields (a : Arena) (items : List Field) : Arena :=
  { a with lists := { a.lists with fields := a.lists.fields.appendList items } }

def addParams (a : Arena) (items : List Param) : Arena :=
  { a with lists := { a.lists with params := a.lists.params.appendList items } }

def addElements (a : Arena) (items : List Element) : Arena :=
  { a with lists := { a.lists with elements := a.lists.elements.appendList items } }

def addInterfaceElements (a : Arena) (items : List InterfaceElement) : Arena :=
  { a with lists :=
    { a.lists with interfaceElements := a.lists.interfaceElements.appendList items } }

def addImportSpecs (a : Arena) (items : List ImportSpec) : Arena :=
  { a with lists := { a.lists with importSpecs := a.lists.importSpecs.appendList items } }

def addDocLines (a : Arena) (items : List String) : Arena :=
  { a with lists := { a.lists with docLines := a.lists.docLines.appendList items } }

end Arena

end GoSource
