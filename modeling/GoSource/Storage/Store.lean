/-
The store that rows, lists and texts are put in.

There is a table for each kind of nodes, a buffer for each kind of lists,
and the interner. Whatever is put in gets a number or a range, by which it
can be referred to from then on; nothing is ever changed or taken out.
-/
import GoSource.Interner
import GoSource.Literal
import GoSource.Storage.Row

namespace GoSource.Stored

/-- The items of all lists, by kind. -/
structure Buffers where
  idents : Array Ident
  exprs : Array ExprId
  stmts : Array StmtId
  decls : Array DeclId
  fields : Array FieldId
  params : Array ParamId
  elements : Array Element
  interfaceElements : Array InterfaceElement
  importSpecs : Array ImportSpec
  docLines : Array String

def Buffers.empty : Buffers := ⟨#[], #[], #[], #[], #[], #[], #[], #[], #[], #[]⟩

structure Store where
  decls : Table Decl
  stmts : Table Stmt
  exprs : Table Expr
  types : Table TypeExpr
  fields : Table Field
  params : Table Param
  literals : Table Literal
  names : Names
  lists : Buffers

namespace Store

def empty : Store := ⟨.empty, .empty, .empty, .empty, .empty, .empty, .empty, .empty, .empty⟩

-- ================================================================= nodes

def allocDecl (st : Store) (row : Decl) (span : Span) : DeclId × Store :=
  let (id, decls) := st.decls.alloc row span
  (id, { st with decls })

def allocStmt (st : Store) (row : Stmt) (span : Span) : StmtId × Store :=
  let (id, stmts) := st.stmts.alloc row span
  (id, { st with stmts })

def allocExpr (st : Store) (row : Expr) (span : Span) : ExprId × Store :=
  let (id, exprs) := st.exprs.alloc row span
  (id, { st with exprs })

def allocType (st : Store) (row : TypeExpr) (span : Span) : TypeId × Store :=
  let (id, types) := st.types.alloc row span
  (id, { st with types })

def allocField (st : Store) (row : Field) (span : Span) : FieldId × Store :=
  let (id, fields) := st.fields.alloc row span
  (id, { st with fields })

def allocParam (st : Store) (row : Param) (span : Span) : ParamId × Store :=
  let (id, params) := st.params.alloc row span
  (id, { st with params })

def allocLiteral (st : Store) (value : Literal) (span : Span) : LitId × Store :=
  let (id, literals) := st.literals.alloc value span
  (id, { st with literals })

-- ======================================================= texts and lists

def intern (st : Store) (text : String) : Symbol × Store :=
  let (symbol, names) := st.names.intern text
  (symbol, { st with names })

def listIdents (st : Store) (items : List Ident) : ListRef × Store :=
  let (r, idents) := pushList st.lists.idents items
  (r, { st with lists := { st.lists with idents } })

def listExprs (st : Store) (items : List ExprId) : ListRef × Store :=
  let (r, exprs) := pushList st.lists.exprs items
  (r, { st with lists := { st.lists with exprs } })

def listStmts (st : Store) (items : List StmtId) : ListRef × Store :=
  let (r, stmts) := pushList st.lists.stmts items
  (r, { st with lists := { st.lists with stmts } })

def listDecls (st : Store) (items : List DeclId) : ListRef × Store :=
  let (r, decls) := pushList st.lists.decls items
  (r, { st with lists := { st.lists with decls } })

def listFields (st : Store) (items : List FieldId) : ListRef × Store :=
  let (r, fields) := pushList st.lists.fields items
  (r, { st with lists := { st.lists with fields } })

def listParams (st : Store) (items : List ParamId) : ListRef × Store :=
  let (r, params) := pushList st.lists.params items
  (r, { st with lists := { st.lists with params } })

def listElements (st : Store) (items : List Element) : ListRef × Store :=
  let (r, elements) := pushList st.lists.elements items
  (r, { st with lists := { st.lists with elements } })

def listInterfaceElements (st : Store) (items : List InterfaceElement) : ListRef × Store :=
  let (r, interfaceElements) := pushList st.lists.interfaceElements items
  (r, { st with lists := { st.lists with interfaceElements } })

def listImportSpecs (st : Store) (items : List ImportSpec) : ListRef × Store :=
  let (r, importSpecs) := pushList st.lists.importSpecs items
  (r, { st with lists := { st.lists with importSpecs } })

def listDocLines (st : Store) (items : List String) : ListRef × Store :=
  let (r, docLines) := pushList st.lists.docLines items
  (r, { st with lists := { st.lists with docLines } })

end Store

end GoSource.Stored
