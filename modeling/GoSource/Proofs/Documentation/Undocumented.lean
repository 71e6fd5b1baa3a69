/-
Trees without their documentation.

`Undocumented` takes the lines of comments out of a tree and leaves the rest
as it is, spans and numbers included. Only declarations are documented, so
expressions and types, which contain none, stay the same altogether.
-/
import GoSource.Parse

namespace GoSource

namespace Undocumented

mutual

def decl : Node DeclForm → Node DeclForm
  | ⟨i, sp, form⟩ => ⟨i, sp, declForm form⟩

def declForm : DeclForm → DeclForm
  | .imports d => .imports { d with doc := [] }
  | .const c => .const { c with doc := [] }
  | .var v => .var { v with doc := [] }
  | .type t => .type { t with doc := [] }
  | .func d => .func (functionDecl d)
  | .method d => .method (methodDecl d)

def functionDecl : FunctionDecl → FunctionDecl
  | ⟨_, funcSpan, n, sig, body⟩ => ⟨[], funcSpan, n, sig, optionalBlock body⟩

def methodDecl : MethodDecl → MethodDecl
  | ⟨_, funcSpan, receiver, n, sig, body⟩ => ⟨[], funcSpan, receiver, n, sig, optionalBlock body⟩

def declList : List (Node DeclForm) → List (Node DeclForm)
  | [] => []
  | d :: ds => decl d :: declList ds

def block : Block → Block
  | ⟨stmts, sp⟩ => ⟨stmtList stmts, sp⟩

def optionalBlock : Option Block → Option Block
  | none => none
  | some b => some (block b)

def stmt : Node StmtForm → Node StmtForm
  | ⟨i, sp, form⟩ => ⟨i, sp, stmtForm form⟩

def stmtForm : StmtForm → StmtForm
  | .decl ds => .decl (declList ds)
  | .labeled label s => .labeled label (stmt s)
  | .block b => .block (block b)
  | .ifStmt init cond body other =>
    .ifStmt (optionalStmt init) cond (block body) (optionalStmt other)
  | .forStmt header body => .forStmt (forHeader header) (block body)
  | form => form

def optionalStmt : Option (Node StmtForm) → Option (Node StmtForm)
  | none => none
  | some s => some (stmt s)

def stmtList : List (Node StmtForm) → List (Node StmtForm)
  | [] => []
  | s :: ss => stmt s :: stmtList ss

def forHeader : ForHeader → ForHeader
  | .clause init cond post => .clause (optionalStmt init) cond (optionalStmt post)
  | .range s => .range (stmt s)
  | header => header

end

def file (f : File) : File := { f with imports := f.imports.map decl, decls := f.decls.map decl }

def draft (d : Draft) : Draft := ⟨stmtForm d.form, d.span⟩

def root : Root → Root
  | .expr x => .expr x
  | .decls ds => .decls (ds.map decl)
  | .file f => .file (file f)
  | .stmts ss => .stmts (ss.map stmt)
  | .stmt s => .stmt (stmt s)

-- ====================================================== lists and options

@[simp] theorem declList_eq (ds : List Decl) : declList ds = ds.map decl := by
  induction ds with
  | nil => rfl
  | cons d ds ih => rw [declList, ih, List.map_cons]

@[simp] theorem stmtList_eq (ss : List Stmt) : stmtList ss = ss.map stmt := by
  induction ss with
  | nil => rfl
  | cons s ss ih => rw [stmtList, ih, List.map_cons]

@[simp] theorem optionalBlock_eq (b : Option Block) : optionalBlock b = b.map block := by
  cases b <;> rfl

@[simp] theorem optionalStmt_eq (s : Option Stmt) : optionalStmt s = s.map stmt := by
  cases s <;> rfl

@[simp] theorem span_block (b : Block) : (block b).span = b.span := by
  cases b
  rfl

end Undocumented

end GoSource
