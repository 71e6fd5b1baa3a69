/-
Operators, and the tokens that stand for them.

Which token means which operator is said here once, as a function from
kinds of tokens: a kind with no operator is one that ends an expression as
far as the caller is concerned. A token may mean two different things in
two places (`-` negates and subtracts), hence one function for each class
of operators.
-/
import GoSource.Token

namespace GoSource

-- ================================================================ unary

/-- Operators in front of an operand. -/
inductive UnaryOp where
  | plus | negate | not | complement | deref | address | receive
deriving DecidableEq, Repr

namespace UnaryOp

def ofKind : Token.Kind → Option UnaryOp
  | .plus => some plus
  | .minus => some negate
  | .bang => some not
  | .caret => some complement
  | .star => some deref
  | .amp => some address
  | .arrow => some receive
  | _ => none

def spelling : UnaryOp → String
  | plus => "+"
  | negate => "-"
  | not => "!"
  | complement => "^"
  | deref => "*"
  | address => "&"
  | receive => "<-"

end UnaryOp

-- =============================================================== binary

/-- Operators between two operands. -/
inductive BinaryOp where
  | add | sub | mul | div | mod
  | and | or | xor | shl | shr | andNot
  | logicalAnd | logicalOr
  | equal | notEqual | less | lessEqual | greater | greaterEqual
deriving DecidableEq, Repr

namespace BinaryOp

def ofKind : Token.Kind → Option BinaryOp
  | .logicalOr => some logicalOr
  | .logicalAnd => some logicalAnd
  | .equal => some equal
  | .notEqual => some notEqual
  | .less => some less
  | .lessEqual => some lessEqual
  | .greater => some greater
  | .greaterEqual => some greaterEqual
  | .plus => some add
  | .minus => some sub
  | .pipe => some or
  | .caret => some xor
  | .star => some mul
  | .slash => some div
  | .percent => some mod
  | .shl => some shl
  | .shr => some shr
  | .amp => some and
  | .andNot => some andNot
  | _ => none

/-- How tightly the operator binds, from one to five. -/
def precedence : BinaryOp → Nat
  | logicalOr => 1
  | logicalAnd => 2
  | equal | notEqual | less | lessEqual | greater | greaterEqual => 3
  | add | sub | or | xor => 4
  | mul | div | mod | shl | shr | and | andNot => 5

/-- The number of levels of precedence. -/
def levels : Nat := 5

theorem precedence_le (op : BinaryOp) : op.precedence ≤ levels := by
  cases op <;> decide

def spelling : BinaryOp → String
  | add => "+"
  | sub => "-"
  | mul => "*"
  | div => "/"
  | mod => "%"
  | and => "&"
  | or => "|"
  | xor => "^"
  | shl => "<<"
  | shr => ">>"
  | andNot => "&^"
  | logicalAnd => "&&"
  | logicalOr => "||"
  | equal => "=="
  | notEqual => "!="
  | less => "<"
  | lessEqual => "<="
  | greater => ">"
  | greaterEqual => ">="

/-- The operators of each level as they are written, the loosest first. -/
def table : List (List String) :=
  [["||"], ["&&"], ["==", "!=", "<", "<=", ">", ">="], ["+", "-", "|", "^"],
   ["*", "/", "%", "<<", ">>", "&", "&^"]]

/-- An operator is of the level at which it is written in the table. -/
theorem precedence_eq_iff (op : BinaryOp) (level : Nat) :
    op.precedence = level + 1 ↔ ∃ row, table[level]? = some row ∧ op.spelling ∈ row := by
  match level with
  | 0 | 1 | 2 | 3 | 4 => cases op <;> simp [table, precedence, spelling]
  | level + 5 => cases op <;> simp [table, precedence]

/-- A token that means an operator is called by its spelling. -/
theorem describe_of_ofKind {k : Token.Kind} {op : BinaryOp} (h : ofKind k = some op) :
    k.describe = op.spelling := by
  cases k <;> simp only [ofKind] at h <;> cases h <;> rfl

end BinaryOp

-- =========================================================== assignment

/-- Plain assignment, and assignment combined with an operation. -/
inductive AssignOp where
  | assign
  | add | sub | mul | div | mod
  | and | or | xor | shl | shr | andNot
deriving DecidableEq, Repr

namespace AssignOp

def ofKind : Token.Kind → Option AssignOp
  | .assign => some assign
  | .addAssign => some add
  | .subAssign => some sub
  | .mulAssign => some mul
  | .divAssign => some div
  | .modAssign => some mod
  | .andAssign => some and
  | .orAssign => some or
  | .xorAssign => some xor
  | .shlAssign => some shl
  | .shrAssign => some shr
  | .andNotAssign => some andNot
  | _ => none

def spelling : AssignOp → String
  | assign => "="
  | add => "+="
  | sub => "-="
  | mul => "*="
  | div => "/="
  | mod => "%="
  | and => "&="
  | or => "|="
  | xor => "^="
  | shl => "<<="
  | shr => ">>="
  | andNot => "&^="

end AssignOp

-- ================================================================ steps

/-- Statements that count a variable up or down. -/
inductive StepOp where
  | increment | decrement
deriving DecidableEq, Repr

namespace StepOp

def ofKind : Token.Kind → Option StepOp
  | .increment => some increment
  | .decrement => some decrement
  | _ => none

def spelling : StepOp → String
  | increment => "++"
  | decrement => "--"

end StepOp

-- ============================================================= channels

/-- What a channel may be used for. -/
inductive ChanDir where
  | both | send | receive
deriving DecidableEq, Repr

namespace ChanDir

def canSend : ChanDir → Bool
  | both | send => true
  | receive => false

def canReceive : ChanDir → Bool
  | both | receive => true
  | send => false

/-- The words that introduce such a channel type. -/
def spelling : ChanDir → String
  | both => "chan"
  | send => "chan<-"
  | receive => "<-chan"

end ChanDir

end GoSource
