/-
Constants and variables, one at a time.

A declaration may declare several constants or variables at once. What a
name refers to is one of them: a *view* of the declaration, with the
position of its identifier.

# Checking a constant

The value of a constant is found later, by whoever evaluates it, and its
view keeps track of how far that has come. A check begins once and ends
once. A constant met again while it is being checked depends on itself,
which is why beginning a second time is answered and not refused.
-/
import GoSource.Syntax.Tree

namespace GoSource

/-- How far the checking of a constant has come. -/
inductive CheckState where
  | unchecked | checking | checkedOk | checkedError
deriving DecidableEq, Repr

/-- What beginning a check finds. -/
inductive CheckStart where
  /-- The check begins now, and is to be finished. -/
  | started
  /-- The constant is being checked: its value depends on itself. -/
  | cycle
  /-- The check is over, with this outcome. -/
  | done (state : CheckState)
deriving DecidableEq, Repr

/-- One constant of a declaration. The type is the declared one, or the
one found by checking. -/
structure ConstView where
  decl : Decl
  index : Nat
  type : Option TypeExpr
  value : Option Literal
  state : CheckState

namespace ConstView

/-- A constant that nobody has looked at. -/
def unchecked (decl : Decl) (index : Nat) (type : Option TypeExpr) : ConstView :=
  ⟨decl, index, type, none, .unchecked⟩

def beginCheck (v : ConstView) : CheckStart × ConstView :=
  match v.state with
  | .unchecked => (.started, { v with state := .checking })
  | .checking => (.cycle, v)
  | done => (.done done, v)

/-- Ends a check with a value, and with a type if one was found. Nothing
happens unless a check is going on, which is what the answer tells. -/
def finishOk (v : ConstView) (value : Literal) (type : Option TypeExpr) : Bool × ConstView :=
  if v.state = .checking then
    (true, { v with value := some value, type := type.orElse fun _ => v.type,
                    state := .checkedOk })
  else (false, v)

/-- Ends a check without a value, if one is going on. -/
def finishError (v : ConstView) : Bool × ConstView :=
  if v.state = .checking then (true, { v with state := .checkedError }) else (false, v)

end ConstView

/-- One variable of a declaration. -/
structure VarView where
  decl : Decl
  index : Nat
  type : Option TypeExpr

/-- A view, by its number among the constants or among the variables. -/
inductive View where
  | const (number : Nat)
  | var (number : Nat)
deriving DecidableEq, Repr

end GoSource
