/-
Expressions and types are read the same without comments.

No declaration stands in an expression or in a type, so the productions of
these are heedless if those below them are. What is below them is supplied
from outside, as a way to parse further productions that echoes each of them
(`SubParser.Echoes`); and they are composed of nothing that sees a comment
(`Composed.heedless`).
-/
import GoSource.Proofs.Documentation.Heedless
import GoSource.Proofs.Running.Composed

namespace GoSource

open GoSource.Parser

variable {α : Type}

-- ========================================================== productions

/-- What a production returns, without documentation. -/
def Production.undocumented : Production α → α → α
  | expression | unaryExpr | primaryExpr | operand | indexOrSlice _ | call _
  | compositeLit _ _ | type | signature | parameters | structType | fieldDecl
  | interfaceType => id
  | block => Undocumented.block
  | statement | ifStmt | typeSwitchGuard => Undocumented.stmt
  | simpleStmt _ => Undocumented.draft
  | forStmt => Undocumented.stmtForm
  | group _ => List.map Undocumented.decl
  | functionDecl | importDecl => Undocumented.decl
  | file => Undocumented.file

theorem Production.undocumented_of_isPart {p : Production α} (hp : p.isPart = true) :
    p.undocumented = id := by
  cases p <;> first | rfl | exact nomatch hp

/-- Every production returns the same without comments, but for the
documentation. -/
class SubParser.Echoes (parse : SubParser) : Prop where
  echoes : ∀ {α : Type} (p : Production α), GoSource.Echoes p.undocumented (parse p) (parse p)

/-- What is built depends on the numbers of nodes alone. -/
theorem Heedless.building {add : Arena → α × Arena} (hadd : Arena.Counted add) :
    Heedless (building add) := by
  refine ⟨fun s t hst => ?_⟩
  obtain ⟨hx, hcount⟩ := hadd s.arena t.arena hst.count
  show Echo id (.ok (add s.arena).1 { s with arena := (add s.arena).2 })
    (.ok (add t.arena).1 { t with arena := (add t.arena).2 })
  rw [hx]
  exact .ok ⟨by rw [hst.rest], hcount⟩

theorem Composed.heedless {parse : SubParser} [hparse : parse.Echoes] {p : Parser α}
    (hp : Composed parse p) : Heedless p := by
  induction hp with
  | look hf =>
    refine .of_look fun s t h => hf s t ?_ ?_ ?_ ?_
    iterate 4 rw [h.rest]
  | advance => exact .advance
  | disallowGuard => exact .allowGuard false
  | pure x => exact .pure x
  | throw e => exact .throw e
  | unexpectedAt sp wanted got => exact .unexpectedAt sp wanted got
  | building hadd _ => exact .building hadd
  | bind _ _ ihp ihu => exact .bind ihp ihu
  | unrestricted _ ih => exact .unrestricted ih
  | repeating loop _ x ih => exact .repeating ih
  | production p hp =>
    have hechoes := hparse.echoes p
    rw [Production.undocumented_of_isPart hp] at hechoes
    exact ⟨hechoes⟩

-- ========================================================= what is used

namespace Grammar

theorem itemsUntil_heedless {close separator : Token.Kind} {item : Nat → Parser α}
    (hitem : ∀ i, Heedless (item i)) : Heedless (itemsUntil close separator item) := by
  refine .bind (.repeating fun ⟨count, items⟩ => .choice (.pure _) ?_) fun _ => .pure _
  refine .bind (hitem count) fun x => .after fun o => ?_
  cases o with
  | none => exact .pure _
  | some sp => exact .pure _

variable {parse : SubParser} [parse.Echoes]

instance : Heedless (parse .expression) :=
  (inferInstance : Composed parse (parse .expression)).heedless

instance : Heedless (parse .type) := (inferInstance : Composed parse (parse .type)).heedless

instance : Heedless (parse .signature) :=
  (inferInstance : Composed parse (parse .signature)).heedless

instance : Heedless (exprList parse) := (inferInstance : Composed parse (exprList parse)).heedless

end Grammar

/-- What needs no further productions. -/
theorem Heedless.of_composed {p : Parser α} (hp : ∀ parse, Composed parse p) : Heedless p :=
  have : SubParser.Echoes (Grammar.parse 0) := ⟨fun _ => .tooDeep⟩
  (hp (Grammar.parse 0)).heedless

instance : Heedless (Grammar.commaSeparated ident) := .of_composed fun _ => inferInstance

end GoSource
