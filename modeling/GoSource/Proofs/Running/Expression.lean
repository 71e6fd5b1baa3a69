/-
Expressions in two runs.

The lemmas of this module and the next three go through the productions
once and say of each function of the grammar that it keeps step with
itself (`Pairing.Abreast`). What has to be watched on the way: that no
token is taken whose kind has not been looked at, that no production of
too high a rank becomes active before a token has been taken, and that an
error about something else than the current token is about something that
was read before. For the latter it is enough to know where expressions
end (`Derives.stopped`).
-/
import GoSource.Proofs.Contents.Holds
import GoSource.Proofs.Running.Abreast

namespace GoSource

open GoSource.Parser

variable {T : Pairing} {r : Nat} {s s' : Parsing} {α : Type}

-- ====================================================== ends of phrases

/-- What the tokens hold ends where one of them ends. -/
theorem Holds.stop_eq {ts : List Token} {ps : List Part} {p : Part} (h : Holds ts ps)
    (hp : p ∈ ps) : ∃ t ∈ ts, p.span.stop = t.span.stop := by
  induction h generalizing p with
  | nil => exact absurd hp List.not_mem_nil
  | skip => exact absurd hp List.not_mem_nil
  | append _ _ ih ih' =>
    rcases List.mem_append.mp hp with hp | hp
    · obtain ⟨t, ht, hstop⟩ := ih hp
      exact ⟨t, List.mem_append_left _ ht, hstop⟩
    · obtain ⟨t, ht, hstop⟩ := ih' hp
      exact ⟨t, List.mem_append_right _ ht, hstop⟩
  | mark | name | literal | path | empty =>
    rw [List.mem_singleton.mp hp]
    exact ⟨_, List.mem_singleton_self _, rfl⟩
  | spanned _ hne hspan =>
    rw [List.mem_singleton.mp hp]
    refine ⟨_, List.getLast_mem hne, ?_⟩
    rw [Part.span, hspan, extent, List.getLast?_eq_some_getLast hne]
    rfl
  | joined _ hne hspan ih =>
    rw [List.mem_singleton.mp hp]
    obtain ⟨t, ht, hstop⟩ := ih (List.getLast_mem hne)
    refine ⟨t, ht, ?_⟩
    rw [← hstop, Part.span, hspan, Part.hull, List.getLast?_eq_some_getLast hne]
    rfl

/-- What was read between two places stopped where a token did. -/
theorem Derives.stopped {p : Phrase} {ts : List Token} {a : p.Result} {part : Part} {c d : Cursor}
    (h : Derives p ts a) (hpart : part ∈ p.parts a) (hts : c.Takes ts d) :
    c.Stopped d part.span := by
  obtain ⟨t, ht, hstop⟩ := h.holds.stop_eq hpart
  exact ⟨ts, hts, t, ht, hstop⟩

-- ======================================================= kinds with a use

theorem Literal.hasUse_of_isKind {k : Token.Kind} (h : isKind k = true) : k.hasUse = true := by
  cases k <;> first | rfl | exact nomatch h

theorem UnaryOp.hasUse_of_ofKind {k : Token.Kind} {op : UnaryOp} (h : ofKind k = some op) :
    k.hasUse = true := by
  cases k <;> first | rfl | exact nomatch h

theorem BinaryOp.hasUse_of_ofKind {k : Token.Kind} {op : BinaryOp} (h : ofKind k = some op) :
    k.hasUse = true := by
  cases k <;> first | rfl | exact nomatch h

-- ======================================================= names, literals

namespace Pairing.Abreast

theorem ident : T.Abreast r s Parser.ident Parser.ident := by
  refine ifAt (fun hk => ?_) fun _ => unexpected
  refine bind_advance (by rw [hk]; rfl) ?_
  exact bind_recording fun _ => pure

/-- A name that is taken is a token that is taken. -/
theorem bind_ident {β : Type} {f g : Ident → Parser β}
    (h : ∀ n s', T.Abreast 8 s' (f n) (g n)) :
    T.Abreast r s (Parser.ident >>= f) (Parser.ident >>= g) := by
  by_cases hk : s.current.kind = .ident
  · have hrun : Parser.ident s = .ok ⟨s.current.text, s.current.span⟩
        { s.next with arena := s.next.arena.addName s.current.text } := by
      have hat : isAt .ident s = .ok true s := congrArg (EStateM.Result.ok · s) (decide_eq_true hk)
      exact bind_eq_ok.mpr ⟨true, s, hat, rfl⟩
    have huse : s.current.kind.hasUse = true := by
      rw [hk]
      rfl
    refine step hrun ((Parsing.Moves.next huse).trans (.arena _ _)) (fun hs => ?_) (h _ _)
    exact (hs.next huse).moves (.arena _ _)
  · refine bind_run ident fun n ts s' hn _ => ?_
    obtain ⟨b, s₁, hb, hn⟩ := bind_eq_ok.mp hn
    cases hb
    rw [if_neg (by rw [decide_eq_false hk]; exact Bool.false_ne_true)] at hn
    exact absurd hn unexpected_ne_ok

theorem literalValue : T.Abreast r s Parser.literalValue Parser.literalValue := by
  refine look (p := current) rfl (ite (fun hk => ?_) fun _ => unexpected)
  split
  · exact bind_advance (Literal.hasUse_of_isKind hk) pure
  · next hnone => exact throw (.malformed hk hnone)

theorem literal : T.Abreast r s Parser.literal Parser.literal :=
  bind literalValue fun _ _ => building

end Pairing.Abreast

namespace Grammar

open Pairing.Abreast

-- ============================================================= sequences

theorem afterCommas_abreast {p q : Parser α} {first : α} (h : ∀ s, T.Abreast 8 s p q) :
    T.Abreast r s (afterCommas p first) (afterCommas q first) := by
  refine bind (repeating fun items s' => ?_) fun _ _ => pure
  refine bind_eat rfl (fun _ => ?_) fun _ => pure
  exact bind (h _) fun _ _ => pure

theorem commaSeparated_abreast {p q : Parser α} (h : T.Abreast r s p q)
    (hrest : ∀ s, T.Abreast 8 s p q) : T.Abreast r s (commaSeparated p) (commaSeparated q) :=
  bind h fun _ _ => afterCommas_abreast hrest

theorem itemsUntil_abreast {close sep : Token.Kind} {p q : Nat → Parser α}
    (hsep : sep.hasUse = true) (h : ∀ n s, T.Abreast r s (p n) (q n)) :
    T.Abreast r s (itemsUntil close sep p) (itemsUntil close sep q) := by
  refine bind (repeating fun ⟨count, items⟩ s' => ?_) fun _ _ => pure
  refine ifAt (fun _ => pure) fun _ => bind (h count s') fun _ s'' => ?_
  exact bind_eat hsep (fun _ => pure) fun _ => pure

-- =========================================================== expressions

theorem nextOperator_abreast {p q : Nat → Parser Expr} {least : Nat} {left : Expr}
    (h : ∀ n s, T.Abreast 8 s (p n) (q n)) :
    T.Abreast r s (nextOperator p least left) (nextOperator q least left) := by
  refine bind_kind ?_
  split
  · next op hop =>
    refine ite (fun _ => ?_) fun _ => pure
    refine bind_advance (BinaryOp.hasUse_of_ofKind hop) (bind (h _ _) fun _ _ => ?_)
    exact bind building fun _ _ => pure
  · exact pure

theorem binaryExpr_abreast (levels least : Nat) (hr : 4 < r) :
    T.Abreast r s (binaryExpr T.first levels least) (binaryExpr T.second levels least) := by
  induction levels generalizing least r s with
  | zero => exact production hr fun _ => trivial
  | succ levels ih =>
    refine bind (production hr fun _ => trivial) fun first s' => repeating fun left s'' => ?_
    exact nextOperator_abreast fun n s => ih n (by decide)

theorem exprList_abreast (hr : 5 < r) : T.Abreast r s (exprList T.first) (exprList T.second) :=
  commaSeparated_abreast (production hr fun _ => trivial)
    fun _ => further fun _ => trivial

/-- The expressions of a list have ended when the list has. -/
theorem exprList_stops {parse : SubParser} (hp : parse.Sound) {m : Mode} :
    (exprList parse).Reads m s fun _ xs s' => ∀ x ∈ xs, s.cursor.Stopped s'.cursor x.span := by
  refine .passing ((exprList_reads hp).imp fun ts xs s' ⟨hxs, _⟩ hpass x hx => ?_)
  have hpart : Part.expr x ∈ (Phrase.exprs m).parts xs :=
    List.mem_flatMap.mpr ⟨x, hx, List.mem_singleton_self _⟩
  exact hxs.stopped hpart hpass.takes

/-- Before a brace that opens a literal there is an operand that names a
type. -/
theorem toType_abreast {x : Expr} {inHeader : Bool} (hx : opensComposite inHeader x = true) :
    T.Abreast r s (toType x) (toType x) := by
  obtain ⟨i, sp, form⟩ := x
  unfold toType
  cases form with
  | ident => exact building
  | type => exact pure
  | selector y =>
    obtain ⟨j, sp', form⟩ := y
    cases form with
    | ident => exact building
    | _ => exact nomatch hx
  | _ => exact nomatch hx

-- ============================================================== suffixes

theorem selectorOrAssertion_abreast {x : Expr} :
    T.Abreast r s (selectorOrAssertion T.first x) (selectorOrAssertion T.second x) := by
  refine bind_expect rfl fun _ => ifAt (fun _ => ?_) fun _ => ifAt (fun hl => ?_)
    fun _ => unexpected
  · exact bind ident fun _ _ => building
  · refine bind_advance (by rw [hl]; rfl) (ifAt (fun hk => ?_) fun _ => ?_)
    · refine look (p := guardAllowed) rfl (ite (fun _ => ?_) fun _ => bind_unexpected)
      refine bind_advance (by rw [hk]; rfl) (bind_disallowGuard ?_)
      exact bind_expect rfl fun _ => building
    · refine bind (map (unrestricted (further fun _ => trivial))) fun _ _ => ?_
      exact bind_expect rfl fun _ => building

theorem suffix_abreast {x : Expr} (hr : 0 < r) :
    T.Abreast r s (suffix T.first x) (suffix T.second x) := by
  refine bind_kind ?_
  split
  · exact map selectorOrAssertion_abreast
  · exact map (production hr fun _ => trivial)
  · exact map (production hr fun _ => trivial)
  · refine look (p := Parser.inHeader) rfl (ite (fun hx => ?_) fun _ => pure)
    exact bind (toType_abreast hx) fun _ _ => map (production hr fun _ => trivial)
  · exact pure

theorem suffixes_abreast {x : Expr} (hr : 0 < r) :
    T.Abreast r s (suffixes T.first x) (suffixes T.second x) :=
  repeating fun _ _ => suffix_abreast hr

theorem upperBounds_abreast : T.Abreast 8 s (upperBounds T.first) (upperBounds T.second) := by
  refine ifAt (fun _ => pure) fun _ => bind (further fun _ => trivial) fun _ _ => ?_
  refine bind_eat rfl (fun _ => ?_) fun _ => pure
  exact bind (further fun _ => trivial) fun _ _ => pure

theorem indexOrSlice_abreast {x : Expr} :
    T.Abreast r s (indexOrSlice T.first x) (indexOrSlice T.second x) := by
  refine unrestricted (bind_expect rfl fun _ => ?_)
  refine joinAt (fun _ => pure) (fun _ => map (further fun _ => trivial)) ?_
  intro low s₁
  refine bind_isAt (fun hc => ?_) fun hc => ?_
  all_goals rcases low with _ | y
  case refine_2.some => exact bind_expect rfl fun _ => building
  all_goals
    refine bind_expect rfl fun _ => bind upperBounds_abreast fun _ _ => ?_
    exact bind_expect rfl fun _ => building

theorem call_abreast {f : Expr} : T.Abreast r s (call T.first f) (call T.second f) := by
  refine unrestricted (bind_expect rfl fun _ => bind (repeating fun ⟨args, dots⟩ s' => ?_) ?_)
  · refine ifAt (fun _ => pure) fun _ => bind (further fun _ => trivial) fun _ _ => ?_
    refine bind_eat rfl (fun _ => bind (eat rfl) fun _ _ => pure) fun _ => ?_
    exact bind_eat rfl (fun _ => pure) fun _ => pure
  · intro _ _
    exact bind_expect rfl fun _ => bind_recording fun _ => building

-- =================================================== composite literals

theorem elementPart_abreast : T.Abreast 8 s (elementPart T.first) (elementPart T.second) := by
  refine ifAt (fun _ => bind_here ?_) fun _ => ?_
  · exact further fun _ => trivial
  · exact further fun _ => trivial

theorem element_abreast : T.Abreast 8 s (element T.first) (element T.second) := by
  refine bind elementPart_abreast fun _ _ => bind_eat rfl (fun _ => ?_) fun _ => pure
  exact bind elementPart_abreast fun _ _ => pure

theorem compositeLit_abreast {t : Option TypeExpr} {start : Location} :
    T.Abreast r s (compositeLit T.first t start) (compositeLit T.second t start) := by
  refine unrestricted (bind_expect rfl fun _ => ?_)
  refine bind (itemsUntil_abreast rfl fun _ _ => element_abreast) fun _ _ => ?_
  exact bind_expect rfl fun _ => bind_recording fun _ => building

-- ============================================================= operands

theorem receiveChan_abreast {arrow : Span} :
    T.Abreast r s (receiveChan T.first arrow) (receiveChan T.second arrow) := by
  refine bind_expect rfl fun _ => bind (further fun _ => trivial) fun _ _ => ?_
  exact look rfl building

theorem unaryExpr_abreast (hr : 3 < r) :
    T.Abreast r s (unaryExpr T.first) (unaryExpr T.second) := by
  have unary : ∀ op span s, T.Abreast 8 s
      (T.first .unaryExpr >>= fun x => newExpr (.unary op span x) (span.through x.span))
      (T.second .unaryExpr >>= fun x => newExpr (.unary op span x) (span.through x.span)) :=
    fun _ _ _ => bind (further fun _ => trivial) fun _ _ => building
  refine bind_kind ?_
  split
  · exact production hr fun _ => trivial
  · next op hop =>
    refine bind_advance (UnaryOp.hasUse_of_ofKind hop) (bind_isAt (fun _ => ?_) fun _ => ?_)
    · refine ite (fun _ => ?_) fun _ => unary op _ _
      refine bind receiveChan_abreast fun _ _ => bind building fun _ _ => ?_
      exact suffixes_abreast (by decide)
    · rw [Bool.and_false]
      exact unary op _ _

theorem primaryExpr_abreast (hr : 2 < r) :
    T.Abreast r s (primaryExpr T.first) (primaryExpr T.second) :=
  bind (production hr fun _ => trivial) fun _ _ => suffixes_abreast (Nat.zero_lt_of_lt hr)

theorem operand_abreast (hr : 1 < r) : T.Abreast r s (operand T.first) (operand T.second) := by
  refine bind_kind ?_
  split
  · exact bind ident fun _ _ => building
  iterate 6 exact bind literal fun _ _ => building
  · next hk =>
    refine bind_advance (by rw [hk]; rfl) ?_
    refine bind (unrestricted (further fun _ => trivial)) fun _ _ => ?_
    exact bind_expect rfl fun _ => pure
  · next hk =>
    refine bind_advance (by rw [hk]; rfl) (bind (further fun _ => trivial) fun _ _ => ?_)
    refine ifAt (fun hb => ?_) fun _ => bind building fun _ _ => building
    exact look rfl (throw (.functionLiteral hb))
  iterate 5 exact bind (production hr fun _ => trivial) fun _ _ => building
  · exact unexpected

end Grammar

end GoSource
