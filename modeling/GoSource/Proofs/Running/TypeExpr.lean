/-
Types, signatures and fields in two runs.

A production of this module takes a token of its own before it calls for
another one, with two exceptions: a type that is a struct or an interface
takes none, and a signature begins with its parameters.
-/
import GoSource.Proofs.Running.Expression

namespace GoSource.Grammar

open GoSource.Parser
open Pairing.Abreast

variable {T : Pairing} {r : Nat} {s : Parsing}

-- ================================================================ types

theorem finishType_abreast {start : Location} {form : TypeForm} :
    T.Abreast r s (finishType start form) (finishType start form) :=
  look rfl building

theorem qualifiedType_abreast {first : Ident} :
    T.Abreast r s (qualifiedType first) (qualifiedType first) := by
  refine bind_eat rfl (fun _ => ?_) fun _ => finishType_abreast
  exact bind ident fun _ _ => finishType_abreast

theorem typeName_abreast : T.Abreast r s typeName typeName :=
  bind ident fun _ _ => qualifiedType_abreast

theorem bracketType_abreast {start : Location} :
    T.Abreast 8 s (bracketType T.first start) (bracketType T.second start) := by
  refine bind_eat rfl (fun _ => ?_) fun _ => ?_
  · exact bind (further fun _ => trivial) fun _ _ => finishType_abreast
  · refine joinEat rfl (fun _ => pure) (fun _ => map (unrestricted (further fun _ => trivial))) ?_
    intro len s'
    refine bind_expect rfl fun _ => bind (further fun _ => trivial) fun _ _ => ?_
    exact finishType_abreast

theorem type_abreast (hr : 0 < r) : T.Abreast r s (type T.first) (type T.second) := by
  refine bind_here (bind_kind ?_)
  split
  · exact typeName_abreast
  · next hk =>
    refine bind_advance (by rw [hk]; rfl) ?_
    refine bind (unrestricted (further fun _ => trivial)) fun _ _ => ?_
    exact bind_expect rfl fun _ => pure
  · next hk => exact bind_advance (by rw [hk]; rfl) receiveChan_abreast
  · next hk => exact bind_advance (by rw [hk]; rfl) bracketType_abreast
  · next hk =>
    refine bind_advance (by rw [hk]; rfl) ?_
    exact bind (further fun _ => trivial) fun _ _ => finishType_abreast
  · next hk =>
    refine bind_advance (by rw [hk]; rfl) (bind_expect rfl fun _ => ?_)
    refine bind (unrestricted (further fun _ => trivial)) fun _ _ => bind_expect rfl fun _ => ?_
    exact bind (further fun _ => trivial) fun _ _ => finishType_abreast
  · next hk =>
    refine bind_advance (by rw [hk]; rfl)
      (joinEat rfl (fun _ => pure) (fun _ => pure) fun _ _ => ?_)
    exact bind (further fun _ => trivial) fun _ _ => finishType_abreast
  · next hk =>
    refine bind_advance (by rw [hk]; rfl) ?_
    exact bind (further fun _ => trivial) fun _ _ => finishType_abreast
  · exact bind (production hr fun _ => trivial) fun _ _ => finishType_abreast
  · exact bind (production hr fun _ => trivial) fun _ _ => finishType_abreast
  · exact unexpected

-- =========================================================== parameters

theorem leadingNames_abreast : T.Abreast r s leadingNames leadingNames := by
  refine repeating fun state s' => ?_
  unfold leadingName
  split
  · refine ifAt (fun _ => bind ident fun name s'' => bind_kind ?_) fun _ => pure
    split
    · next hk =>
      refine bind_advance (by rw [hk]; rfl) ?_
      exact ifAt (fun _ => pure) fun _ => pure
    · exact pure
    · exact pure
    · exact pure
  · exact pure

theorem finishParam_abreast {names : List Ident} {dots : Option Span} {t : TypeExpr}
    {start : Location} :
    T.Abreast r s (finishParam names dots t start) (finishParam names dots t start) :=
  bind_recording fun _ => look rfl building

theorem typeNameParams_abreast {names : List Ident} :
    T.Abreast r s (typeNameParams names) (typeNameParams names) := by
  unfold typeNameParams
  induction names generalizing s with
  | nil => exact pure
  | cons name names ih =>
    rw [List.foldrM_cons]
    exact bind ih fun _ _ => bind building fun _ _ => bind building fun _ _ => pure

theorem moreParams_abreast : T.Abreast r s moreParams moreParams := by
  refine bind_eat rfl (fun _ => ?_) fun _ => pure
  exact bind_isAt (fun _ => pure) fun _ => pure

theorem paramAfter_abreast {names : List Ident} {start : Location} :
    T.Abreast 8 s (paramAfter T.first names start) (paramAfter T.second names start) := by
  refine bind (eat rfl) fun dots _ => bind (further fun _ => trivial) fun _ _ => ?_
  refine bind finishParam_abreast fun _ _ => ite (fun _ => ?_) fun _ => ?_
  · exact bind (eat rfl) fun _ _ => pure
  · exact bind moreParams_abreast fun _ _ => pure

theorem unnamedParams_abreast {params : List Param} :
    T.Abreast 8 s (unnamedParams T.first params) (unnamedParams T.second params) := by
  refine repeating fun _ _ => bind_here (bind paramAfter_abreast fun _ _ => ?_)
  exact ite (fun _ => pure) fun _ => pure

theorem namedParams_abreast {names : List Ident} :
    T.Abreast 8 s (namedParams T.first names) (namedParams T.second names) := by
  refine bind (repeating fun st s' => ?_) fun _ _ => pure
  obtain ⟨names, params⟩ := st
  have group : ∀ start s, T.Abreast 8 s
      (paramAfter T.first names start >>= fun r =>
        if r.2 then do pure (Turn.again (← commaSeparated Parser.ident, r.1 :: params))
        else pure (.stop ([], r.1 :: params)))
      (paramAfter T.second names start >>= fun r =>
        if r.2 then do pure (Turn.again (← commaSeparated Parser.ident, r.1 :: params))
        else pure (.stop ([], r.1 :: params))) := by
    intro start s
    refine bind paramAfter_abreast fun _ _ => ite (fun _ => ?_) fun _ => pure
    exact bind (commaSeparated_abreast ident fun _ => ident) fun _ _ => pure
  unfold namedParam
  cases names with
  | nil => exact bind_here (group _ _)
  | cons n names => exact group _ _

theorem params_abreast : T.Abreast 8 s (params T.first) (params T.second) := by
  refine bind leadingNames_abreast fun state s' => ?_
  have types : ∀ names, T.Abreast 8 s'
      (typeNameParams names >>= fun params => do
        if (← isAt .rParen) then pure params else unnamedParams T.first params)
      (typeNameParams names >>= fun params => do
        if (← isAt .rParen) then pure params else unnamedParams T.second params) := by
    intro names
    refine bind typeNameParams_abreast fun _ _ => ?_
    exact ifAt (fun _ => pure) fun _ => unnamedParams_abreast
  cases state with
  | named names => exact namedParams_abreast
  | qualified names pkg =>
    refine bind typeNameParams_abreast fun _ _ => bind qualifiedType_abreast fun _ _ => ?_
    refine bind finishParam_abreast fun _ _ => bind moreParams_abreast fun _ _ => ?_
    exact ite (fun _ => unnamedParams_abreast) fun _ => pure
  | types names => exact types names
  | undecided names => exact types names

theorem parameters_abreast : T.Abreast r s (parameters T.first) (parameters T.second) := by
  refine unrestricted (bind_expect rfl fun _ => ?_)
  refine joinAt (fun _ => pure) (fun _ => map params_abreast) fun _ _ => ?_
  exact bind_expect rfl fun _ => bind_recording fun _ => pure

theorem signature_abreast (hr : 1 < r) :
    T.Abreast r s (signature T.first) (signature T.second) := by
  refine bind (production (Nat.zero_lt_of_lt hr) fun _ => trivial) fun params s' => ?_
  have finish : ∀ (result : Option FuncResult) s, T.Abreast r s
      (do pure ⟨params, result, ← spanFrom params.span.start⟩ : Parser Signature)
      (do pure ⟨params, result, ← spanFrom params.span.start⟩) :=
    fun _ _ => look rfl pure
  refine ifAt (fun _ => ?_) fun _ => ite (fun _ => ?_) fun _ => finish none _
  · refine bind (map (map (production (Nat.zero_lt_of_lt hr) fun _ => trivial))) ?_
    exact fun result s => finish result s
  · exact bind (map (map (production hr fun _ => trivial))) fun result s => finish result s

-- =============================================== structs and interfaces

theorem structType_abreast : T.Abreast r s (structType T.first) (structType T.second) := by
  refine bind_expect rfl fun _ => bind_expect rfl fun _ => ?_
  refine bind (unrestricted (itemsUntil_abreast rfl fun _ _ => further fun _ => trivial)) ?_
  intro _ _
  exact bind_expect rfl fun _ => bind_recording fun _ => pure

theorem fieldParts_abreast : T.Abreast r s (fieldParts T.first) (fieldParts T.second) := by
  refine bind_here (bind_kind ?_)
  split
  · next hk =>
    refine bind_advance (by rw [hk]; rfl) (bind typeName_abreast fun _ _ => ?_)
    exact bind finishType_abreast fun _ _ => pure
  · refine bind_ident fun first s' => bind_kind ?_
    split
    iterate 5 exact bind qualifiedType_abreast fun _ _ => pure
    · refine bind (afterCommas_abreast fun _ => ident) fun _ _ => ?_
      exact bind (further fun _ => trivial) fun _ _ => bind_recording fun _ => pure
  · exact unexpected

theorem fieldDecl_abreast : T.Abreast r s (fieldDecl T.first) (fieldDecl T.second) := by
  have finish : ∀ names t (tag : Option Lit) start s, T.Abreast r s
      (do newField ⟨names, t, tag⟩ (← spanFrom start))
      (do newField ⟨names, t, tag⟩ (← spanFrom start)) :=
    fun _ _ _ _ _ => look rfl building
  refine bind_here (bind fieldParts_abreast fun ⟨names, t⟩ _ => bind_kind ?_)
  split
  · exact bind (map literal) fun tag s => finish names t tag _ s
  · exact bind (map literal) fun tag s => finish names t tag _ s
  · exact finish names t none _ _

theorem interfaceElement_abreast :
    T.Abreast r s (interfaceElement T.first) (interfaceElement T.second) := by
  refine bind_ident fun name s' => ifAt (fun _ => ?_) fun _ => ?_
  · exact bind (further fun _ => trivial) fun _ _ => pure
  · exact bind qualifiedType_abreast fun _ _ => pure

theorem interfaceType_abreast :
    T.Abreast r s (interfaceType T.first) (interfaceType T.second) := by
  refine bind_expect rfl fun _ => bind_expect rfl fun _ => ?_
  refine bind (unrestricted (itemsUntil_abreast rfl fun _ _ => interfaceElement_abreast)) ?_
  intro _ _
  exact bind_expect rfl fun _ => bind_recording fun _ => pure

end GoSource.Grammar
