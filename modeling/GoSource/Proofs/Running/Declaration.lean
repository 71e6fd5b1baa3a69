/-
Declarations and files in two runs.
-/
import GoSource.Proofs.Running.Statement

namespace GoSource

open GoSource.Parser

variable {T : Pairing} {r : Nat} {s : Parsing} {m : Mode}

theorem GroupKind.hasUse_keyword (k : GroupKind) : k.keyword.hasUse = true := by
  cases k <;> rfl

namespace Grammar

open Pairing.Abreast

-- ================================================================ specs

theorem initializer_abreast : T.Abreast r s (initializer T.first) (initializer T.second) := by
  refine bind_eat rfl (fun _ => ?_) fun _ => pure
  exact map (exprList_abreast (by decide))

theorem constType_abreast (hr : 1 < r) :
    T.Abreast r s (constType T.first) (constType T.second) := by
  refine bind_kind ?_
  split
  iterate 4 exact pure
  exact map (production hr fun _ => trivial)

theorem names_abreast :
    T.Abreast r s (commaSeparated Parser.ident) (commaSeparated Parser.ident) :=
  commaSeparated_abreast ident fun _ => ident

theorem constSpec_abreast {lines : List String} {iota : Nat} (hr : 1 < r) :
    T.Abreast r s (constSpec T.first lines iota) (constSpec T.second lines iota) := by
  have finish : ∀ names t values s, T.Abreast r s
      (do
        recording (·.addIdents names)
        recording (·.addExprs values)
        Pure.pure ⟨lines, names, t, values, iota⟩ : Parser ConstSpec)
      (do
        recording (·.addIdents names)
        recording (·.addExprs values)
        Pure.pure ⟨lines, names, t, values, iota⟩) :=
    fun _ _ _ _ => bind_recording fun _ => bind_recording fun _ => pure
  refine bind names_abreast fun names _ => bind (constType_abreast hr) fun t _ => ?_
  refine bind initializer_abreast fun values _ => ?_
  cases values with
  | some values => exact finish names t values _
  | none =>
    exact joinIte (fun _ => unexpected) (fun _ => pure) fun values s => finish names t values s

theorem varSpec_abreast {lines : List String} (hr : 1 < r) :
    T.Abreast r s (varSpec T.first lines) (varSpec T.second lines) := by
  refine bind names_abreast fun _ _ => ?_
  refine joinAt (fun _ => pure) (fun _ => map (production hr fun _ => trivial)) fun _ _ => ?_
  refine bind initializer_abreast fun _ _ => ?_
  exact bind_recording fun _ => bind_recording fun _ => pure

theorem typeSpec_abreast {lines : List String} :
    T.Abreast r s (typeSpec T.first lines) (typeSpec T.second lines) := by
  refine bind_ident fun _ _ => bind (eat rfl) fun _ _ => ?_
  exact bind (further fun _ => trivial) fun _ _ => pure

theorem spec_abreast {k : GroupKind} {lines : List String} {start : Location} {iota : Nat}
    (hr : 1 < r) :
    T.Abreast r s (spec T.first k lines start iota) (spec T.second k lines start iota) := by
  have finish : ∀ form s, T.Abreast r s (do newDecl form (← spanFrom start))
      (do newDecl form (← spanFrom start)) :=
    fun _ _ => look rfl building
  cases k with
  | const => exact bind (map (constSpec_abreast hr)) finish
  | var => exact bind (map (varSpec_abreast hr)) finish
  | type => exact bind (map typeSpec_abreast) finish

theorem doc_abreast {start : Location} : T.Abreast r s (doc start) (doc start) :=
  bind_docLines fun _ => bind_recording fun _ => pure

theorem group_abreast {k : GroupKind} (hk : s.current.kind = k.keyword) :
    T.Abreast r s (group T.first k) (group T.second k) := by
  refine bind_here (bind_docLines fun lines => ?_)
  refine bind_advance (by rw [hk]; exact k.hasUse_keyword) (bind_eat rfl (fun _ => ?_) fun _ => ?_)
  · refine bind (unrestricted (itemsUntil_abreast rfl fun iota s' => bind_here ?_)) ?_
    · exact bind doc_abreast fun _ _ => spec_abreast (by decide)
    · exact fun _ _ => bind_expect rfl fun _ => pure
  · exact bind_recording fun _ => bind (spec_abreast (by decide)) fun _ _ => pure

-- ============================================================ functions

theorem parameters_stops {parse : SubParser} (hp : parse.Sound) :
    (parse .parameters).Reads m s fun _ list s' => s.cursor.Stopped s'.cursor list.span := by
  refine .passing (hp.parameters.imp fun ts list s' hlist hpass => ?_)
  have hne : ts ≠ [] := hlist.ne_nil rfl
  refine ⟨ts, hpass.takes, ts.getLast hne, List.getLast_mem hne, ?_⟩
  rw [hlist.parameters_span, extent, List.getLast?_eq_some_getLast hne]
  rfl

theorem receiver_abreast : T.Abreast 8 s (receiver T.first) (receiver T.second) := by
  refine fits fun hs => bind_reads (further fun _ => trivial)
    (fun m => parameters_stops T.sound) fun _ list s' hlist => ?_
  exact ite (fun _ => pure) fun _ => unexpectedAt (by decide) (hs.stopped hlist)

theorem functionDecl_abreast : T.Abreast r s (functionDecl T.first) (functionDecl T.second) := by
  refine bind_here (bind doc_abreast fun lines s₁ => bind_expect rfl fun _ => ?_)
  refine joinAt (fun _ => map receiver_abreast) (fun _ => pure) fun recv s₂ => ?_
  refine bind_ident fun name s₃ => bind (further fun _ => trivial) fun sig s₄ => ?_
  refine joinAt (fun _ => map (further fun _ => trivial)) (fun _ => pure) fun body s₅ => ?_
  exact look rfl building

-- ============================================================== imports

theorem importName_abreast : T.Abreast r s importName importName := by
  refine bind_kind ?_
  split
  · next hk => exact bind_advance (by rw [hk]; rfl) pure
  · exact bind ident fun _ _ => pure
  · exact pure

/-- A string literal has a string for its value. -/
theorem importPath_abreast : T.Abreast r s importPath importPath := by
  have path : ∀ (hk : s.current.kind = .stringLit ∨ s.current.kind = .rawStringLit)
      {f : Literal × Span → Parser (String × Span)},
      (∀ bytes sp s', T.Abreast r s' (f (.string bytes, sp)) (f (.string bytes, sp))) →
      T.Abreast r s (literalValue >>= f) (literalValue >>= f) := by
    intro hk f hf
    refine bind_reads (P := fun _ v _ => ∃ bytes sp, v = (.string bytes, sp)) literalValue
      (fun m => literalValue_reads fun v hv => ?_) ?_
    · obtain ⟨bytes, rfl⟩ := decode_string hk hv
      exact ⟨bytes, _, rfl⟩
    · rintro _ _ s' ⟨bytes, sp, rfl⟩
      exact hf bytes sp s'
  refine bind_kind ?_
  split
  · next hk => exact path (.inl hk) fun _ _ _ => bind_recording fun _ => pure
  · next hk => exact path (.inr hk) fun _ _ _ => bind_recording fun _ => pure
  · exact unexpected

theorem importSpec_abreast : T.Abreast r s importSpec importSpec :=
  bind importName_abreast fun _ _ => bind importPath_abreast fun _ _ => pure

theorem importDecl_abreast : T.Abreast r s importDecl importDecl := by
  have finish : ∀ lines span start specs s, T.Abreast 8 s
      (do
        recording (·.addImportSpecs specs)
        newDecl (.imports ⟨lines, span, specs⟩) (← spanFrom start))
      (do
        recording (·.addImportSpecs specs)
        newDecl (.imports ⟨lines, span, specs⟩) (← spanFrom start)) :=
    fun _ _ _ _ _ => bind_recording fun _ => look rfl building
  refine bind_here (bind doc_abreast fun lines s' => bind_expect rfl fun _ => ?_)
  refine bind_eat rfl (fun _ => ?_) fun _ => ?_
  · refine bind (itemsUntil_abreast rfl fun _ _ => importSpec_abreast) fun specs _ => ?_
    exact bind_expect rfl fun _ => finish lines _ _ specs _
  · exact bind importSpec_abreast fun spec _ => finish lines _ _ [spec] _

theorem expectSemi_abreast : T.Abreast r s expectSemi expectSemi := by
  refine ifAt (fun _ => pure) fun _ => ?_
  exact bind (expect rfl) fun _ _ => pure

-- ================================================================ files

theorem topLevelDecl_abreast (hr : 0 < r) :
    T.Abreast r s (topLevelDecl T.first) (topLevelDecl T.second) := by
  refine bind_kind ?_
  split
  · next g hg => exact production hr fun _ => keyword_of_ofKind hg
  · refine ifAt (fun _ => ?_) fun _ => unexpected
    exact bind (production hr fun _ => trivial) fun _ _ => pure

theorem imports_abreast (hr : 0 < r) : T.Abreast r s (imports T.first) (imports T.second) := by
  refine bind (repeating fun decls s' => ifAt (fun _ => ?_) fun _ => pure) ?_
  · refine bind (production hr fun _ => trivial) fun _ _ => ?_
    exact bind expectSemi_abreast fun _ _ => pure
  · exact fun _ _ => bind_recording fun _ => pure

theorem declsWith_abreast {p q : Parser (List Decl)} (h : ∀ s, T.Abreast r s p q) :
    T.Abreast r s (declsWith p) (declsWith q) := by
  refine bind (repeating fun decls s' => ifAt (fun _ => pure) fun _ => ?_) ?_
  · exact bind (h s') fun _ _ => bind expectSemi_abreast fun _ _ => pure
  · exact fun _ _ => bind_recording fun _ => pure

theorem declarations_abreast (hr : 0 < r) :
    T.Abreast r s (declarations T.first) (declarations T.second) := by
  refine declsWith_abreast fun s => ifAt (fun _ => ?_) fun _ => topLevelDecl_abreast hr
  exact bind (production hr fun _ => trivial) fun _ _ => pure

theorem file_abreast : T.Abreast r s (file T.first) (file T.second) := by
  refine bind_here (bind_expect rfl fun _ => bind_ident fun _ _ => ?_)
  refine bind expectSemi_abreast fun _ _ => bind (imports_abreast (by decide)) fun _ _ => ?_
  refine bind (declsWith_abreast fun _ => topLevelDecl_abreast (by decide)) fun _ _ => ?_
  exact look rfl pure

end Grammar

end GoSource
