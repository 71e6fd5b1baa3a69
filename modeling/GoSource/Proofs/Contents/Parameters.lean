/-
Lists of parameters are all names or all types, and both are accepted.

A list is read as types or as groups, and does not change its mind, so it
is one of the two wherever it is reached in a tree (`Visit.ReadFrom.regular`).
That is shown of what the tokens can be read as, for lists stand in types
and in functions, types among the operands, and parentheses around them all.
Conversely, what is written as types or as groups is accepted
(`Grammar.parameters_accept`).
-/
import GoSource.Proofs.Contents.Site
import GoSource.Proofs.Rendering.TypeExpr
import GoSource.Proofs.Running.Parameters

namespace GoSource

-- ================================================================ lists

/-- All parameters have names or none has, and only the last is variadic. -/
def ParamList.Regular (ps : ParamList) : Prop :=
  Grammar.Uniform ps.params ∧ Grammar.LastDots ps.params

/-- The parameters and the results. -/
def Signature.paramLists (sig : Signature) : List ParamList :=
  match sig.result with
  | some (.params results) => [sig.params, results]
  | _ => [sig.params]

def InterfaceElement.paramLists : InterfaceElement → List ParamList
  | .method _ sig => sig.paramLists
  | .embedded _ => []

def TypeForm.paramLists : TypeForm → List ParamList
  | .func sig => sig.paramLists
  | .interface elements => elements.flatMap (·.paramLists)
  | _ => []

def DeclForm.paramLists : DeclForm → List ParamList
  | .func f => f.signature.paramLists
  | .method m => m.receiver :: m.signature.paramLists
  | _ => []

/-- The lists of parameters that belong to a stop itself. -/
def Visit.paramLists : Visit → List ParamList
  | .type t => t.form.paramLists
  | .decl d => d.form.paramLists
  | _ => []

-- ============================================================== readings

/-- The lists of parameters of what has been read are regular. -/
def Phrase.Regular : (p : Phrase) → p.Result → Prop
  | .optional p, a => ∀ x ∈ a, p.Regular x
  | .terminated _ p, as | .listed _ p, as => ∀ a ∈ as, p.Regular a
  | .separated _ p, as => as ≠ [] ∧ ∀ a ∈ as, p.Regular a
  | .expr _, x => ∀ t, x.form = .type t → ∀ ps ∈ t.form.paramLists, ps.Regular
  | .typeName, t | .type, t | .embedded, t => ∀ ps ∈ t.form.paramLists, ps.Regular
  | .param named, p => p.form.names = [] ↔ named = false
  | .params, ps => Grammar.Uniform ps ∧ Grammar.LastDots ps
  | .parameters, ps => ps.Regular
  | .signature, sig => ∀ ps ∈ sig.paramLists, ps.Regular
  | .result, r => ∀ ps, r = .params ps → ps.Regular
  | .interfaceElement, e => ∀ ps ∈ e.paramLists, ps.Regular
  | .function, d => ∀ ps ∈ d.form.paramLists, ps.Regular
  | _, _ => True

theorem Signature.regular {params : ParamList} {result : Option FuncResult} {sp : Span}
    (hparams : params.Regular) (hresult : ∀ r ∈ result, ∀ ps, r = .params ps → ps.Regular) :
    ∀ ps ∈ (Signature.mk params result sp).paramLists, ps.Regular := by
  intro ps hps
  unfold Signature.paramLists at hps
  split at hps
  · next results h =>
    rcases List.mem_cons.mp hps with rfl | hps
    · exact hparams
    · obtain rfl := List.mem_singleton.mp hps
      exact hresult _ h _ rfl
  · obtain rfl := List.mem_singleton.mp hps
    exact hparams

theorem Derives.regular {p : Phrase} {ts : List Token} {a : p.Result} (h : Derives p ts a) :
    p.Regular a := by
  induction h with
  | absent => exact nofun
  | present _ ih =>
    rintro _ ⟨⟩
    exact ih
  | terminatedNil => exact nofun
  | terminatedSnoc _ _ _ _ ih ih' =>
    intro x hx
    rcases List.mem_append.mp hx with hx | hx
    · exact ih x hx
    · obtain rfl := List.mem_singleton.mp hx
      exact ih'
  | separated _ _ ih ih' =>
    refine ⟨List.append_ne_nil_of_right_ne_nil _ (List.cons_ne_nil _ _), fun x hx => ?_⟩
    rcases List.mem_append.mp hx with hx | hx
    · exact ih x hx
    · obtain rfl := List.mem_singleton.mp hx
      exact ih'
  | listedClosed _ ih => exact ih
  | listedOpen _ ih => exact ih.2
  -- operands
  | typeExpr _ _ ih =>
    rintro _ ⟨⟩
    exact ih
  | parenExpr _ _ _ ih => exact ih
  | identExpr | literalExpr | selector | typeAssert | typeGuard | index | slice | fullSlice | call
  | composite | unary | binary => exact nofun
  -- types
  | typeName _ ih => exact ih
  | parenType _ _ _ ih => exact ih
  | embeddedName _ ih => exact ih
  | funcType _ _ ih => exact ih
  | interfaceType _ _ _ _ ih =>
    intro ps hps
    obtain ⟨e, he, hps⟩ := List.mem_flatMap.mp hps
    exact ih e he ps hps
  | plainName | qualifiedName | arrayType | sliceType | pointerType | mapType | chanType
  | sendChan | receiveChan | structType | embeddedPointer => exact nofun
  | methodElement _ _ _ ih => exact ih
  | embeddedElement => exact nofun
  -- parameters
  | typeParam => exact ⟨fun _ => rfl, fun _ => rfl⟩
  | namedParam _ _ _ ih => exact ⟨fun h => absurd h ih.1, nofun⟩
  | @params named _ _ _ hdots ih =>
    refine ⟨?_, hdots⟩
    cases named with
    | false => exact .inl fun p hp => (ih p hp).mpr rfl
    | true => exact .inr fun p hp hnames => Bool.noConfusion ((ih p hp).mp hnames)
  | parameters _ _ _ ih => exact ih
  | paramsResult _ ih =>
    rintro _ ⟨⟩
    exact ih
  | typeResult => exact nofun
  | signature _ _ ih ih' => exact Signature.regular ih ih'
  -- functions
  | func _ _ _ _ _ ih => exact ih
  | method _ _ _ _ _ _ ih _ ih' =>
    intro ps hps
    rcases List.mem_cons.mp hps with rfl | hps
    · exact ih
    · exact ih' ps hps
  | _ => trivial

theorem Visit.ReadFrom.regular {m : Mode} {ts : List Token} {v : Visit} (h : v.ReadFrom m ts) :
    ∀ ps ∈ v.paramLists, ps.Regular := by
  cases h with
  | type ht => exact ht.regular
  | embedded ht => exact ht.regular
  | named hx ht =>
    cases ht with
    | type => exact hx.regular _ rfl
    | plain | qualified => exact nofun
  | function hd => exact hd.regular
  | spec hd => cases hd <;> exact nofun
  | imports hd => cases hd <;> exact nofun
  | _ => exact nofun

-- ============================================================ both kinds

/-- Every list of parameters in a tree is regular. Conversely, types and
groups are accepted wherever they stand in parentheses, the last of them
variadic or not and with or without a comma behind it, and come out as they
are written. -/
theorem parameters_types_or_groups :
    (∀ {stream : Token.Stream} {entry : Entry} {maxDepth : Nat} {arena : Arena} {root : Root},
      (parseStream stream entry maxDepth arena).1 = .ok root →
        ∀ v ∈ root.reached, ∀ ps ∈ v.paramLists, ps.Regular) ∧
    ∀ {named : Bool} {ts cs : List Token} {forms : List ParamForm} {l r : Token},
      Joined (ParamText named) ts forms → (∀ f ∈ forms.dropLast, f.dots = none) →
        Possibly .comma cs → l.kind = .lParen → r.kind = .rParen →
          ∃ least, ∀ depth ≥ least, ∀ s d, s.Fueled → s.cursor.Takes (l :: (ts ++ cs ++ [r])) d →
            ∃ ps s', Grammar.parse depth .parameters s = .ok ps s' ∧ s'.cursor = d ∧
              SameParams ps.params forms := by
  refine ⟨fun {stream entry maxDepth arena root} h v hv => ?_, Grammar.parameters_accept⟩
  unfold parseStream at h
  split at h
  · next root' s hs =>
    obtain rfl : root' = root := by injection h
    obtain ⟨ts, s₁, -, -, hread⟩ := entry_reads entry ready_start hs
    rw [Root.reached_eq] at hv
    obtain ⟨m, e, pre, us, post, -, hsite⟩ := hread.laid.site hv
    exact hsite.stop.readFrom.regular
  · exact nomatch h

/-- A method with groups, a variadic one among them, and types as results;
and the list `(a, b ...[]T,)`. -/
theorem parameters_types_or_groups_method :
    (∃ root, (parseStream (.ofSource "func (r T) f(a, b int, c ...x.Y) (d, e)") .declarations 40
      .empty).1 = .ok root ∧ ∀ v ∈ root.reached, ∀ ps ∈ v.paramLists, ps.Regular) ∧
    ∃ least, ∀ depth ≥ least, ∃ ps s', Grammar.parse depth .parameters
      (.start (.ofTokens [⟨.lParen, "(", .nowhere⟩, ⟨.ident, "a", .nowhere⟩,
        ⟨.comma, ",", .nowhere⟩, ⟨.ident, "b", .nowhere⟩, ⟨.ellipsis, "...", .nowhere⟩,
        ⟨.lBrack, "[", .nowhere⟩, ⟨.rBrack, "]", .nowhere⟩, ⟨.ident, "T", .nowhere⟩,
        ⟨.comma, ",", .nowhere⟩, ⟨.rParen, ")", .nowhere⟩]) .empty) = .ok ps s' ∧
      SameParams ps.params [⟨[⟨"a", .nowhere⟩, ⟨"b", .nowhere⟩], some .nowhere,
        ⟨1, .nowhere, .slice ⟨0, .nowhere, .name none ⟨"T", .nowhere⟩⟩⟩⟩] := by
  constructor
  · have hok : (parseStream (.ofSource "func (r T) f(a, b int, c ...x.Y) (d, e)") .declarations 40
        .empty).1.toOption.isSome = true := by
      decide +kernel
    cases h : (parseStream (.ofSource "func (r T) f(a, b int, c ...x.Y) (d, e)") .declarations 40
        .empty).1 with
    | error e =>
      rw [h] at hok
      exact nomatch hok
    | ok root => exact ⟨root, rfl, parameters_types_or_groups.1 h⟩
  · have htype : AcceptedType [⟨.lBrack, "[", .nowhere⟩, ⟨.rBrack, "]", .nowhere⟩,
        ⟨.ident, "T", .nowhere⟩] ⟨1, .nowhere, .slice ⟨0, .nowhere, .name none ⟨"T", .nowhere⟩⟩⟩ :=
      ⟨2, _, rfl, rfl, by decide, rfl, by decide, rfl, by decide, rfl⟩
    have hnames : Joined (Derives .name) [⟨.ident, "a", .nowhere⟩, ⟨.comma, ",", .nowhere⟩,
        ⟨.ident, "b", .nowhere⟩] [⟨"a", .nowhere⟩, ⟨"b", .nowhere⟩] :=
      .more (Derives.name (t := ⟨.ident, "a", .nowhere⟩) rfl) rfl (.one (.name rfl))
    have hparams := Joined.one (ParamText.group hnames
      (.present (.mark (t := ⟨.ellipsis, "...", .nowhere⟩) rfl rfl)) htype)
    obtain ⟨least, hleast⟩ := parameters_types_or_groups.2
      (l := ⟨.lParen, "(", .nowhere⟩) (r := ⟨.rParen, ")", .nowhere⟩) hparams nofun
      (.inr ⟨⟨.comma, ",", .nowhere⟩, rfl, rfl⟩) rfl rfl
    refine ⟨least, fun depth hdepth => ?_⟩
    obtain ⟨ps, s', hs', -, hps⟩ := hleast depth hdepth _ _ ready_start.fueled
      (Parsing.takes_start (by decide) .empty).choose_spec
    exact ⟨ps, s', hs', hps⟩

end GoSource
