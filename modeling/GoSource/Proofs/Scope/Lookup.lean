/-
Names are looked up on the way to the universe.

The scopes of a package are there for something each, and in a known order
(`scopeOrigins`): the package itself, then one file after the other, with
the imports of a file right behind it. What a scope is there for decides
which scope is above it and what may be bound in it; this is the invariant
(`Layers`).

Every scope is made after the one above it. So the way up from a scope
ends (`exists_upward`), after fewer steps than there are scopes, and what
is found is what the name means on the way (`Means`): what the nearest scope
binds that has the name among those it binds, or else what is predeclared.
No scope binds a name twice, so there is only one such thing. An import is
bound in the scope of its file only, so it can be found from there only
(`Resolves.found_in_layers`).
-/
import GoSource.Proofs.Scope.Distinct
import GoSource.Proofs.Scope.Stepwise

namespace GoSource

-- ============================================================== origins

/-- What a scope is made for. -/
inductive ScopeOrigin where
  | package
  | file (number : Nat)
  /-- An import of a file, by its position there. -/
  | imported (file position : Nat)
deriving DecidableEq

/-- The scope above. -/
def ScopeOrigin.parent : ScopeOrigin → Option Nat
  | file _ => some PackageScope.packageId
  | package | imported _ _ => none

/-- The scopes for the imports of a file; one that binds no name has
none. -/
def importOrigins (file : Nat) (specs : List ImportSpec) : List ScopeOrigin :=
  specs.zipIdx.filterMap fun (spec, k) => spec.boundName.map fun _ => .imported file k

/-- The scopes of a package in order, by the imports of its files. -/
def scopeOrigins (imports : List (List ImportSpec)) : List ScopeOrigin :=
  .package :: imports.zipIdx.flatMap fun (specs, i) => .file i :: importOrigins i specs

/-- An import of a file. -/
def importAt (imports : List (List ImportSpec)) (file position : Nat) : Option ImportSpec :=
  imports[file]?.bind (·[position]?)

variable {imports : List (List ImportSpec)} {specs : List ImportSpec} {spec : ImportSpec}

theorem importOrigins_append (file : Nat) (specs : List ImportSpec) (spec : ImportSpec) :
    importOrigins file (specs ++ [spec]) = importOrigins file specs ++
      (spec.boundName.map fun _ => .imported file specs.length).toList := by
  rw [importOrigins, List.zipIdx_append, List.filterMap_append]
  cases h : spec.boundName <;> simp [importOrigins, h]

theorem scopeOrigins_append (imports : List (List ImportSpec)) (specs : List ImportSpec) :
    scopeOrigins (imports ++ [specs]) =
      scopeOrigins imports ++ .file imports.length :: importOrigins imports.length specs := by
  simp [scopeOrigins, List.zipIdx_append]

/-- One import more in the last file. -/
theorem scopeOrigins_append_spec (imports : List (List ImportSpec)) (specs : List ImportSpec)
    (spec : ImportSpec) : scopeOrigins (imports ++ [specs ++ [spec]]) =
      scopeOrigins (imports ++ [specs]) ++
        (spec.boundName.map fun _ => .imported imports.length specs.length).toList := by
  rw [scopeOrigins_append, importOrigins_append, ← List.cons_append, ← List.append_assoc,
    ← scopeOrigins_append]

theorem lt_of_mem_importOrigins {file : Nat} {o : ScopeOrigin} (h : o ∈ importOrigins file specs) :
    ∃ k < specs.length, o = .imported file k := by
  obtain ⟨⟨spec, k⟩, hk, ho⟩ := List.mem_filterMap.mp h
  obtain ⟨-, -, rfl⟩ := Option.map_eq_some_iff.mp ho
  exact ⟨k, List.snd_lt_of_mem_zipIdx hk, rfl⟩

theorem nodup_importOrigins (file : Nat) (specs : List ImportSpec) :
    (importOrigins file specs).Nodup := by
  induction specs using List.reverseRecOn with
  | nil => exact List.nodup_nil
  | append_singleton specs spec ih =>
    rw [importOrigins_append]
    refine ih.append ((Option.toList_nodup _)) fun o ho ho' => ?_
    obtain ⟨k, hk, rfl⟩ := lt_of_mem_importOrigins ho
    obtain ⟨-, -, heq⟩ := Option.map_eq_some_iff.mp (Option.mem_toList.mp ho')
    cases heq
    exact Nat.lt_irrefl _ hk

/-- The file that a scope is made for. -/
def ScopeOrigin.file? : ScopeOrigin → Option Nat
  | package => none
  | file i | imported i _ => some i

theorem lt_of_mem_scopeOrigins {o : ScopeOrigin} (h : o ∈ scopeOrigins imports) {i : Nat}
    (hi : o.file? = some i) : i < imports.length := by
  obtain rfl | h := List.mem_cons.mp h
  · exact nomatch hi
  obtain ⟨⟨specs, j⟩, hj, ho⟩ := List.mem_flatMap.mp h
  have hj := List.snd_lt_of_mem_zipIdx hj
  obtain rfl | ho := List.mem_cons.mp ho
  · cases hi
    exact hj
  · obtain ⟨k, -, rfl⟩ := lt_of_mem_importOrigins ho
    cases hi
    exact hj

/-- No two scopes are for the same. -/
theorem nodup_scopeOrigins (imports : List (List ImportSpec)) : (scopeOrigins imports).Nodup := by
  induction imports using List.reverseRecOn with
  | nil => exact List.nodup_singleton _
  | append_singleton imports specs ih =>
    rw [scopeOrigins_append]
    refine ih.append (List.nodup_cons.mpr ⟨fun h => ?_, nodup_importOrigins _ _⟩) fun o ho ho' => ?_
    · obtain ⟨k, -, heq⟩ := lt_of_mem_importOrigins h
      exact nomatch heq
    · have hlt := fun i => lt_of_mem_scopeOrigins ho (i := i)
      obtain rfl | ho' := List.mem_cons.mp ho'
      · exact Nat.lt_irrefl _ (hlt _ rfl)
      · obtain ⟨k, -, rfl⟩ := lt_of_mem_importOrigins ho'
        exact Nat.lt_irrefl _ (hlt _ rfl)

/-- What may be bound in a scope. -/
def ScopeOrigin.Binds (imports : List (List ImportSpec)) (name : String) (binding : Binding) :
    ScopeOrigin → Prop
  | package => ∀ ref, binding ≠ .package ref
  | file i => ∃ k spec scope, binding = .package ⟨spec.path, scope⟩ ∧
    importAt imports i k = some spec ∧ spec.boundName = some name ∧
    (scopeOrigins imports)[scope]? = some (.imported i k)
  | imported _ _ => False

-- ============================================================== growing

theorem getElem?_append_of_some {α : Type} {l : List α} {i : Nat} {a : α} (h : l[i]? = some a)
    (l' : List α) : (l ++ l')[i]? = some a := by
  rw [List.getElem?_append_left (List.getElem?_eq_some_iff.mp h).1]
  exact h

theorem importAt_append (imports : List (List ImportSpec)) (specs : List ImportSpec) (i k : Nat) :
    importAt (imports ++ [specs]) i k =
      if i = imports.length then specs[k]? else importAt imports i k := by
  unfold importAt
  split
  · next hi => rw [hi, List.getElem?_concat_length, Option.bind_some]
  · next hi =>
    rw [List.getElem?_append]
    split
    · rfl
    · next hlt =>
      rw [List.getElem?_singleton, if_neg (by omega), List.getElem?_eq_none (by omega)]

/-- There are more imports now, in the last file or in a new one. -/
structure MoreImports (imports imports' : List (List ImportSpec)) : Prop where
  spec : ∀ {i k : Nat} {spec : ImportSpec}, importAt imports i k = some spec →
    importAt imports' i k = some spec
  origin : ∀ {id : Nat} {o : ScopeOrigin}, (scopeOrigins imports)[id]? = some o →
    (scopeOrigins imports')[id]? = some o

theorem moreImports_file (imports : List (List ImportSpec)) :
    MoreImports imports (imports ++ [[]]) where
  spec h := by
    obtain ⟨specs, hspecs, -⟩ := Option.bind_eq_some_iff.mp h
    rw [importAt_append, if_neg (List.getElem?_eq_some_iff.mp hspecs).1.ne]
    exact h
  origin h := by
    rw [scopeOrigins_append]
    exact getElem?_append_of_some h _

theorem moreImports_spec (imports : List (List ImportSpec)) (specs : List ImportSpec)
    (spec : ImportSpec) : MoreImports (imports ++ [specs]) (imports ++ [specs ++ [spec]]) where
  spec h := by
    rw [importAt_append] at h ⊢
    split at h
    · next hi =>
      rw [if_pos hi]
      exact getElem?_append_of_some h _
    · next hi => rwa [if_neg hi]
  origin h := by
    rw [scopeOrigins_append_spec]
    exact getElem?_append_of_some h _

theorem ScopeOrigin.Binds.more {imports imports' : List (List ImportSpec)}
    (hmore : MoreImports imports imports') {o : ScopeOrigin} {name : String} {binding : Binding}
    (h : o.Binds imports name binding) : o.Binds imports' name binding := by
  cases o with
  | package => exact h
  | file i =>
    obtain ⟨k, spec, scope, hbinding, hspec, hname, hscope⟩ := h
    exact ⟨k, spec, scope, hbinding, hmore.spec hspec, hname, hmore.origin hscope⟩
  | imported i k => exact h

-- ============================================================= invariant

/-- Binding a name moves no scope. -/
theorem Resolution.parents_bind {r : Resolution} {file id : Nat} {name : String}
    {place : Location} {binding : Binding} :
    (r.bind file id name place binding).package.scopes.toList.map (·.parent) =
      r.package.scopes.toList.map (·.parent) := by
  unfold bind
  split
  · rfl
  · split
    · rfl
    · apply List.ext_getElem?
      intro i
      simp only [List.getElem?_map, Array.getElem?_toList, Array.getElem?_modify]
      split
      · rw [Option.map_map]
        rfl
      · rfl

namespace PackageScope

/-- No scope binds a name twice. -/
def NamesOnce (p : PackageScope) : Prop := ∀ id s, p.scope? id = some s → s.names.Nodup

theorem NamesOnce.newScope {r : Resolution} (h : r.package.NamesOnce) (parent : Option Nat) :
    (r.newScope parent).2.package.NamesOnce := by
  intro id s hs
  simp only [Resolution.newScope, scope?, Array.getElem?_push] at hs
  split at hs
  · cases hs
    exact List.nodup_nil
  · exact h id s hs

theorem NamesOnce.put {p : PackageScope} {id : Nat} {b : BoundName} (h : p.NamesOnce)
    (hnone : p.boundIn id b.name = none) : (p.put id b).NamesOnce := by
  intro id' s hs
  simp only [PackageScope.put, scope?, Array.getElem?_modify] at hs
  split at hs
  · next hid =>
    subst hid
    obtain ⟨s', hs', rfl⟩ := Option.map_eq_some_iff.mp hs
    have hnew : b.name ∉ s'.names := by
      rw [boundIn, scope?, hs'] at hnone
      intro hmem
      obtain ⟨b', hb', hname⟩ := List.mem_map.mp hmem
      exact List.find?_eq_none.mp hnone b' hb' (decide_eq_true hname)
    rw [Scope.names, List.map_append]
    refine (h id s' hs').append (List.nodup_singleton _) ?_
    exact List.disjoint_singleton.mpr hnew
  · exact h id' s hs

/-- Binding a name binds it once. -/
theorem NamesOnce.bind {r : Resolution} (h : r.package.NamesOnce) (file id : Nat) (name : String)
    (place : Location) (binding : Binding) :
    (r.bind file id name place binding).package.NamesOnce := by
  by_cases hname : name = blank
  · rw [Resolution.bind, if_pos hname]
    exact h
  cases hb : r.package.boundIn id name with
  | some first =>
    rw [Resolution.bind_of_some hname hb]
    exact h
  | none =>
    rw [Resolution.bind_of_none hname hb]
    exact h.put (b := ⟨name, binding, place, file⟩) hb

/-- The scopes are what they are made for. -/
structure Layers (imports : List (List ImportSpec)) (p : PackageScope) : Prop where
  parents : p.scopes.toList.map (·.parent) = (scopeOrigins imports).map (·.parent)
  fileScope : ∀ i id, p.fileScope i = some id → (scopeOrigins imports)[id]? = some (.file i)
  bound : ∀ id name b, p.boundIn id name = some b →
    name ≠ blank ∧ ∃ o, (scopeOrigins imports)[id]? = some o ∧ o.Binds imports name b.binding
  names : p.NamesOnce

namespace Layers

variable {r : Resolution} {imports' : List (List ImportSpec)}

theorem size {p : PackageScope} (h : p.Layers imports) :
    p.scopes.size = (scopeOrigins imports).length := by
  simpa using congrArg List.length h.parents

theorem bound_more (h : r.package.Layers imports) (hmore : MoreImports imports imports') {id : Nat}
    {name : String} {b : BoundName} (hb : r.package.boundIn id name = some b) :
    name ≠ blank ∧ ∃ o, (scopeOrigins imports')[id]? = some o ∧
      o.Binds imports' name b.binding := by
  obtain ⟨hname, o, ho, hbinds⟩ := h.bound id name b hb
  exact ⟨hname, o, hmore.origin ho, hbinds.more hmore⟩

/-- An import that has no scope changes nothing. -/
theorem more (h : r.package.Layers imports) (hmore : MoreImports imports imports')
    (horigins : scopeOrigins imports' = scopeOrigins imports) : r.package.Layers imports' where
  parents := by rw [horigins, h.parents]
  fileScope i id hid := hmore.origin (h.fileScope i id hid)
  bound _ _ _ hb := h.bound_more hmore hb
  names := h.names

/-- One scope more, for what is new among the imports. -/
theorem newScope (h : r.package.Layers imports) (hmore : MoreImports imports imports')
    {o : ScopeOrigin} (ho : scopeOrigins imports' = scopeOrigins imports ++ [o]) :
    (r.newScope o.parent).2.package.Layers imports' where
  parents := by
    rw [ho, List.map_append, ← h.parents]
    simp [Resolution.newScope]
  fileScope i id hid := hmore.origin (h.fileScope i id hid)
  bound id name b hb := by
    rw [Resolution.boundIn_newScope] at hb
    exact h.bound_more hmore hb
  names := h.names.newScope o.parent

/-- A name is bound in a scope that may bind it. -/
theorem bind (h : r.package.Layers imports) (file : Nat) {id : Nat} {name : String}
    (place : Location) {binding : Binding} {o : ScopeOrigin}
    (ho : (scopeOrigins imports)[id]? = some o) (hbinds : o.Binds imports name binding) :
    (r.bind file id name place binding).package.Layers imports where
  parents := by rw [Resolution.parents_bind, h.parents]
  fileScope i id' hid := by
    rw [Resolution.package_bind] at hid
    exact h.fileScope i id' hid
  bound id' n b hb := by
    obtain hb | ⟨rfl, rfl, hname, rfl⟩ := Resolution.boundIn_bind hb
    · exact h.bound id' n b hb
    · exact ⟨hname, o, ho, hbinds⟩
  names := h.names.bind file id name place binding

/-- A file, and its imports so far. -/
theorem addFileScope (h : r.package.Layers imports)
    (hcount : r.package.fileCount = imports.length) :
    r.addFileScope.2.package.Layers (imports ++ [[]]) := by
  have horigins : scopeOrigins (imports ++ [[]]) = scopeOrigins imports ++ [.file imports.length] :=
    scopeOrigins_append imports []
  have hnew := h.newScope (moreImports_file imports) horigins
  refine ⟨hnew.parents, fun i id hid => ?_, hnew.bound, hnew.names⟩
  have hid : (r.package.fileScopes.push r.package.scopes.size)[i]? = some id := hid
  rw [Array.getElem?_push] at hid
  split at hid
  · next hi =>
    obtain rfl := Option.some.inj hid
    obtain rfl : i = imports.length := hi.trans hcount
    rw [horigins, h.size]
    exact List.getElem?_concat_length
  · exact hnew.fileScope i id hid

theorem addImport (h : r.package.Layers (imports ++ [specs])) {fileScope : Nat}
    (hscope : r.package.fileScope imports.length = some fileScope) (spec : ImportSpec) :
    (r.addImport imports.length fileScope spec).package.Layers (imports ++ [specs ++ [spec]]) := by
  have hmore := moreImports_spec imports specs spec
  have horigins := scopeOrigins_append_spec imports specs spec
  cases hname : spec.boundName with
  | none =>
    rw [hname] at horigins
    rw [Resolution.addImport_of_none hname]
    exact h.more hmore (horigins.trans (List.append_nil _))
  | some name =>
    rw [hname] at horigins
    rw [Resolution.addImport_of_some hname]
    -- the scope of the import is the last one now
    refine (h.newScope hmore horigins).bind imports.length _
      (hmore.origin (h.fileScope _ _ hscope)) ⟨specs.length, spec, _, rfl, ?_, hname, ?_⟩
    · rw [importAt_append, if_pos rfl]
      exact List.getElem?_concat_length
    · rw [horigins]
      change (_ ++ [_])[r.package.scopes.size]? = _
      rw [h.size]
      exact List.getElem?_concat_length

/-- Imports of the last file, one after the other. -/
theorem addImports (h : r.package.Layers (imports ++ [specs])) {file fileScope : Nat}
    (hfile : imports.length = file) (hscope : r.package.fileScope file = some fileScope)
    (more : List ImportSpec) :
    (more.foldl (Resolution.addImport file fileScope) r).package.Layers
      (imports ++ [specs ++ more]) := by
  subst hfile
  refine (foldl_induction (motive := fun done (r' : Resolution) =>
    r'.package.Layers (imports ++ [specs ++ done]) ∧
      r'.package.fileScope imports.length = some fileScope) ?_ (fun done r' spec h => ?_) more).1
  · rw [List.append_nil]
    exact ⟨h, hscope⟩
  · obtain ⟨h, hscope⟩ := h
    rw [← List.append_assoc]
    refine ⟨h.addImport hscope spec, ?_⟩
    rw [Resolution.package_addImport]
    exact hscope

/-- What a declaration binds is bound in the package, and is no import. -/
theorem declare (h : r.package.Layers imports) (file : Nat) (d : Decl) :
    (Resolution.declare file r d).package.Layers imports := by
  refine Resolution.declare_preserves (motive := fun r => r.package.Layers imports)
    (fun r n binding hbinding h => ?_) (fun r consts vars views methods h => ?_) h
  · exact h.bind file n.span.start rfl hbinding
  · exact ⟨h.parents, h.fileScope, h.bound, h.names⟩

end Layers

end PackageScope

/-- The scopes of a package are what its files make them for. -/
theorem resolve_layers (files : List File) :
    (resolve files).package.Layers (files.map (·.importSpecs)) := by
  refine resolve_induction (P := fun fs r => r.package.Layers (fs.map (·.importSpecs)))
    ?none ?file ?imports ?decl files
  case none =>
    refine ⟨rfl, fun i id (hid : none = some id) => ?_, fun id name b hb => ?_, fun id s hs => ?_⟩
    · exact nomatch hid
    · cases id <;> exact nomatch hb
    · cases id with
      | zero =>
        cases hs
        exact List.nodup_nil
      | succ id => exact nomatch hs
  case file =>
    intro fs r f h hcount
    rw [List.map_append]
    exact h.addFileScope (hcount.trans (List.length_map _).symm)
  case imports =>
    intro fs r f scope d h _ hscope
    have hspecs : (f.addImports d).importSpecs = f.importSpecs ++ d.form.importSpecs := by
      simp [File.importSpecs, File.addImports]
    rw [List.map_append] at h ⊢
    rw [List.map_singleton, hspecs, Resolution.importAll_eq]
    exact PackageScope.Layers.addImports (r := r.noteFile fs.length d)
      ⟨h.parents, h.fileScope, h.bound, h.names⟩ (List.length_map _) hscope d.form.importSpecs
  case decl =>
    intro fs r f d h
    rw [List.map_append] at h ⊢
    exact PackageScope.Layers.declare (r := r.noteFile fs.length d)
      ⟨h.parents, h.fileScope, h.bound, h.names⟩ fs.length d

-- ============================================================= way up

namespace PackageScope

variable {p : PackageScope} {id : Nat} {name : String}

/-- The scopes from one on upwards, to the last one below the universe. -/
inductive Upward (p : PackageScope) : Option Nat → List Nat → Prop where
  | top : Upward p none []
  | up {id : Nat} {s : Scope} {ids : List Nat} (hs : p.scope? id = some s)
    (h : Upward p s.parent ids) : Upward p (some id) (id :: ids)

/-- A scope binds a name itself. -/
def Binds (p : PackageScope) (id : Nat) (name : String) (binding : Binding) : Prop :=
  ∃ s b, p.scope? id = some s ∧ b ∈ s.bound ∧ b.name = name ∧ b.binding = binding

/-- What a name means in some scopes, the nearest of them first: what the
first one to bind it says, or else what is predeclared. -/
inductive Means (p : PackageScope) (name : String) : List Nat → Option Binding → Prop where
  | here {id : Nat} {ids : List Nat} {binding : Binding} (h : p.Binds id name binding) :
    Means p name (id :: ids) (some binding)
  | above {id : Nat} {ids : List Nat} {found : Option Binding}
    (hnone : ∀ binding, ¬p.Binds id name binding) (h : Means p name ids found) :
    Means p name (id :: ids) found
  | predeclared {o : Predeclared} (ho : o ∈ Universe.names) (hname : o.name = name) :
    Means p name [] (some (.predeclared o))
  | unknown (h : ∀ o ∈ Universe.names, o.name ≠ name) : Means p name [] none

theorem boundIn_of_scope {s : Scope} (hs : p.scope? id = some s) :
    p.boundIn id name = s.find? name := by
  rw [boundIn, hs]
  rfl

theorem binds_of_find? {s : Scope} {b : BoundName} (hs : p.scope? id = some s)
    (hb : s.find? name = some b) : p.Binds id name b.binding :=
  ⟨s, b, hs, List.mem_of_find?_eq_some hb, by simpa using List.find?_some hb, rfl⟩

theorem not_binds_of_boundIn (hnone : p.boundIn id name = none) (binding : Binding) :
    ¬p.Binds id name binding := by
  rintro ⟨s, b, hs, hb, hname, -⟩
  rw [boundIn_of_scope hs] at hnone
  exact List.find?_eq_none.mp hnone b hb (decide_eq_true hname)

/-- A name that is bound is looked up as what it is bound to. -/
theorem NamesOnce.boundIn_of_binds (h : p.NamesOnce) {binding : Binding}
    (hbinds : p.Binds id name binding) : ∃ b, p.boundIn id name = some b ∧ b.binding = binding := by
  obtain ⟨s, b, hs, hb, rfl, hbinding⟩ := hbinds
  refine ⟨b, ?_, hbinding⟩
  rw [boundIn_of_scope hs]
  cases hfind : s.find? b.name with
  | none => exact absurd (decide_eq_true rfl) (List.find?_eq_none.mp hfind b hb)
  | some b' =>
    have hname : b'.name = b.name := by simpa using List.find?_some hfind
    rw [List.inj_on_of_nodup_map (h id s hs) (List.mem_of_find?_eq_some hfind) hb hname]

/-- Each name is predeclared once. -/
theorem eq_of_predeclared {o o' : Predeclared} (ho : o ∈ Universe.names)
    (ho' : o' ∈ Universe.names) (hname : o.name = o'.name) : o = o' := by
  have hnodup : (Universe.names.map (·.name)).Nodup := by decide +kernel
  exact List.inj_on_of_nodup_map hnodup ho ho' hname

/-- A name means one thing. -/
theorem NamesOnce.means_unique (h : p.NamesOnce) {ids : List Nat} {found found' : Option Binding}
    (hmeans : p.Means name ids found) (hmeans' : p.Means name ids found') : found = found' := by
  induction hmeans with
  | here hbinds =>
    cases hmeans' with
    | here hbinds' =>
      obtain ⟨b, hb, rfl⟩ := h.boundIn_of_binds hbinds
      obtain ⟨b', hb', rfl⟩ := h.boundIn_of_binds hbinds'
      rw [Option.some.inj (hb.symm.trans hb')]
    | above hnone _ => exact absurd hbinds (hnone _)
  | above hnone _ ih =>
    cases hmeans' with
    | here hbinds' => exact absurd hbinds' (hnone _)
    | above _ hmeans' => exact ih hmeans'
  | predeclared ho hname =>
    cases hmeans' with
    | predeclared ho' hname' => rw [eq_of_predeclared ho ho' (hname.trans hname'.symm)]
    | unknown hno => exact absurd hname (hno _ ho)
  | unknown hno =>
    cases hmeans' with
    | predeclared ho' hname' => exact absurd hname' (hno _ ho')
    | unknown => rfl

theorem means_predeclared (p : PackageScope) (name : String) :
    p.Means name [] ((Universe.find? name).map .predeclared) := by
  cases hfind : Universe.find? name with
  | none => exact .unknown fun o ho hname => List.find?_eq_none.mp hfind o ho (decide_eq_true hname)
  | some o =>
    exact .predeclared (List.mem_of_find?_eq_some hfind) (by simpa using List.find?_some hfind)

theorem means_findUpward {scope : Option Nat} {ids : List Nat} {steps : Nat}
    (h : p.Upward scope ids) (hsteps : ids.length ≤ steps) :
    p.Means name ids (p.findUpward name steps scope) := by
  induction h generalizing steps with
  | top => cases steps <;> exact p.means_predeclared name
  | @up id s ids hs _ ih =>
    rw [List.length_cons] at hsteps
    obtain ⟨steps, rfl⟩ := Nat.exists_eq_add_of_le' (Nat.le_trans (Nat.le_add_left 1 _) hsteps)
    cases hname : s.find? name with
    | some b =>
      simp only [findUpward, hs, hname]
      exact .here (binds_of_find? hs hname)
    | none =>
      simp only [findUpward, hs, hname]
      exact .above (not_binds_of_boundIn (boundIn_of_scope hs ▸ hname))
        (ih (Nat.le_of_succ_le_succ hsteps))

/-- Every scope is made after the one above it. -/
def Ordered (p : PackageScope) : Prop :=
  ∀ id s parent, p.scope? id = some s → s.parent = some parent → parent < id

section

variable (h : p.Ordered)
include h

theorem Ordered.length_upward {ids : List Nat} (hup : p.Upward (some id) ids) :
    ids.length ≤ id + 1 := by
  generalize hscope : some id = scope at hup
  induction hup generalizing id with
  | top => exact nomatch hscope
  | @up id' s ids hs hup ih =>
    obtain rfl := Option.some.inj hscope
    cases hparent : s.parent with
    | none =>
      rw [hparent] at hup
      cases hup
      exact Nat.le_add_left 1 _
    | some parent =>
      have hlt := h _ s parent hs hparent
      have hlength := ih hparent.symm
      rw [List.length_cons]
      omega

/-- The way up from a scope ends. -/
theorem Ordered.exists_upward (hid : id < p.scopes.size) : ∃ ids, p.Upward (some id) ids := by
  induction id using Nat.strongRecOn with
  | _ id ih =>
    have hs : p.scope? id = some p.scopes[id] := Array.getElem?_eq_getElem hid
    cases hparent : p.scopes[id].parent with
    | none => exact ⟨[id], .up hs (hparent ▸ .top)⟩
    | some parent =>
      have hlt := h id _ parent hs hparent
      obtain ⟨ids, hids⟩ := ih parent hlt (hlt.trans hid)
      exact ⟨id :: ids, .up hs (hparent ▸ hids)⟩

/-- What is found in a scope is what the name means on the way up. -/
theorem Ordered.means_findIn {ids : List Nat} (hup : p.Upward (some id) ids) (name : String) :
    p.Means name ids (p.findIn id name) := by
  cases hup with
  | up hs hids =>
    have hlt : id < p.scopes.size := (Array.getElem?_eq_some_iff.mp hs).1
    exact means_findUpward (.up hs hids) ((h.length_upward (.up hs hids)).trans hlt)

end

-- ============================================================== look-up

/-- Names are looked up in layers, and an import is known in its file. -/
structure LooksUp (imports : List (List ImportSpec)) (p : PackageScope) : Prop where
  /-- There is no scope that is not made for something. -/
  size : p.scopes.size = (scopeOrigins imports).length
  /-- There is one scope for each. -/
  alone : (scopeOrigins imports).Nodup
  fileScope : ∀ i id, p.fileScope i = some id ↔ (scopeOrigins imports)[id]? = some (.file i)
  parent : ∀ id o, (scopeOrigins imports)[id]? = some o →
    ∃ s, p.scope? id = some s ∧ s.parent = o.parent
  ordered : p.Ordered
  /-- From every scope there is a way up, and what a name means on it is
  found. -/
  lookup : ∀ id < p.scopes.size, ∃ ids, p.Upward (some id) ids ∧
    ∀ name found, p.findIn id name = found ↔ p.Means name ids found
  blank : ∀ id < p.scopes.size, p.findIn id blank = none
  /-- No import is known outside the files. -/
  find : ∀ name ref, p.find name ≠ some (.package ref)
  /-- What is known in a file as a package is an import of that file, with
  the scope that is made for it. -/
  imported : ∀ i id name ref, p.fileScope i = some id →
    p.findIn id name = some (.package ref) → ∃ k spec, importAt imports i k = some spec ∧
      spec.boundName = some name ∧ ref.path = spec.path ∧
      (scopeOrigins imports)[ref.scope]? = some (.imported i k)
  /-- In the scope of an import there is what is predeclared. -/
  empty : ∀ id i k, (scopeOrigins imports)[id]? = some (.imported i k) →
    p.scope? id = some ⟨none, []⟩ ∧ ∀ name found, p.findIn id name = found ↔ p.Means name [] found

namespace Layers

variable (h : p.Layers imports)
include h

theorem scope {o : ScopeOrigin} (ho : (scopeOrigins imports)[id]? = some o) :
    ∃ s, p.scope? id = some s ∧ s.parent = o.parent := by
  have hparent := congrArg (·[id]?) h.parents
  simp only [List.getElem?_map, ho, Option.map_some, Array.getElem?_toList] at hparent
  exact Option.map_eq_some_iff.mp hparent

theorem origin {s : Scope} (hs : p.scope? id = some s) :
    ∃ o, (scopeOrigins imports)[id]? = some o ∧ s.parent = o.parent := by
  have hlt : id < (scopeOrigins imports).length := by
    rw [← h.size]
    exact (Array.getElem?_eq_some_iff.mp hs).1
  have ho := List.getElem?_eq_getElem hlt
  obtain ⟨s', hs', hparent⟩ := h.scope ho
  obtain rfl := Option.some.inj (hs.symm.trans hs')
  exact ⟨_, ho, hparent⟩

theorem ordered : p.Ordered := by
  intro id s parent hs hparent
  obtain ⟨o, ho, hsame⟩ := h.origin hs
  rw [hparent] at hsame
  cases o with
  | file i =>
    obtain rfl := Option.some.inj hsame
    refine Nat.pos_of_ne_zero fun hid => ?_
    subst hid
    exact nomatch ho
  | package => exact nomatch hsame
  | imported i k => exact nomatch hsame

/-- The way up from the scope of the package. -/
theorem upward_package : p.Upward (some packageId) [packageId] := by
  have ho : (scopeOrigins imports)[packageId]? = some .package := rfl
  obtain ⟨s, hs, hparent⟩ := h.scope ho
  exact .up hs (hparent ▸ .top)

/-- The way up from the scope of a file. -/
theorem upward_file {i : Nat} (hi : (scopeOrigins imports)[id]? = some (.file i)) :
    p.Upward (some id) [id, packageId] := by
  obtain ⟨s, hs, hparent⟩ := h.scope hi
  exact .up hs (hparent ▸ h.upward_package)

/-- The way up from the scope of an import. -/
theorem upward_imported {i k : Nat} (hk : (scopeOrigins imports)[id]? = some (.imported i k)) :
    p.Upward (some id) [id] := by
  obtain ⟨s, hs, hparent⟩ := h.scope hk
  exact .up hs (hparent ▸ .top)

theorem boundIn_blank : p.boundIn id blank = none := by
  cases hb : p.boundIn id blank with
  | none => rfl
  | some b => exact absurd rfl (h.bound id blank b hb).1

/-- What is bound in a scope is what may be bound there. -/
theorem binds {o : ScopeOrigin} {b : BoundName} (ho : (scopeOrigins imports)[id]? = some o)
    (hb : p.boundIn id name = some b) : o.Binds imports name b.binding := by
  obtain ⟨-, o', ho', hbinds⟩ := h.bound id name b hb
  obtain rfl := Option.some.inj (ho.symm.trans ho')
  exact hbinds

theorem boundIn_imported {i k : Nat} (hk : (scopeOrigins imports)[id]? = some (.imported i k)) :
    p.boundIn id name = none := by
  cases hb : p.boundIn id name with
  | none => rfl
  | some b => exact (h.binds hk hb).elim

/-- A scope binds nothing but what may be bound there. -/
theorem binds_of_binds {o : ScopeOrigin} {binding : Binding}
    (ho : (scopeOrigins imports)[id]? = some o) (hbinds : p.Binds id name binding) :
    o.Binds imports name binding := by
  obtain ⟨b, hb, rfl⟩ := h.names.boundIn_of_binds hbinds
  exact h.binds ho hb

theorem findIn_iff {ids : List Nat} (hup : p.Upward (some id) ids) (name : String)
    (found : Option Binding) : p.findIn id name = found ↔ p.Means name ids found := by
  refine ⟨?_, h.names.means_unique (h.ordered.means_findIn hup name)⟩
  rintro rfl
  exact h.ordered.means_findIn hup name

/-- The blank name means nothing anywhere. -/
theorem means_blank {ids : List Nat} {found : Option Binding}
    (hmeans : p.Means GoSource.blank ids found) : found = none := by
  induction hmeans with
  | here hbinds => exact absurd hbinds (not_binds_of_boundIn h.boundIn_blank _)
  | above _ _ ih => exact ih
  | predeclared ho hname =>
    have hblank : ∀ o ∈ Universe.names, o.name ≠ GoSource.blank := by decide +kernel
    exact absurd hname (hblank _ ho)
  | unknown => rfl

/-- The package knows no imports. -/
theorem means_package {ref : PackageRef} : ¬p.Means name [packageId] (some (.package ref)) := by
  rintro (hbinds | ⟨-, ⟨⟩⟩)
  exact h.binds_of_binds (o := .package) rfl hbinds ref rfl

/-- The scope of an import has nothing in it. -/
theorem scope_imported {i k : Nat} (hk : (scopeOrigins imports)[id]? = some (.imported i k)) :
    p.scope? id = some ⟨none, []⟩ := by
  obtain ⟨⟨parent, bound⟩, hs, rfl⟩ := h.scope hk
  cases bound with
  | nil => exact hs
  | cons b bound =>
    have hb : p.boundIn id b.name = none := h.boundIn_imported hk
    rw [boundIn_of_scope hs, Scope.find?, List.find?_eq_none] at hb
    exact absurd (decide_eq_true rfl) (hb b List.mem_cons_self)

theorem looksUp (hcount : p.fileCount = imports.length) : p.LooksUp imports := by
  constructor
  case size => exact h.size
  case alone => exact nodup_scopeOrigins imports
  case fileScope =>
    intro i id
    refine ⟨h.fileScope i id, fun hi => ?_⟩
    have hlt := lt_of_mem_scopeOrigins (List.mem_of_getElem? hi) rfl
    rw [← hcount] at hlt
    have hscope : p.fileScope i = some p.fileScopes[i] := Array.getElem?_eq_getElem hlt
    have hsame : id = p.fileScopes[i] := by
      have hlast := (List.getElem?_eq_some_iff.mp hi).1
      refine (List.getElem?_inj hlast (nodup_scopeOrigins imports)).mp ?_
      rw [hi, h.fileScope i _ hscope]
    rw [hscope, hsame]
  case parent => exact fun id o => h.scope
  case ordered => exact h.ordered
  case lookup =>
    intro id hid
    obtain ⟨ids, hids⟩ := h.ordered.exists_upward hid
    exact ⟨ids, hids, h.findIn_iff hids⟩
  case blank =>
    intro id hid
    obtain ⟨ids, hids⟩ := h.ordered.exists_upward hid
    exact h.means_blank (h.ordered.means_findIn hids _)
  case find =>
    intro name ref hfind
    exact h.means_package ((h.findIn_iff h.upward_package name _).mp hfind)
  case imported =>
    intro i id name ref hid hfind
    have ho := h.fileScope i id hid
    obtain hbinds | ⟨-, habove⟩ := (h.findIn_iff (h.upward_file ho) name _).mp hfind
    · obtain ⟨k, spec, scope, hbinding, hspec, hname, hscope⟩ := h.binds_of_binds ho hbinds
      cases hbinding
      exact ⟨k, spec, hspec, hname, rfl, hscope⟩
    · exact absurd habove h.means_package
  case empty =>
    intro id i k hk
    have hnone (name : String) (binding : Binding) : ¬p.Binds id name binding :=
      not_binds_of_boundIn (h.boundIn_imported hk) binding
    refine ⟨h.scope_imported hk, fun name found => ?_⟩
    rw [h.findIn_iff (h.upward_imported hk)]
    refine ⟨?_, .above (hnone name)⟩
    rintro (hbinds | ⟨-, hmeans⟩)
    · exact absurd hbinds (hnone name _)
    · exact hmeans

end Layers

end PackageScope

/-- Names are looked up in layers in every package, and an import is known
in its file. -/
theorem Resolves.found_in_layers {files : List File} {p : PackageScope} (h : Resolves files p) :
    p.LooksUp (files.map (·.importSpecs)) := by
  have hlayers := resolve_layers files
  rw [← h.eq] at hlayers
  have hcount := resolve_fileScopes files
  rw [← h.eq] at hcount
  have hp : p.Layers (files.map (·.importSpecs)) :=
    ⟨hlayers.parents, hlayers.fileScope, hlayers.bound, hlayers.names⟩
  exact hp.looksUp (hcount.trans (List.length_map _).symm)

/-- Two files that import the same package by different names. The scope of
the first one is 1, that of the second one 4, and behind each come those of
its imports. -/
theorem Resolves.found_in_layers_imports :
    let files := parseFiles 20
      ["package p; import m \"a\"; import m \"b\"; var x int", "package p; import n \"a\""]
    let p := (resolve files).package
    p.LooksUp (files.map (·.importSpecs)) ∧
      files.map (fun f => f.importSpecs.map (·.boundName)) = [[some "m", some "m"], [some "n"]] ∧
      (p.findIn 1 "m" matches some (.package ⟨"a", 2⟩)) ∧
      (p.findIn 4 "n" matches some (.package ⟨"a", 5⟩)) ∧
      (p.findIn 4 "x" matches some (.var 0)) ∧
      (p.findIn 3 "len" matches some (.predeclared ⟨"len", .func, none⟩)) ∧
      p.findIn 4 "m" = none ∧ p.find "n" = none ∧ p.findIn 2 "x" = none :=
  ⟨Resolves.found_in_layers (.files _), by decide +kernel⟩

end GoSource
