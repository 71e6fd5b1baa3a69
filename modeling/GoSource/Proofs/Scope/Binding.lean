/-
The first binding of a name stays, and every later one is reported.

What resolving files comes to is told without scopes first: `attempts` is
the list of everything that would bind a name, file by file, the imports
of a file before what it declares. An attempt belongs to a file or to the
package; the first one for a name there is the binding, and each later one
is an error against the first (`redeclarations`).

The scopes follow this list. `Resolution.Follows` relates a resolution to
the attempts made so far; binding a name appends one attempt, whether it
succeeds or not, and everything else leaves the list as it is. A package
is resolved by folds over files, imports, declarations and identifiers, so
the relation is carried through all of them by one lemma on folds
(`Resolution.follow`).

# Numbers

Constants, variables and the scopes of imported packages are bound by
number, and numbers are given to blank and redeclared names too. A tally
of what has been numbered goes along with the list of attempts; it depends
on the files only.
-/
import GoSource.Proofs.Scope.Distinct
import GoSource.Scope.Resolution
import Mathlib.Data.Finset.Card
import Mathlib.Data.List.TakeWhile

namespace GoSource

-- ============================================================= attempts

/-- What a scope belongs to, other than an imported package. -/
inductive Owner where
  | package
  | file (number : Nat)
deriving DecidableEq, Repr

/-- What would be bound in the scope of an owner. -/
structure Attempt where
  owner : Owner
  bound : BoundName

namespace Attempt

/-- Attempts get into each other's way if this is the same. -/
def key (a : Attempt) : Owner × String := (a.owner, a.bound.name)

/-- The first of some attempts to bind a name. -/
def first? (as : List Attempt) (key : Owner × String) : Option Attempt :=
  as.find? (·.key = key)

/-- The error if a name is bound again. -/
def against (a first : Attempt) : Redeclaration :=
  ⟨a.bound.name, first.bound.place, a.bound.place, first.bound.file, a.bound.file⟩

/-- An error for each attempt that is not the first. -/
def redeclarations (as : List Attempt) : List Redeclaration :=
  as.zipIdx.filterMap fun (a, i) => (first? (as.take i) a.key).map a.against

/-- An attempt to bind a name, none if it is blank. -/
def ofName (owner : Owner) (file : Nat) (name : String) (place : Location) (binding : Binding) :
    List Attempt :=
  if name = blank then [] else [⟨owner, ⟨name, binding, place, file⟩⟩]

end Attempt

-- ============================================================== numbers

/-- How much has been numbered. -/
structure Tally where
  files : Nat
  scopes : Nat
  consts : Nat
  vars : Nat

namespace ImportSpec

/-- The elements of the path of an import, which slashes separate. -/
def elements (spec : ImportSpec) : List String := (spec.path.toList.splitOn '/').map .ofList

/-- The name an import binds, by how it is written: the name it is given, or
else the last element of its path. A dot import binds none, and none is
bound that is blank, whether it is written or comes from the path. -/
def boundName (spec : ImportSpec) : Option String :=
  match spec.name with
  | some (.dot _) => none
  | some (.name n) => if n.name = blank then none else some n.name
  | none => spec.elements.getLast?.filter (· ≠ blank)

/-- Where an import begins: at its name or dot, or else at its path. -/
def place (spec : ImportSpec) : Location :=
  match spec.name with
  | some (.dot dot) => dot.start
  | some (.name n) => n.span.start
  | none => spec.pathSpan.start

end ImportSpec

def DeclForm.importSpecs : DeclForm → List ImportSpec
  | imports d => d.specs
  | _ => []

namespace Tally

/-- An imported package has a scope. -/
def addSpec (t : Tally) (spec : ImportSpec) : Tally :=
  if spec.boundName.isSome then { t with scopes := t.scopes + 1 } else t

def addDecl (t : Tally) (decl : Decl) : Tally :=
  match decl.form with
  | .const spec => { t with consts := t.consts + spec.names.length }
  | .var spec => { t with vars := t.vars + spec.names.length }
  | _ => t

/-- A file, without what is in it. -/
def newFile (t : Tally) : Tally := { t with files := t.files + 1, scopes := t.scopes + 1 }

/-- What some items come to, one after the other. -/
def collect {α : Type} (attempts : Tally → α → List Attempt) (add : Tally → α → Tally) :
    Tally → List α → List Attempt
  | _, [] => []
  | t, a :: as => attempts t a ++ collect attempts add (add t a) as

end Tally

-- ================================================================ files

def ImportSpec.attempts (file : Nat) (t : Tally) (spec : ImportSpec) : List Attempt :=
  spec.boundName.toList.map fun name =>
    ⟨.file file, name, .package ⟨spec.path, t.scopes⟩, spec.place, file⟩

/-- What the identifier of a declaration at a position is bound to. -/
def Tally.bindingOf (t : Tally) (decl : Decl) (position : Nat) : Binding :=
  match decl.form with
  | .const _ => .const (t.consts + position)
  | .var _ => .var (t.vars + position)
  | .type _ => .type decl
  | .func _ => .func decl
  | .method _ | .imports _ => .method decl

/-- One attempt for each identifier that is declared. -/
def Tally.declAttempts (file : Nat) (t : Tally) (decl : Decl) : List Attempt :=
  decl.form.names.zipIdx.flatMap fun (n, i) =>
    Attempt.ofName .package file n.name n.span.start (t.bindingOf decl i)

namespace File

def importSpecs (f : File) : List ImportSpec := f.imports.flatMap (·.form.importSpecs)

/-- The tally after the imports of a file. -/
def tallyImports (t : Tally) (f : File) : Tally := f.importSpecs.foldl .addSpec t.newFile

def tally (t : Tally) (f : File) : Tally := f.decls.foldl .addDecl (tallyImports t f)

/-- The imports of a file, then its declarations. -/
def attempts (t : Tally) (f : File) : List Attempt :=
  t.newFile.collect (ImportSpec.attempts t.files) .addSpec f.importSpecs ++
    (tallyImports t f).collect (Tally.declAttempts t.files) .addDecl f.decls

end File

/-- Everything that would bind a name, in order. The first scope is that
of the package. -/
def attempts (files : List File) : List Attempt :=
  Tally.collect File.attempts File.tally ⟨0, 1, 0, 0⟩ files

-- ============================================================== imports

namespace ImportSpec

variable {spec : ImportSpec}

/-- What stands after the last slash of the path is its last element. -/
theorem getLast?_elements (spec : ImportSpec) :
    spec.elements.getLast? = some (lastElement spec.path) := by
  have hall {cs : List Char} (h : '/' ∉ cs) : ∀ c ∈ cs, decide (c ≠ '/') = true :=
    fun c hc => decide_eq_true (ne_of_mem_of_not_mem hc h)
  rw [elements, List.getLast?_map, lastElement]
  by_cases h : '/' ∈ spec.path.toList.reverse
  · -- the last slash is the first one from behind
    obtain ⟨last, before, hsplit, hlast⟩ := List.eq_append_cons_of_mem h
    have hpath : spec.path.toList = before.reverse ++ '/' :: last.reverse := by
      rw [← List.reverse_reverse spec.path.toList, hsplit]
      simp
    have hnone : '/' ∉ last.reverse := fun hmem => hlast (List.mem_reverse.mp hmem)
    rw [hsplit, List.takeWhile_append_of_pos (hall hlast), hpath, List.splitOn_append_cons_self,
      List.splitOn_eq_singleton hnone, List.getLast?_concat]
    simp
  · rw [List.takeWhile_eq_self_iff.mpr (hall h), List.reverse_reverse,
      List.splitOn_eq_singleton fun hmem => h (List.mem_reverse.mpr hmem)]
    rfl

/-- So an import binds its binding name, unless that is blank. -/
theorem boundName_eq (spec : ImportSpec) :
    spec.boundName = spec.bindingName.filter (· ≠ blank) := by
  unfold boundName bindingName
  cases spec.name with
  | none => rw [getLast?_elements]
  | some name =>
    cases name with
    | dot => rfl
    | name n => by_cases hn : n.name = blank <;> simp [hn, Option.filter]

theorem start_span (spec : ImportSpec) : spec.span.start = spec.place := by
  unfold span place
  cases spec.name with
  | none => rfl
  | some name => cases name <;> rfl

/-- A path that ends in the blank element gives no name. -/
theorem boundName_of_blank_element (hname : spec.name = none)
    (hlast : spec.elements.getLast? = some blank) : spec.boundName = none := by
  simp [boundName, hname, hlast]

end ImportSpec

-- =============================================================== errors

namespace Attempt

variable {as : List Attempt} {a : Attempt}

theorem first?_append (as bs : List Attempt) (key : Owner × String) :
    first? (as ++ bs) key = (first? as key).or (first? bs key) :=
  List.find?_append

theorem first?_singleton (key : Owner × String) :
    first? [a] key = if a.key = key then some a else none := by
  by_cases h : a.key = key <;> simp [first?, h]

theorem first?_eq_none {key : Owner × String} :
    first? as key = none ↔ key ∉ as.map Attempt.key := by
  simp [first?]

/-- An attempt that is not the first changes nothing. -/
theorem first?_append_of_some {first : Attempt} (h : first? as a.key = some first)
    (key : Owner × String) : first? (as ++ [a]) key = first? as key := by
  rw [first?_append, first?_singleton]
  split
  · next hkey => rw [← hkey, h, Option.some_or]
  · rw [Option.or_none]

/-- One more attempt is one more error, unless it is the first. -/
theorem redeclarations_append (as : List Attempt) (a : Attempt) :
    redeclarations (as ++ [a]) = redeclarations as ++ ((first? as a.key).map a.against).toList := by
  have hbefore : ∀ p ∈ as.zipIdx, (first? ((as ++ [a]).take p.2) p.1.key).map p.1.against =
      (first? (as.take p.2) p.1.key).map p.1.against := by
    intro p hp
    have hlt := List.snd_lt_of_mem_zipIdx hp
    rw [List.take_append_of_le_length (by omega)]
  unfold redeclarations
  rw [List.zipIdx_append, List.filterMap_append, List.filterMap_congr hbefore]
  simp only [List.zipIdx_singleton, Nat.zero_add, List.filterMap_cons, List.filterMap_nil,
    List.take_left]
  cases first? as a.key <;> rfl

/-- There are as many errors as attempts that are not the first. -/
theorem length_redeclarations (as : List Attempt) :
    (redeclarations as).length + (as.map key).toFinset.card = as.length := by
  induction as using List.reverseRecOn with
  | nil => rfl
  | append_singleton as a ih =>
    have hkeys : ((as ++ [a]).map key).toFinset = insert a.key (as.map key).toFinset := by
      ext k
      simp
    rw [redeclarations_append, List.length_append, List.length_append, hkeys]
    cases h : first? as a.key with
    | none =>
      have hnew : a.key ∉ (as.map key).toFinset := by
        rw [List.mem_toFinset]
        exact first?_eq_none.mp h
      rw [Finset.card_insert_of_notMem hnew]
      simp
      omega
    | some first =>
      have hold : a.key ∈ (as.map key).toFinset := by
        rw [List.mem_toFinset]
        by_contra hnew
        rw [first?_eq_none.mpr hnew] at h
        exact nomatch h
      rw [Finset.insert_eq_of_mem hold]
      simp
      omega

end Attempt

-- =============================================================== scopes

namespace PackageScope

/-- The number of the scope of an owner. -/
def scopeOf (p : PackageScope) : Owner → Option Nat
  | .package => some packageId
  | .file i => p.fileScope i

/-- What is bound by a name in the scope of an owner. -/
def boundBy (p : PackageScope) (key : Owner × String) : Option BoundName :=
  (p.scopeOf key.1).bind (p.boundIn · key.2)

/-- One name more in a scope. -/
def put (p : PackageScope) (id : Nat) (b : BoundName) : PackageScope :=
  { p with scopes := p.scopes.modify id fun s => { s with bound := s.bound ++ [b] } }

theorem boundIn_put {p : PackageScope} {id : Nat} {b : BoundName} (hlt : id < p.scopes.size)
    (hnone : p.boundIn id b.name = none) (id' : Nat) (name : String) :
    (p.put id b).boundIn id' name =
      if id = id' ∧ b.name = name then some b else p.boundIn id' name := by
  unfold put
  simp only [boundIn, scope?, Option.bind_eq_bind, Array.getElem?_modify] at hnone ⊢
  by_cases hid : id = id'
  · subst hid
    rw [Array.getElem?_eq_getElem hlt, Option.bind_some] at hnone
    rw [if_pos rfl, Array.getElem?_eq_getElem hlt, Option.map_some, Option.bind_some,
      Option.bind_some, Scope.find?, List.find?_append]
    by_cases hname : b.name = name
    · subst hname
      rw [Scope.find?] at hnone
      simp [hnone]
    · simp [hname, Scope.find?]
  · simp [hid]

end PackageScope

namespace Resolution

variable {r : Resolution} {as : List Attempt}

def tally (r : Resolution) : Tally :=
  ⟨r.package.fileScopes.size, r.package.scopes.size, r.package.consts.size, r.package.vars.size⟩

/-- Some attempts have been made, with the results they must have. -/
structure Follows (r : Resolution) (as : List Attempt) : Prop where
  bound : ∀ key, r.package.boundBy key = (Attempt.first? as key).map (·.bound)
  errors : r.errors.toList = Attempt.redeclarations as
  exists_scope : ∀ owner id, r.package.scopeOf owner = some id → id < r.package.scopes.size
  distinct : ∀ owner owner' id, r.package.scopeOf owner = some id →
    r.package.scopeOf owner' = some id → owner = owner'
  /-- The scope of an imported package is empty. -/
  owned : ∀ id name, (r.package.boundIn id name).isSome = true →
    ∃ owner, r.package.scopeOf owner = some id

/-- Only scopes and errors matter. -/
theorem Follows.congr {r' : Resolution} (h : r.Follows as)
    (hscopes : r'.package.scopes = r.package.scopes)
    (hfiles : r'.package.fileScopes = r.package.fileScopes) (herrors : r'.errors = r.errors) :
    r'.Follows as := by
  have hscopeOf : r'.package.scopeOf = r.package.scopeOf := by
    funext owner
    cases owner <;> simp [PackageScope.scopeOf, PackageScope.fileScope, hfiles]
  have hboundIn : r'.package.boundIn = r.package.boundIn := by
    funext id name
    simp [PackageScope.boundIn, PackageScope.scope?, hscopes]
  constructor
  · simpa [PackageScope.boundBy, hscopeOf, hboundIn] using h.bound
  · rw [herrors, h.errors]
  · simpa [hscopeOf, hscopes] using h.exists_scope
  · simpa [hscopeOf] using h.distinct
  · simpa [hscopeOf, hboundIn] using h.owned

theorem bind_of_some {file id : Nat} {name : String} {place : Location} {binding : Binding}
    {first : BoundName} (hname : name ≠ blank) (hfirst : r.package.boundIn id name = some first) :
    r.bind file id name place binding =
      { r with errors := r.errors.push ⟨name, first.place, place, first.file, file⟩ } := by
  rw [Resolution.bind, if_neg hname, hfirst]

theorem bind_of_none {file id : Nat} {name : String} {place : Location} {binding : Binding}
    (hname : name ≠ blank) (hnone : r.package.boundIn id name = none) :
    r.bind file id name place binding =
      { r with package := r.package.put id ⟨name, binding, place, file⟩ } := by
  rw [Resolution.bind, if_neg hname, hnone]
  rfl

section

variable {owner : Owner} {id : Nat} {b : BoundName}

/-- A name that is bound already is reported. -/
theorem Follows.report {first : Attempt} (h : r.Follows as)
    (hfirst : Attempt.first? as (owner, b.name) = some first) :
    Follows { r with errors := r.errors.push (Attempt.against ⟨owner, b⟩ first) }
      (as ++ [⟨owner, b⟩]) := by
  refine ⟨fun key => ?_, ?_, h.exists_scope, h.distinct, h.owned⟩
  · rw [Attempt.first?_append_of_some hfirst]
    exact h.bound key
  · rw [Attempt.redeclarations_append]
    simp [h.errors, hfirst, Attempt.key]

/-- A name that is not bound yet is bound. -/
theorem Follows.put (h : r.Follows as) (hid : r.package.scopeOf owner = some id)
    (hfirst : Attempt.first? as (owner, b.name) = none)
    (hnone : r.package.boundIn id b.name = none) :
    Follows { r with package := r.package.put id b } (as ++ [⟨owner, b⟩]) := by
  have hlt := h.exists_scope owner id hid
  have hput := PackageScope.boundIn_put hlt hnone
  constructor
  case bound =>
    rintro ⟨o, n⟩
    rw [Attempt.first?_append, Attempt.first?_singleton]
    by_cases hkey : Attempt.key ⟨owner, b⟩ = (o, n)
    · obtain ⟨rfl, rfl⟩ := Prod.mk.inj hkey
      rw [if_pos hkey, hfirst]
      change (r.package.scopeOf owner).bind _ = _
      rw [hid, Option.bind_some]
      exact (hput id b.name).trans (if_pos ⟨rfl, rfl⟩)
    · rw [if_neg hkey, Option.or_none, ← h.bound]
      change (r.package.scopeOf o).bind _ = (r.package.scopeOf o).bind _
      cases ho : r.package.scopeOf o with
      | none => rfl
      | some i =>
        refine (hput i n).trans (if_neg ?_)
        rintro ⟨rfl, rfl⟩
        obtain rfl := h.distinct _ _ _ hid ho
        exact hkey rfl
  case errors =>
    rw [Attempt.redeclarations_append]
    simp [h.errors, hfirst, Attempt.key]
  case exists_scope =>
    intro o i hi
    rw [PackageScope.put, Array.size_modify]
    exact h.exists_scope o i hi
  case distinct => exact h.distinct
  case owned =>
    intro i n hn
    rw [hput] at hn
    split at hn
    · next heq => exact ⟨owner, heq.1 ▸ hid⟩
    · exact h.owned i n hn

end

/-- Binding a name is one attempt more. -/
theorem Follows.bind {owner : Owner} {id : Nat} (file : Nat) (name : String) (place : Location)
    (binding : Binding) (h : r.Follows as) (hid : r.package.scopeOf owner = some id) :
    (r.bind file id name place binding).Follows
      (as ++ Attempt.ofName owner file name place binding) := by
  unfold Attempt.ofName
  by_cases hname : name = blank
  · rw [Resolution.bind, if_pos hname, if_pos hname, List.append_nil]
    exact h
  have hboundIn : r.package.boundIn id name =
      (Attempt.first? as (owner, name)).map (·.bound) := by
    rw [← h.bound, PackageScope.boundBy, hid, Option.bind_some]
  rw [if_neg hname]
  cases hfirst : Attempt.first? as (owner, name) with
  | some first =>
    rw [hfirst] at hboundIn
    rw [bind_of_some hname hboundIn]
    exact h.report (b := ⟨name, binding, place, file⟩) hfirst
  | none =>
    rw [hfirst] at hboundIn
    rw [bind_of_none hname hboundIn]
    exact h.put hid hfirst hboundIn

-- ================================================================ folds

/-- Something that is done for each item, with the attempts it makes and
with what it numbers. -/
theorem follow {α : Type} {P : Resolution → List Attempt → Prop}
    (step : Resolution → α → Resolution) (attempts : Tally → α → List Attempt)
    (add : Tally → α → Tally)
    (hstep : ∀ r as a, P r as →
      P (step r a) (as ++ attempts r.tally a) ∧ (step r a).tally = add r.tally a)
    (items : List α) (h : P r as) :
    P (items.foldl step r) (as ++ r.tally.collect attempts add items) ∧
      (items.foldl step r).tally = items.foldl add r.tally := by
  induction items generalizing r as with
  | nil => simpa [Tally.collect] using h
  | cons a items ih =>
    obtain ⟨hP, htally⟩ := hstep r as a h
    have hrest := ih hP
    rw [htally, List.append_assoc] at hrest
    exact hrest

@[simp] theorem tally_bind {file id : Nat} {name : String} {place : Location} {binding : Binding} :
    (r.bind file id name place binding).tally = r.tally := by
  unfold Resolution.bind
  split
  · rfl
  · split
    · rfl
    · simp [tally]

-- ============================================================ new scopes

theorem boundIn_newScope (parent : Option Nat) (id : Nat) (name : String) :
    (r.newScope parent).2.package.boundIn id name = r.package.boundIn id name := by
  simp only [newScope, PackageScope.boundIn, PackageScope.scope?, Option.bind_eq_bind,
    Array.getElem?_push]
  split
  · next hid => simp [hid, Scope.find?]
  · rfl

/-- A scope more, which is empty and has no owner. -/
theorem Follows.newScope (parent : Option Nat) (h : r.Follows as) :
    (r.newScope parent).2.Follows as := by
  refine ⟨fun key => ?_, h.errors, fun owner id hid => ?_, h.distinct, fun id name hb => ?_⟩
  · rw [← h.bound key]
    exact Option.bind_congr fun id _ => boundIn_newScope parent id key.2
  · have hlt := h.exists_scope owner id hid
    simp only [Resolution.newScope, Array.size_push]
    omega
  · rw [boundIn_newScope] at hb
    exact h.owned id name hb

/-- The scope of one more file is the last one. -/
theorem scopeOf_addFileScope (owner : Owner) :
    r.addFileScope.2.package.scopeOf owner =
      if owner = .file r.tally.files then some r.tally.scopes else r.package.scopeOf owner := by
  cases owner with
  | package => rfl
  | file i =>
    simp [addFileScope, newScope, PackageScope.scopeOf, PackageScope.fileScope,
      Array.getElem?_push, tally]

theorem tally_addFileScope : r.addFileScope.2.tally = r.tally.newFile := by
  simp [addFileScope, newScope, tally, Tally.newFile]

/-- A scope for one more file. -/
theorem Follows.addFileScope (h : r.Follows as) : r.addFileScope.2.Follows as := by
  have hboundIn : r.addFileScope.2.package.boundIn = r.package.boundIn :=
    funext fun id => funext fun name => boundIn_newScope (some PackageScope.packageId) id name
  have hsize : r.addFileScope.2.package.scopes.size = r.package.scopes.size + 1 :=
    Array.size_push _
  have hfresh : r.package.scopeOf (.file r.tally.files) = none := by
    simp [PackageScope.scopeOf, PackageScope.fileScope, tally]
  have hlast : ∀ owner, r.package.scopeOf owner ≠ some r.tally.scopes := fun owner hid =>
    absurd (h.exists_scope _ _ hid) (Nat.lt_irrefl _)
  constructor
  case bound =>
    rintro ⟨owner, name⟩
    rw [← h.bound, PackageScope.boundBy, PackageScope.boundBy, scopeOf_addFileScope, hboundIn]
    split
    · next howner =>
      rw [howner, hfresh]
      simp [PackageScope.boundIn, PackageScope.scope?, tally]
    · rfl
  case errors => exact h.errors
  case exists_scope =>
    intro owner id hid
    rw [scopeOf_addFileScope] at hid
    rw [hsize]
    split at hid
    · cases hid
      exact Nat.lt_succ_self _
    · exact Nat.lt_succ_of_lt (h.exists_scope owner id hid)
  case distinct =>
    intro owner owner' id hid hid'
    rw [scopeOf_addFileScope] at hid hid'
    split at hid <;> split at hid'
    · simp_all
    · cases hid
      exact absurd hid' (hlast owner')
    · cases hid'
      exact absurd hid (hlast owner)
    · exact h.distinct owner owner' id hid hid'
  case owned =>
    intro id name hb
    rw [hboundIn] at hb
    obtain ⟨owner, hid⟩ := h.owned id name hb
    refine ⟨owner, ?_⟩
    rw [scopeOf_addFileScope, if_neg, hid]
    rintro rfl
    exact nomatch hfresh.symm.trans hid

-- =========================================================== one by one

variable {file fileScope : Nat} {spec : ImportSpec} {decl : Decl}

/-- What is preserved while a file is resolved. -/
structure InFile (file fileScope : Nat) (r : Resolution) (as : List Attempt) : Prop where
  follows : r.Follows as
  scope : r.package.scopeOf (.file file) = some fileScope

theorem scopeOf_bind {id : Nat} {name : String} {place : Location} {binding : Binding} :
    (r.bind file id name place binding).package.scopeOf = r.package.scopeOf := by
  unfold Resolution.bind
  split
  · rfl
  · split <;> rfl

theorem addImport_of_none (h : spec.boundName = none) :
    addImport file fileScope r spec = r := by
  rw [ImportSpec.boundName_eq] at h
  unfold addImport
  split
  · rfl
  · next name hname =>
    rw [hname] at h
    exact if_pos (by simpa using h)

theorem addImport_of_some {name : String} (h : spec.boundName = some name) :
    addImport file fileScope r spec = (r.newScope none).2.bind file fileScope name
      spec.place (.package ⟨spec.path, r.tally.scopes⟩) := by
  rw [ImportSpec.boundName_eq] at h
  obtain ⟨hname, hblank⟩ := Option.filter_eq_some_iff.mp h
  unfold addImport
  rw [hname, ImportSpec.start_span]
  exact if_neg (by simpa using hblank)

theorem InFile.addImport (h : InFile file fileScope r as) :
    InFile file fileScope (addImport file fileScope r spec) (as ++ spec.attempts file r.tally) ∧
      (Resolution.addImport file fileScope r spec).tally = r.tally.addSpec spec := by
  unfold ImportSpec.attempts Tally.addSpec
  cases hspec : spec.boundName with
  | none =>
    rw [addImport_of_none hspec]
    exact ⟨by simpa using h, rfl⟩
  | some name =>
    have hname : name ≠ blank := by
      rw [ImportSpec.boundName_eq] at hspec
      simpa using (Option.filter_eq_some_iff.mp hspec).2
    rw [addImport_of_some hspec]
    refine ⟨⟨?_, ?_⟩, ?_⟩
    · have hscope : (r.newScope none).2.package.scopeOf (.file file) = some fileScope := h.scope
      have hbind := (h.follows.newScope none).bind file name spec.place
        (.package ⟨spec.path, r.tally.scopes⟩) hscope
      rwa [Attempt.ofName, if_neg hname] at hbind
    · rw [scopeOf_bind]
      exact h.scope
    · rw [tally_bind]
      simp [newScope, tally]

/-- An identifier that is bound after something was noted that is no
scope. -/
theorem Follows.bindIdent {r' : Resolution} (file : Nat) (n : Ident) (binding : Binding)
    (h : r.Follows as)
    (hscopes : r'.package.scopes = r.package.scopes)
    (hfiles : r'.package.fileScopes = r.package.fileScopes) (herrors : r'.errors = r.errors) :
    (r'.bindIdent file n binding).Follows
      (as ++ Attempt.ofName .package file n.name n.span.start binding) :=
  (h.congr hscopes hfiles herrors).bind file n.name n.span.start binding rfl

/-- Names that are bound to numbers: each `add` takes the next one, and
`next k` is the tally after `k` of them. -/
theorem Follows.names (add : Resolution → Ident × Nat → Resolution) (binding : Nat → Binding)
    (count : Tally → Nat) (next : Nat → Tally → Tally) (hzero : ∀ t, next 0 t = t)
    (hsucc : ∀ k t, next k (next 1 t) = next (k + 1) t)
    (hcount : ∀ t, count (next 1 t) = count t + 1)
    (hadd : ∀ r as p, Follows r as → (add r p).Follows
        (as ++ Attempt.ofName .package file p.1.name p.1.span.start (binding (count r.tally))) ∧
      (add r p).tally = next 1 r.tally)
    (names : List Ident) {c k : Nat} (h : r.Follows as) (hc : count r.tally = c + k) :
    ((names.zipIdx k).foldl add r).Follows (as ++ (names.zipIdx k).flatMap fun (n, i) =>
        Attempt.ofName .package file n.name n.span.start (binding (c + i))) ∧
      ((names.zipIdx k).foldl add r).tally = next names.length r.tally := by
  induction names generalizing r as k with
  | nil => exact ⟨by simpa using h, (hzero _).symm⟩
  | cons n names ih =>
    obtain ⟨hn, htally⟩ := hadd r as (n, k) h
    obtain ⟨hrest, hlast⟩ := ih (k := k + 1) hn (by rw [htally, hcount, hc, Nat.add_assoc])
    rw [hc, List.append_assoc] at hrest
    exact ⟨hrest, by rw [List.length_cons, ← hsucc, ← htally]; exact hlast⟩

/-- Listing a method binds nothing. -/
theorem Follows.indexMethod (decl : Decl) (m : MethodDecl) (h : r.Follows as) :
    (r.indexMethod decl m).Follows as ∧ (r.indexMethod decl m).tally = r.tally := by
  unfold Resolution.indexMethod
  split
  · split
    · exact ⟨h, rfl⟩
    · exact ⟨h.congr rfl rfl rfl, rfl⟩
  · exact ⟨h, rfl⟩

theorem Follows.declare (h : r.Follows as) :
    (declare file r decl).Follows (as ++ r.tally.declAttempts file decl) ∧
      (Resolution.declare file r decl).tally = r.tally.addDecl decl := by
  unfold Resolution.declare Tally.declAttempts Tally.addDecl Tally.bindingOf
  cases decl.form with
  | imports d => simpa [DeclForm.names] using h
  | const spec =>
    refine Follows.names (addConst file decl spec.type) .const (·.consts)
      (fun k t => { t with consts := t.consts + k }) (fun _ => rfl) ?_ (fun _ => rfl)
      (fun r as p h => ⟨h.bindIdent file p.1 _ rfl rfl rfl, ?_⟩) spec.names h (Nat.add_zero _).symm
    · exact fun k t => congrArg (fun n => { t with consts := n }) (Nat.add_right_comm _ 1 k)
    · rw [addConst, Resolution.bindIdent, tally_bind]
      simp [tally]
  | var spec =>
    refine Follows.names (addVar file decl spec.type) .var (·.vars)
      (fun k t => { t with vars := t.vars + k }) (fun _ => rfl) ?_ (fun _ => rfl)
      (fun r as p h => ⟨h.bindIdent file p.1 _ rfl rfl rfl, ?_⟩) spec.names h (Nat.add_zero _).symm
    · exact fun k t => congrArg (fun n => { t with vars := n }) (Nat.add_right_comm _ 1 k)
    · rw [addVar, Resolution.bindIdent, tally_bind]
      simp [tally]
  | type spec =>
    have hbind := h.bindIdent file spec.name (.type decl) rfl rfl rfl
    exact ⟨by simpa [DeclForm.names] using hbind, tally_bind⟩
  | func f =>
    have hbind := h.bindIdent file f.name (.func decl) rfl rfl rfl
    exact ⟨by simpa [DeclForm.names] using hbind, tally_bind⟩
  | method m =>
    have hbind := h.bindIdent file m.name (.method decl) rfl rfl rfl
    obtain ⟨hindex, htally⟩ := hbind.indexMethod decl m
    exact ⟨by simpa [DeclForm.names] using hindex, htally.trans tally_bind⟩

-- ================================================================ files

/-- What is done in parts is done as a whole. -/
theorem collect_flatMap {α β : Type} {attempts : Tally → β → List Attempt}
    {add : Tally → β → Tally} (g : α → List β) (items : List α) (t : Tally) :
    t.collect (fun t a => t.collect attempts add (g a)) (fun t a => (g a).foldl add t) items =
      t.collect attempts add (items.flatMap g) := by
  have happend : ∀ (bs cs : List β) (t : Tally), t.collect attempts add (bs ++ cs) =
      t.collect attempts add bs ++ (bs.foldl add t).collect attempts add cs := by
    intro bs cs t
    induction bs generalizing t with
    | nil => rfl
    | cons b bs ih => simp [Tally.collect, ih]
  induction items generalizing t with
  | nil => rfl
  | cons a items ih => rw [Tally.collect, List.flatMap_cons, happend, ih]

/-- Noting which file a declaration is from binds nothing. -/
theorem Follows.noteFile (h : r.Follows as) : (r.noteFile file decl).Follows as :=
  h.congr rfl rfl rfl

theorem importAll_eq : importAll file fileScope r decl =
    decl.form.importSpecs.foldl (Resolution.addImport file fileScope) r := by
  unfold importAll
  cases decl.form <;> rfl

/-- One more file. -/
theorem Follows.addFile {f : File} (h : r.Follows as) :
    (r.addFile f).Follows (as ++ f.attempts r.tally) ∧ (r.addFile f).tally = f.tally r.tally := by
  have hfile : InFile r.tally.files r.tally.scopes r.addFileScope.2 as :=
    ⟨h.addFileScope, by rw [scopeOf_addFileScope, if_pos rfl]⟩
  -- a declaration of imports, with all its specs
  have himport : ∀ r' as d, InFile r.tally.files r.tally.scopes r' as →
      InFile r.tally.files r.tally.scopes
        (importAll r.tally.files r.tally.scopes (r'.noteFile r.tally.files d) d)
        (as ++ r'.tally.collect (ImportSpec.attempts r.tally.files) .addSpec d.form.importSpecs) ∧
      (importAll r.tally.files r.tally.scopes (r'.noteFile r.tally.files d) d).tally =
        d.form.importSpecs.foldl .addSpec r'.tally := by
    intro r' as d h
    rw [importAll_eq]
    exact follow _ _ _ (P := InFile r.tally.files r.tally.scopes) (fun _ _ _ h => h.addImport)
      d.form.importSpecs ⟨h.follows.noteFile, h.scope⟩
  obtain ⟨himports, htally⟩ := follow (P := InFile r.tally.files r.tally.scopes)
    (fun r' d => importAll r.tally.files r.tally.scopes (r'.noteFile r.tally.files d) d)
    (fun t d => t.collect (ImportSpec.attempts r.tally.files) .addSpec d.form.importSpecs)
    (fun t d => d.form.importSpecs.foldl .addSpec t) himport f.imports hfile
  rw [tally_addFileScope, collect_flatMap] at himports
  rw [tally_addFileScope, ← List.foldl_flatMap] at htally
  have hdecls := follow (P := Follows)
    (fun r' d => Resolution.declare r.tally.files (r'.noteFile r.tally.files d) d)
    (Tally.declAttempts r.tally.files) Tally.addDecl
    (fun _ _ _ h => h.noteFile.declare) f.decls himports.follows
  rw [htally, List.append_assoc] at hdecls
  exact hdecls

end Resolution

/-- Before the first file there is the scope of the package, and nothing is
bound. -/
theorem Resolution.follows_empty : Resolution.empty.Follows [] := by
  have hboundIn : ∀ id name, Resolution.empty.package.boundIn id name = none := by
    intro id name
    cases id <;> rfl
  have hscope : ∀ owner id, Resolution.empty.package.scopeOf owner = some id →
      owner = .package ∧ id = 0 := by
    intro owner id hid
    cases owner with
    | package => exact ⟨rfl, (Option.some.inj hid).symm⟩
    | file i => exact nomatch hid
  constructor
  case bound =>
    intro key
    exact Option.bind_eq_none_iff.mpr fun id _ => hboundIn id key.2
  case errors => rfl
  case exists_scope =>
    intro owner id hid
    rw [(hscope owner id hid).2]
    exact Nat.zero_lt_one
  case distinct =>
    intro owner owner' id hid hid'
    rw [(hscope owner id hid).1, (hscope owner' id hid').1]
  case owned =>
    intro id name hb
    rw [hboundIn] at hb
    exact nomatch hb

/-- A package that is resolved follows the attempts of its files. -/
theorem resolve_follows (files : List File) :
    (resolve files).Follows (attempts files) ∧
      (resolve files).tally = files.foldl File.tally ⟨0, 1, 0, 0⟩ :=
  Resolution.follow _ _ _ (P := Resolution.Follows) (fun _ _ _ h => h.addFile) files
    Resolution.follows_empty

theorem File.files_tally (t : Tally) (f : File) : (f.tally t).files = t.files + 1 := by
  have hdecls : ∀ ds : List Decl, ∀ t : Tally, (ds.foldl .addDecl t).files = t.files := by
    intro ds t
    induction ds generalizing t with
    | nil => rfl
    | cons d ds ih =>
      rw [List.foldl_cons, ih, Tally.addDecl]
      split <;> rfl
  have hspecs : ∀ specs : List ImportSpec, ∀ t : Tally,
      (specs.foldl .addSpec t).files = t.files := by
    intro specs t
    induction specs generalizing t with
    | nil => rfl
    | cons spec specs ih =>
      rw [List.foldl_cons, ih, Tally.addSpec]
      split <;> rfl
  rw [tally, hdecls, tallyImports, hspecs]
  rfl

/-- Every file has a scope. -/
theorem resolve_fileScopes (files : List File) :
    (resolve files).package.fileScopes.size = files.length := by
  have hcount : ∀ t : Tally, (files.foldl File.tally t).files = t.files + files.length := by
    intro t
    induction files generalizing t with
    | nil => rfl
    | cons f files ih =>
      rw [List.foldl_cons, ih, File.files_tally, List.length_cons]
      omega
  have htally := congrArg Tally.files (resolve_follows files).2
  rw [hcount, Nat.zero_add] at htally
  exact htally

/-- In the scope of the package, and in that of each file, a name is bound
to what the first attempt wants it to be, and a scope of neither binds
nothing. There is an error for each attempt that is not the first, in
order: as many as attempts, less the pairs of an owner and a name among
them. An import attempts nothing if it has a dot or if its name is blank,
no matter whether the name is written or is the end of its path. -/
theorem resolve_first_wins (files : List File) :
    (∀ owner name, (resolve files).package.boundBy (owner, name) =
      (Attempt.first? (attempts files) (owner, name)).map (·.bound)) ∧
    (resolve files).package.fileScopes.size = files.length ∧
    (∀ id name, (∀ owner, (resolve files).package.scopeOf owner ≠ some id) →
      (resolve files).package.boundIn id name = none) ∧
    (resolve files).errors.toList = Attempt.redeclarations (attempts files) ∧
    (resolve files).errors.size =
      (attempts files).length - ((attempts files).map Attempt.key).toFinset.card ∧
    ((resolve files).errors.isEmpty = true ↔
      (attempts files).length - ((attempts files).map Attempt.key).toFinset.card = 0) := by
  have hfollows := (resolve_follows files).1
  have hlength := Attempt.length_redeclarations (attempts files)
  have hsize : (resolve files).errors.size =
      (attempts files).length - ((attempts files).map Attempt.key).toFinset.card := by
    rw [← Array.length_toList, hfollows.errors]
    omega
  refine ⟨fun owner name => hfollows.bound (owner, name), resolve_fileScopes files,
    fun id name hid => ?_, hfollows.errors, hsize, ?_⟩
  · cases hb : (resolve files).package.boundIn id name with
    | none => rfl
    | some b =>
      obtain ⟨owner, howner⟩ := hfollows.owned id name (by rw [hb]; rfl)
      exact absurd howner (hid owner)
  · rw [← hsize, Array.isEmpty_iff_size_eq_zero]

/-- Of six imports of a file three are attempts: one by the name it is given,
one by the end of its path, and one that is bound already. A dot, a blank
name and a path with a blank end bind nothing. -/
theorem resolve_first_wins_imports :
    let files := parseFiles 20 ["package p; import (m \"x/a\"; \"x/b\"; . \"y\"; _ \"z\"; " ++
      "\"x/_\"; \"w/m\"); var b, _, b int"]
    (attempts files).map Attempt.key =
        [(.file 0, "m"), (.file 0, "b"), (.file 0, "m"), (.package, "b"), (.package, "b")] ∧
      ((resolve files).package.boundBy (.file 0, "m")).map
        (fun b => (b.binding matches .package ⟨"x/a", _⟩, b.place)) = some (true, ⟨1, 20⟩) ∧
      (resolve files).errors.toList =
        [⟨"m", ⟨1, 20⟩, ⟨1, 57⟩, 0, 0⟩, ⟨"b", ⟨1, 69⟩, ⟨1, 75⟩, 0, 0⟩] ∧
      (resolve files).errors.size = 2 := by
  intro files
  obtain ⟨hbound, -, -, herrors, hsize, -⟩ := resolve_first_wins files
  rw [hbound, herrors, hsize]
  decide +kernel

/-- An import that has neither a dot nor a name is not bound if its path
ends in the blank name, although that is its binding name. -/
theorem resolve_blank_element :
    let files := parseFiles 20 ["package p; import \"x/_\""]
    files.map (fun f => f.importSpecs.map fun s => (s.name, s.bindingName)) =
        [[(none, some "_")]] ∧
      (resolve files).package.fileScopes.size = 1 ∧
      (resolve files).package.boundBy (.file 0, "_") = none := by
  decide +kernel

end GoSource
