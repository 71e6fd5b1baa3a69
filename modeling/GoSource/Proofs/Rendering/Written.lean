/-
Renderings can be written out.

A rendering is a list of slots, and not every list of slots is one of
tokens: a literal may have a value that no text denotes. The literals of a
tree that is derived are denoted by the tokens they were read from, so the
tokens of its rendering exist (`Derives.written`).
-/
import GoSource.Proofs.Derivation
import GoSource.Proofs.Rendering
import Mathlib.Data.List.SplitBy

namespace GoSource

/-- There is a token for every slot. -/
def Written (ss : List Slot) : Prop :=
  ∀ slot ∈ ss, ∃ t, slot.Accepts t

theorem Written.exists_tokens {ss : List Slot} (h : Written ss) :
    ∃ tokens, List.Forall₂ Slot.Accepts ss tokens := by
  induction ss with
  | nil => exact ⟨[], .nil⟩
  | cons slot ss ih =>
    obtain ⟨t, ht⟩ := h slot List.mem_cons_self
    obtain ⟨tokens, htokens⟩ := ih fun slot hslot => h slot (List.mem_cons_of_mem _ hslot)
    exact ⟨t :: tokens, .cons ht htokens⟩

-- ================================================================ slots

section

variable {ss us : List Slot} {items : List (List Slot)} {k : Token.Kind}

@[simp] theorem written_nil : Written [] := nofun

theorem written_cons {slot : Slot} :
    Written (slot :: ss) ↔ (∃ t, slot.Accepts t) ∧ Written ss :=
  List.forall_mem_cons

@[simp] theorem written_kind : Written (.kind k :: ss) ↔ k ≠ .eof ∧ Written ss := by
  rw [written_cons]
  refine and_congr_left fun _ => ⟨?_, fun hk => ⟨⟨k, "", .nowhere⟩, hk, rfl⟩⟩
  rintro ⟨t, hk, rfl⟩
  exact hk

@[simp] theorem written_name {n : String} : Written (.name n :: ss) ↔ Written ss := by
  rw [written_cons]
  exact and_iff_right ⟨⟨.ident, n, .nowhere⟩, nofun, rfl, rfl⟩

/-- The end of the input denotes nothing. -/
theorem Literal.ne_eof_of_decode {text : String} {v : Literal} (hv : decode k text = some v) :
    k ≠ .eof := by
  rintro rfl
  exact nomatch hv

/-- Some token denotes the value. -/
def Literal.IsDenoted (v : Literal) : Prop :=
  ∃ k text, decode k text = some v

@[simp] theorem written_literal {v : Literal} :
    Written (.literal v :: ss) ↔ v.IsDenoted ∧ Written ss := by
  rw [written_cons]
  refine and_congr_left fun _ => ⟨?_, ?_⟩
  · rintro ⟨t, -, hv⟩
    exact ⟨_, _, hv⟩
  · rintro ⟨k, text, hv⟩
    exact ⟨⟨k, text, .nowhere⟩, Literal.ne_eof_of_decode hv, hv⟩

@[simp] theorem written_path {text : String} : Written (.path text :: ss) ↔
    (∃ bytes, (Literal.string bytes).IsDenoted ∧ Text.lossyText bytes = text) ∧ Written ss := by
  rw [written_cons]
  refine and_congr_left fun _ => ⟨?_, ?_⟩
  · rintro ⟨t, -, bytes, hv, htext⟩
    exact ⟨bytes, ⟨_, _, hv⟩, htext⟩
  · rintro ⟨bytes, ⟨k, text, hv⟩, htext⟩
    exact ⟨⟨k, text, .nowhere⟩, Literal.ne_eof_of_decode hv, bytes, hv, htext⟩

@[simp] theorem written_map {α : Type} {f : α → Slot} {as : List α} :
    Written (as.map f) ↔ ∀ a ∈ as, Written [f a] := by
  simp [Written]

@[simp] theorem written_replicate {slot : Slot} {n : Nat} (h : Written [slot]) :
    Written (List.replicate n slot) :=
  fun _ hslot => h _ (List.mem_singleton.mpr (List.eq_of_mem_replicate hslot))

@[simp] theorem written_append : Written (ss ++ us) ↔ Written ss ∧ Written us :=
  List.forall_mem_append

@[simp] theorem written_flatMap {α : Type} {f : α → List Slot} {as : List α} :
    Written (as.flatMap f) ↔ ∀ a ∈ as, Written (f a) := by
  simp only [Written, List.mem_flatMap]
  exact ⟨fun h a ha slot hslot => h slot ⟨a, ha, hslot⟩,
    fun h slot ⟨a, ha, hslot⟩ => h a ha slot hslot⟩

@[simp] theorem written_parens : Written (Render.parens ss) ↔ Written ss := by
  simp [Render.parens]

@[simp] theorem written_braces : Written (Render.braces ss) ↔ Written ss := by
  simp [Render.braces]

@[simp] theorem written_commas : Written (Render.commas items) ↔ ∀ ss ∈ items, Written ss := by
  cases items <;> simp [Render.commas]

@[simp] theorem written_ended (hk : k ≠ .eof) :
    Written (Render.ended k items) ↔ ∀ ss ∈ items, Written ss := by
  simp [Render.ended, hk]

@[simp] theorem written_names (ns : List Ident) : Written (Render.names ns) := by
  simp [Render.names]

@[simp] theorem written_dots (o : Option Span) : Written (Render.dots o) := by
  cases o <;> simp [Render.dots]

@[simp] theorem written_exprs {xs : List Expr} :
    Written (Render.exprs xs) ↔ ∀ x ∈ xs, Written (Render.expr x) := by
  simp [Render.exprs, Render.exprList_eq]

end

-- ================================================================ trees

theorem UnaryOp.kind_ne_eof (op : UnaryOp) : op.kind ≠ .eof := by
  cases op <;> decide

theorem BinaryOp.kind_ne_eof (op : BinaryOp) : op.kind ≠ .eof := by
  cases op <;> decide

theorem AssignOp.kind_ne_eof (op : AssignOp) : op.kind ≠ .eof := by
  cases op <;> decide

theorem StepOp.kind_ne_eof (op : StepOp) : op.kind ≠ .eof := by
  cases op <;> decide

/-- A declaration that stands alone. -/
def Render.lone (form : DeclForm) : List Slot :=
  topLevel [⟨0, .nowhere, form⟩]

section

open Render

variable {x : Expr} {t : TypeExpr} {i : Nat} {sp : Span} {ds : List Decl}

attribute [local simp] expr exprForm typeExpr typeForm stmtForm

theorem written_part : Written (part x) ↔ Written (expr x) := by
  obtain ⟨i, sp, form⟩ := x
  rw [part, expr]
  split
  · exact Iff.rfl
  · exact written_parens

theorem written_element {key : Option Expr} {value : Expr} :
    Written (element ⟨key, value⟩) ↔ (∀ x ∈ key, Written (expr x)) ∧ Written (expr value) := by
  cases key <;> simp [element, written_part]

theorem written_namedType (hn : NamesType x t) (hx : Written (expr x)) : Written (typeExpr t) := by
  cases hn with
  | type => simpa using hx
  | plain => simp
  | qualified => simp

theorem written_bound {o : Option Expr} : Written (bound o) ↔ ∀ x ∈ o, Written (expr x) := by
  cases o <;> simp [bound]

theorem written_optionalResult {o : Option FuncResult} :
    Written (optionalResult o) ↔ ∀ r ∈ o, Written (funcResult r) := by
  cases o <;> simp [optionalResult]

theorem written_embedded : Written (embedded t) ↔ Written (typeExpr t) := by
  obtain ⟨i, sp, form⟩ := t
  cases form with
  | pointer t => simp [embedded]
  | _ => exact Iff.rfl

theorem written_field {ns : List Ident} {tag : Option Lit} :
    Written (field ⟨i, sp, ⟨ns, t, tag⟩⟩) ↔
      Written (typeExpr t) ∧ ∀ g ∈ tag, g.form.IsDenoted := by
  cases ns <;> simp [field, written_embedded]

theorem written_range {left : List Expr} {define : Bool} :
    Written (stmtForm (.range left define x)) ↔
      (∀ y ∈ left, Written (expr y)) ∧ Written (expr x) := by
  cases left with
  | nil => simp
  | cons y left => cases define <;> simp

theorem written_optionalStmt {o : Option Stmt} :
    Written (optionalStmt o) ↔ ∀ s ∈ o, Written (stmt s) := by
  cases o <;> simp [optionalStmt]

theorem written_header {o : Option Stmt} : Written (header o) ↔ ∀ s ∈ o, Written (stmt s) := by
  cases o <;> simp [header]

theorem written_otherwise {o : Option Stmt} :
    Written (otherwise o) ↔ ∀ s ∈ o, Written (stmt s) := by
  cases o <;> simp [otherwise]

theorem written_optionalParens {o : Option TypeExpr} :
    Written (optionalParens o) ↔ ∀ t ∈ o, Written (typeExpr t) := by
  cases o <;> simp [optionalParens]

theorem written_values {o : Option (List Expr)} :
    Written (values (o.getD [])) ↔ ∀ xs ∈ o, ∀ x ∈ xs, Written (expr x) := by
  rcases o with _ | _ | ⟨x, xs⟩ <;> simp [values]

theorem written_importSpec {s : ImportSpec} : Written (importSpec s) ↔ Written [.path s.path] := by
  obtain ⟨_ | _ | n, path, sp⟩ := s <;> simp [importSpec]

/-- Specs are written in a group as they are alone. -/
theorem written_group (h : ∀ d ∈ ds, Written (lone d.form)) : Written (group ds) := by
  have hkeyword : keyword ds ≠ .eof := by
    unfold keyword
    split <;> decide
  have hspec : ∀ d ∈ ds, Written (spec d.form) := by
    rintro ⟨i, sp, form⟩ hd
    have hlone := h _ hd
    cases form with
    | const | var | type => simpa [lone, topLevel, group, keyword] using hlone
    | _ => exact written_nil
  simpa [group, hkeyword] using hspec

theorem written_topLevel (h : ∀ d ∈ ds, Written (lone d.form)) : Written (topLevel ds) := by
  unfold topLevel
  split
  · exact h _ List.mem_cons_self
  · exact h _ List.mem_cons_self
  · exact h _ List.mem_cons_self
  · exact written_group h

theorem written_decls (h : ∀ d ∈ ds, Written (lone d.form)) : Written (decls ds) := by
  rw [decls, written_ended (by decide)]
  intro ss hss
  obtain ⟨g, hg, rfl⟩ := List.mem_map.mp hss
  refine written_topLevel fun d hd => h d ?_
  rw [← List.flatten_splitBy (fun _ d => continuesGroup d) ds]
  exact List.mem_flatten.mpr ⟨g, hg, hd⟩

end

-- =============================================================== phrases

/-- What a phrase is written as, apart from what holds its items
together. -/
def Phrase.slots : (p : Phrase) → p.Result → List Slot
  | .name, _ | .mark _, _ | .importName, _ => []
  | .literal, lit | .tag, lit => [.literal lit.form]
  | .optional p, a => a.toList.flatMap p.slots
  | .terminated _ p, as | .separated _ p, as | .listed _ p, as => as.flatMap p.slots
  | .expr _, x | .part, x => Render.expr x
  | .arguments, args => args.1.flatMap Render.expr
  | .element, e => Render.element e
  | .typeName, t | .type, t | .embedded, t => Render.typeExpr t
  | .arrayLength, len => Render.arrayLength len
  | .param _, p => Render.param p
  | .params, ps => ps.flatMap Render.param
  | .parameters, ps => Render.paramList ps
  | .signature, sig => Render.signature sig
  | .result, r => Render.funcResult r
  | .field, f => Render.field f
  | .interfaceElement, e => Render.interfaceElement e
  | .simple _ _, d => Render.stmtForm d.form
  | .stmt _, s | .ifStmt _, s | .otherwise _, s | .init _, s | .post _, s => Render.stmt s
  | .endedStmts _, ss | .stmts _, ss => ss.flatMap Render.stmt
  | .block, b => Render.block b
  | .ifHeader _, r => Render.header r.1 ++ Render.expr r.2
  | .forHeader _, h => Render.forHeader h
  | .forStmt _, form => Render.stmtForm form
  | .values _, xs => xs.flatMap Render.expr
  | .spec _ _, form => Render.lone form
  | .specDecl _ _, d | .function, d | .importDecl, d => Render.lone d.form
  | .group _ _, ds | .topLevel _ _, ds | .decls _ _, ds => ds.flatMap (Render.lone ·.form)
  | .importPath, (path, _) => [.path path]
  | .importSpec, s => Render.importSpec s
  | .file, f => Render.file f

-- What a node is written as is put together from what its parts are.
attribute [local simp] Phrase.slots Render.expr Render.exprForm Render.exprList_eq written_bound
  Render.lastBound Render.asserted Render.optionalType Render.elementList_eq written_part
  written_element UnaryOp.kind_ne_eof BinaryOp.kind_ne_eof

attribute [local simp] Render.typeExpr Render.typeForm Render.arrayLength Render.param
  Render.paramList Render.paramNodes_eq Render.signature written_optionalResult Render.funcResult
  written_field Render.fieldList_eq Render.interfaceElement Render.interfaceElements_eq

attribute [local simp] Render.stmt Render.stmtForm Render.stmtList_eq Render.block written_header
  written_otherwise written_optionalStmt Render.forHeader AssignOp.kind_ne_eof StepOp.kind_ne_eof

attribute [local simp] Render.lone Render.topLevel Render.group Render.spec Render.keyword
  written_optionalParens written_values Render.optionalBlock written_importSpec

/-- For every tree that is derived there are tokens that fit its
rendering. -/
theorem Derives.written {p : Phrase} {ts : List Token} {a : p.Result} (h : Derives p ts a) :
    Written (p.slots a) := by
  induction h with
  | literal hv | tag hv => simpa using ⟨_, _, hv⟩
  | importPath hv => simpa using ⟨_, ⟨_, _, hv⟩, rfl⟩
  | composite _ _ hn _ _ _ ihx ihes => simp_all [written_namedType hn ihx]
  | rangeOnly _ _ _ ih => simpa using ih
  | defineRange _ _ _ _ _ _ ihl ih => exact written_range.mpr ⟨by simpa using ihl, ih⟩
  | assignRange _ _ _ _ _ ihl ih => exact written_range.mpr ⟨by simpa using ihl, ih⟩
  | simpleStmt _ ih | init _ _ ih | post _ _ ih | forRange _ ih => exact ih
  | declStmt _ ih => exact written_group (written_flatMap.mp ih)
  | file _ _ _ _ _ _ ihi ihd =>
    have himports := written_decls (written_flatMap.mp ihi)
    have hdecls := written_decls (written_flatMap.mp ihd)
    simpa [Render.file] using ⟨himports, hdecls⟩
  | _ => simp_all

end GoSource
