/-
Functions, imports and files read back.

At top level a semicolon stands behind every declaration and every group,
and a keyword in front of it that says which of them it is. What a
rendering puts into one group comes back from it together, so that the
declarations of a file come back as they were divided into groups.
-/
import GoSource.Proofs.Rendering.Body
import Mathlib.Data.List.SplitBy

namespace GoSource

open GoSource.Parser

variable {parse : SubParser} {h : Bool} {F : Token → Prop} {i : Nat} {sp sp' : Span}
  {ss us : List Slot}

-- ======================================================= what comes back

def FunctionRereads (parse : SubParser) (d : Decl) : Prop :=
  (parse .functionDecl).Rereads false (Render.topLevel [d]) (·.kind = .semi)
    fun d' => Bare.decl d' = Bare.decl d

def ImportRereads (parse : SubParser) (d : Decl) : Prop :=
  (parse .importDecl).Rereads false (Render.topLevel [d]) (·.kind = .semi)
    fun d' => Bare.decl d' = Bare.decl d

/-- What stands between two semicolons comes back by a parser of
declarations. -/
def TopRereads (p : Parser (List Decl)) (ds : List Decl) : Prop :=
  p.Rereads false (Render.topLevel ds) (·.kind = .semi)
    fun ds' => ds'.map Bare.decl = ds.map Bare.decl

namespace Parser.Rereads

/-- A token that denotes a path denotes some bytes whose text it is. -/
theorem ofPath {α : Type} {p : Parser α} {R : α → Prop} {text : String}
    (hp : ∀ bytes, Text.lossyText bytes = text →
      p.Rereads h (.literal (.string bytes) :: ss) F R) : p.Rereads h (.path text :: ss) F R := by
  rintro s c d hs ⟨⟨heof, bytes, hdecode, htext⟩, hss⟩ hd
  exact hp bytes htext s c d hs ⟨⟨heof, hdecode⟩, hss⟩ hd

theorem bind_expectSemi {β : Type} {f : Unit → Parser β} {P : β → Prop}
    (hf : (f ()).Rereads h ss F P) : (expectSemi >>= f).Rereads h (.kind .semi :: ss) F P := by
  have hsemi : expectSemi.Rereads h [.kind .semi] (fun _ => True) fun _ => True := by
    refine .ifNotAt (fun t ht => ht.1) (.map ?_)
    exact expect.imp (fun _ ht => ht) fun _ _ => trivial
  exact .bind hsemi (fun _ _ => trivial) fun _ _ => hf

end Parser.Rereads

namespace Grammar

-- ============================================================ functions

/-- A function from its name on, whatever it is made into. -/
theorem functionRest_rereads {n : Ident} {sig : Signature} {body : Option Block}
    {start : Location} {make : Ident → Signature → Option Block → DeclForm} {form : DeclForm}
    (hsig : SignatureRereads parse sig) (hbody : ∀ b ∈ body, BlockRereads parse b)
    (hmake : ∀ n' sig' body', Bare.ident n' = Bare.ident n →
      Bare.signature sig' = Bare.signature sig →
      Bare.optionalBlock body' = Bare.optionalBlock body →
      Bare.declForm (make n' sig' body') = Bare.declForm form) :
    (ident >>= fun n' => parse .signature >>= fun sig' => isAt .lBrace >>= fun b =>
      if b = true then some <$> parse .block >>= fun body' =>
        spanFrom start >>= newDecl (make n' sig' body')
      else pure none >>= fun body' => spanFrom start >>= newDecl (make n' sig' body')).Rereads false
      (.name n.name :: (Render.signature sig ++ Render.optionalBlock body)) (·.kind = .semi)
      fun d => Bare.decl d = Bare.decl ⟨i, sp, form⟩ := by
  refine .bind (G := fun _ => True) ident_rereads (fun _ _ => trivial) fun n' hn => ?_
  have hleads : ∀ t, Leads (Render.optionalBlock body) (·.kind = .semi) t →
      t.kind = .lBrace ∨ t.kind = .semi := by
    intro t ht
    cases body with
    | none => exact .inr ht
    | some b => exact .inl (leads_block ht)
  refine .bind hsig (fun t ht => ?_) fun sig' hsig' => ?_
  · obtain hk | hk := hleads t ht
    · exact .of_kind hk (by decide) rfl
    · exact .of_kind hk (by decide) rfl
  · cases body with
    | none =>
      refine .ifNotAt (fun t ht => ?_) (.bind_pure (.bind_spanFrom fun _ => .newDecl ?_))
      · rw [show t.kind = .semi from ht]
        decide
      · exact hmake _ _ _ hn hsig' rfl
    | some b =>
      refine .ifAt (fun t ht => leads_block ht) ?_
      refine .bind_map (hbody b rfl) (fun _ _ => trivial) fun b' hb' => .bind_spanFrom fun _ => ?_
      exact .newDecl (hmake _ _ _ hn hsig' (congrArg some hb'))

theorem functionDecl_func {doc : List String} {n : Ident} {sig : Signature}
    {body : Option Block} (hsig : SignatureRereads parse sig)
    (hbody : ∀ b ∈ body, BlockRereads parse b) :
    (functionDecl parse).Rereads false
      (Render.topLevel [⟨i, sp, .func ⟨doc, sp', n, sig, body⟩⟩]) (·.kind = .semi)
      fun d => Bare.decl d = Bare.decl ⟨i, sp, .func ⟨doc, sp', n, sig, body⟩⟩ := by
  refine .bind_here fun start => .bind_doc fun lines => .bind_expect fun funcSpan => ?_
  refine .ifNotAt (fun t ht => ?_) (.bind_pure (functionRest_rereads hsig hbody ?_))
  · rw [show t.kind = .ident from ht.2.1]
    decide
  · intro n' sig' body' hn hsig' hbody'
    rw [Bare.declForm, Bare.declForm, Bare.functionDecl, Bare.functionDecl, hn, hsig', hbody']

/-- Whether a list is a receiver does not depend on where it stands. -/
theorem isReceiver_of_bare {ps qs : ParamList} (hps : Bare.paramList qs = Bare.paramList ps)
    (hreceiver : isReceiver ps.params = true) : isReceiver qs.params = true := by
  obtain ⟨ps, sp⟩ := ps
  obtain ⟨qs, sp'⟩ := qs
  rw [Bare.paramList, Bare.paramList, Bare.paramNodes_eq, Bare.paramNodes_eq] at hps
  have hmap : qs.map Bare.param = ps.map Bare.param := congrArg ParamList.params hps
  rcases ps with _ | ⟨⟨i, sp, ns, ds, t⟩, _ | ⟨q, ps⟩⟩
  · exact absurd hreceiver Bool.false_ne_true
  · obtain ⟨⟨j, sq, ms, es, u⟩, rfl, hq⟩ := List.map_eq_singleton_iff.mp hmap
    rw [Bare.param, Bare.param] at hq
    have hform := congrArg Node.form hq
    injection hform with hnames hdots
    have hlength : ms.length = ns.length := by
      rw [← List.length_map Bare.ident, hnames, List.length_map]
    have hnone : es.isNone = ds.isNone := by
      cases es <;> cases ds <;> first | rfl | cases hdots
    simp only [isReceiver] at hreceiver ⊢
    rwa [hlength, hnone]
  · exact absurd hreceiver Bool.false_ne_true

theorem functionDecl_method {doc : List String} {recv : ParamList} {n : Ident} {sig : Signature}
    {body : Option Block} (hrecv : ParamsReread parse recv)
    (hreceiver : isReceiver recv.params = true) (hsig : SignatureRereads parse sig)
    (hbody : ∀ b ∈ body, BlockRereads parse b) :
    (functionDecl parse).Rereads false
      (Render.topLevel [⟨i, sp, .method ⟨doc, sp', recv, n, sig, body⟩⟩]) (·.kind = .semi)
      fun d => Bare.decl d = Bare.decl ⟨i, sp, .method ⟨doc, sp', recv, n, sig, body⟩⟩ := by
  have hread : (receiver parse).Rereads false (Render.paramList recv) (fun _ => True)
      fun qs => Bare.paramList qs = Bare.paramList recv := by
    refine .bind_last (hrecv false) fun qs hqs => ?_
    rw [if_pos (isReceiver_of_bare hqs hreceiver)]
    exact .pure hqs
  refine .bind_here fun start => .bind_doc fun lines => .bind_expect fun funcSpan => ?_
  refine .ifAt (fun t ht => ?_) (.bind_map hread (fun _ _ => trivial) fun recv' hrecv' =>
    functionRest_rereads hsig hbody ?_)
  · obtain ⟨ps, sp⟩ := recv
    exact ht.2
  · intro n' sig' body' hn hsig' hbody'
    rw [Bare.declForm, Bare.declForm, Bare.methodDecl, Bare.methodDecl, hrecv', hn, hsig', hbody']

-- ============================================================== imports

/-- What an import begins with besides its name. -/
theorem importPath_rereads {path : String} :
    importPath.Rereads h [.path path] F fun r => r.1 = path := by
  refine .ofPath fun bytes hbytes => ?_
  refine .bind_kind fun t ht => ?_
  obtain hk | hk := kind_of_decode ht.2
  all_goals
    rw [hk]
    refine .bind_last .literalValue fun r hr => ?_
    obtain ⟨value, span⟩ := r
    obtain rfl : value = .string bytes := hr
    exact .bind_recording (.pure hbytes)

theorem leads_path {path : String} {t : Token} (ht : Leads (.path path :: ss) F t) :
    t.kind = .stringLit ∨ t.kind = .rawStringLit := by
  obtain ⟨bytes, hdecode, -⟩ := ht.2
  exact kind_of_decode hdecode

theorem importName_none :
    importName.Rereads h [] (fun t => t.kind = .stringLit ∨ t.kind = .rawStringLit) (· = none) := by
  refine .bind_kind fun t ht => ?_
  obtain hk | hk := ht
  · rw [hk]
    exact .pure rfl
  · rw [hk]
    exact .pure rfl

theorem importName_dot :
    importName.Rereads h [.kind .dot] F fun o => o.map Bare.importName = some (.dot .nowhere) :=
  .bind_kind_at (.bind_advance fun _ _ => .pure rfl)

theorem importName_name {n : Ident} :
    importName.Rereads h [.name n.name] F
      fun o => o.map Bare.importName = some (.name (Bare.ident n)) := by
  refine .bind_kind_of (fun _ ht => ht.2.1) (.bind_last ident_rereads fun m hm => .pure ?_)
  rw [← hm]
  rfl

theorem importSpec_rereads {s : ImportSpec} :
    importSpec.Rereads h (Render.importSpec s) F
      fun s' => Bare.importSpec s' = Bare.importSpec s := by
  obtain ⟨name, path, sp⟩ := s
  have hrest : ∀ name' : Option ImportName, name'.map Bare.importName = name.map Bare.importName →
      (importPath >>= fun r => pure (ImportSpec.mk name' r.1 r.2)).Rereads h [.path path] F
        fun s' => Bare.importSpec s' = Bare.importSpec ⟨name, path, sp⟩ := by
    intro name' hname
    refine .bind_last importPath_rereads fun r hr => .pure ?_
    rw [Bare.importSpec, Bare.importSpec, hname, show r.1 = path from hr]
  cases name with
  | none =>
    exact .bind importName_none (fun _ ht => leads_path ht) fun _ ho => ho ▸ hrest none rfl
  | some name =>
    cases name with
    | dot sp => exact .bind importName_dot (fun _ _ => trivial) hrest
    | name n => exact .bind importName_name (fun _ _ => trivial) hrest

theorem leads_importSpec {s : ImportSpec} {t : Token} (ht : Leads (Render.importSpec s) F t) :
    t.kind ≠ .rParen := by
  obtain ⟨_ | _ | n, path, sp⟩ := s
  · exact kind_ne_of_or (leads_path ht) (by decide) (by decide)
  · exact leads_ne (k := .dot) (by decide) ht
  · rw [show t.kind = .ident from ht.2.1]
    decide

theorem importDecl_rereads {doc : List String} {specs : List ImportSpec} :
    importDecl.Rereads false (Render.topLevel [⟨i, sp, .imports ⟨doc, sp', specs⟩⟩]) F
      fun d => Bare.decl d = Bare.decl ⟨i, sp, .imports ⟨doc, sp', specs⟩⟩ := by
  refine .bind_here fun start => .bind_doc fun lines => .bind_expect fun importSpan => ?_
  refine .bind_eat fun _ => ?_
  refine .bind (items_rereads (fun _ _ => importSpec_rereads) (fun _ _ _ => leads_importSpec)
    fun _ ht => ht) (fun _ ht => ht.2) fun specs' hspecs => ?_
  refine .bind_expect fun _ => .bind_pure (.bind_recording (.bind_spanFrom fun _ => .newDecl ?_))
  rw [Bare.declForm, Bare.declForm, hspecs]

-- =========================================================== top level

/-- A declaration that is no spec stands alone. -/
def IsFunction (d : Decl) : Prop :=
  (∃ f, d.form = .func f) ∨ ∃ f, d.form = .method f

def IsImport (d : Decl) : Prop := ∃ s, d.form = .imports s

theorem leads_function {d : Decl} (hd : IsFunction d) {t : Token}
    (ht : Leads (Render.topLevel [d] ++ us) F t) : t.kind = .kwFunc := by
  obtain ⟨i, sp, form⟩ := d
  obtain ⟨f, rfl⟩ | ⟨f, rfl⟩ := hd
  · exact ht.2
  · exact ht.2

theorem leads_import {d : Decl} (hd : IsImport d) {t : Token}
    (ht : Leads (Render.topLevel [d] ++ us) F t) : t.kind = .kwImport := by
  obtain ⟨i, sp, form⟩ := d
  obtain ⟨s, rfl⟩ := hd
  exact ht.2

theorem topLevelDecl_function {d : Decl} (hfunction : IsFunction d)
    (hd : FunctionRereads parse d) : TopRereads (topLevelDecl parse) [d] := by
  have hleads : ∀ t, Leads (Render.topLevel [d]) (·.kind = .semi) t → t.kind = .kwFunc := by
    intro t ht
    rw [← List.append_nil (Render.topLevel _)] at ht
    exact leads_function hfunction ht
  refine .bind_kind_of hleads (.ifAt hleads (.bind_last hd fun d' hd' => .pure ?_))
  rw [List.map_singleton, List.map_singleton, hd']

/-- A group stands with its keyword. -/
structure IsGroup (k : GroupKind) (ds : List Decl) : Prop where
  render : Render.topLevel ds = Render.group ds
  keyword : Render.keyword ds = k.keyword

theorem topLevelDecl_group {k : GroupKind} {ds : List Decl} (hgroup : IsGroup k ds)
    (hds : GroupRereads parse k ds) : TopRereads (topLevelDecl parse) ds := by
  rw [TopRereads, hgroup.render, Render.group, hgroup.keyword]
  refine .bind_kind_at ?_
  have hk : GroupKind.ofKind k.keyword = some k := by cases k <;> rfl
  rw [hk]
  exact hds false _

theorem anyDecl_import {d : Decl} (himport : IsImport d) (hd : ImportRereads parse d) :
    TopRereads (anyDecl parse) [d] := by
  refine .ifAt (fun t ht => ?_) (.bind_last hd fun d' hd' => .pure ?_)
  · rw [← List.append_nil (Render.topLevel _)] at ht
    exact leads_import himport ht
  · rw [List.map_singleton, List.map_singleton, hd']

/-- Other declarations are read as where there are no imports. -/
theorem anyDecl_other {ds : List Decl} (hds : TopRereads (topLevelDecl parse) ds)
    (hother : ∀ F t, Leads (Render.topLevel ds) F t → t.kind ≠ .kwImport) :
    TopRereads (anyDecl parse) ds :=
  .ifNotAt (fun t ht => hother _ t ht) hds

/-- Nothing that stands between two semicolons is the end of the input. -/
theorem leads_ended {t : Token} (ht : Leads (ss ++ [.kind .semi]) F t) : t.kind ≠ .eof := by
  cases ss with
  | nil => exact ht.1
  | cons slot ss => exact ht.1

theorem declsWith_rereads {p : Parser (List Decl)} {gs : List (List Decl)}
    (hgs : ∀ ds ∈ gs, TopRereads p ds) :
    (declsWith p).Rereads false (Render.ended .semi (gs.map Render.topLevel)) (·.kind = .eof)
      fun ds => ds.map Bare.decl = gs.flatten.map Bare.decl := by
  refine .bind_last (R := fun acc => acc.reverse.map Bare.decl = gs.flatten.map Bare.decl) ?_
    fun acc hacc => .bind_recording (.pure hacc)
  refine .repeating_of (r := fun zs => Render.ended .semi (zs.map Render.topLevel))
    (J := fun zs acc => ∃ ws, gs = ws ++ zs ∧
      acc.reverse.map Bare.decl = ws.flatten.map Bare.decl)
    (fun zs acc hacc => ?_) ⟨[], rfl, rfl⟩
  obtain ⟨ws, rfl, hacc⟩ := hacc
  cases zs with
  | nil =>
    rw [List.append_nil]
    exact .inl (.ifAt (fun _ ht => ht) (.pure ⟨acc, rfl, hacc⟩))
  | cons z zs =>
    have hz := hgs z (List.mem_append_right _ List.mem_cons_self)
    refine .inr ⟨zs, Render.topLevel z ++ [.kind .semi], fun _ => True, rfl, by simp,
      fun _ _ => trivial, .ifNotAt (fun t ht => ?_) ?_⟩
    · exact leads_ended ht
    · refine .bind hz (fun _ ht => ht.2) fun more hmore => ?_
      refine .bind_expectSemi (.pure ⟨_, rfl, ws ++ [z], by simp, ?_⟩)
      rw [List.reverse_append, List.reverse_reverse, List.map_append, hacc, hmore,
        List.flatten_concat, List.map_append]

theorem imports_rereads {ds : List Decl}
    (hds : ∀ d ∈ ds, IsImport d ∧ ImportRereads parse d) (hF : ∀ t, F t → t.kind ≠ .kwImport) :
    (imports parse).Rereads false (Render.ended .semi (ds.map fun d => Render.topLevel [d])) F
      fun ds' => ds'.map Bare.decl = ds.map Bare.decl := by
  refine .bind_last (R := fun acc => acc.reverse.map Bare.decl = ds.map Bare.decl) ?_
    fun acc hacc => .bind_recording (.pure hacc)
  refine .repeating_of (r := fun zs => Render.ended .semi (zs.map fun d => Render.topLevel [d]))
    (J := fun zs acc => ∃ ws, ds = ws ++ zs ∧ acc.reverse.map Bare.decl = ws.map Bare.decl)
    (fun zs acc hacc => ?_) ⟨[], rfl, rfl⟩
  obtain ⟨ws, rfl, hacc⟩ := hacc
  cases zs with
  | nil =>
    rw [List.append_nil]
    exact .inl (.ifNotAt hF (.pure ⟨acc, rfl, hacc⟩))
  | cons z zs =>
    obtain ⟨himport, hz⟩ := hds z (List.mem_append_right _ List.mem_cons_self)
    refine .inr ⟨zs, Render.topLevel [z] ++ [.kind .semi], fun _ => True, rfl, by simp,
      fun _ _ => trivial, .ifAt (fun t ht => leads_import himport ht) ?_⟩
    refine .bind hz (fun _ ht => ht.2) fun d' hd' => ?_
    refine .bind_expectSemi (.pure ⟨_, rfl, ws ++ [z], by simp, ?_⟩)
    exact map_reverse_cons hacc hd'

-- ================================================================ files

/-- What does not continue a group begins one. -/
theorem groups_append {ds es : List Decl}
    (hes : ∀ e ∈ es.head?, Render.continuesGroup e = false) :
    Render.groups (ds ++ es) = Render.groups ds ++ Render.groups es :=
  List.splitBy_append fun _ _ e he => hes e he

/-- Declarations of which none continues a group are groups of their
own. -/
theorem groups_alone {ds : List Decl} (hds : ∀ d ∈ ds, Render.continuesGroup d = false) :
    Render.groups ds = ds.map ([·]) := by
  induction ds with
  | nil => rfl
  | cons d ds ih =>
    have hrest : ∀ e ∈ ds, Render.continuesGroup e = false :=
      fun e he => hds e (List.mem_cons_of_mem _ he)
    rw [← List.singleton_append, groups_append fun e he => hrest e (List.mem_of_mem_head? he),
      ih hrest]
    rfl

/-- Declarations of which all but the first continue a group are one. -/
theorem groups_together {d : Decl} {ds : List Decl}
    (hds : ∀ e ∈ ds, Render.continuesGroup e = true) : Render.groups (d :: ds) = [d :: ds] := by
  refine List.splitBy_of_isChain (List.cons_ne_nil _ _) (List.isChain_iff_getElem.mpr ?_)
  exact fun i hi => hds _ (List.getElem_mem (Nat.lt_of_succ_lt_succ hi))

theorem continuesGroup_import {d : Decl} (hd : IsImport d) : Render.continuesGroup d = false := by
  obtain ⟨s, hs⟩ := hd
  rw [Render.continuesGroup, hs]

theorem continuesGroup_function {d : Decl} (hd : IsFunction d) :
    Render.continuesGroup d = false := by
  obtain ⟨f, hf⟩ | ⟨f, hf⟩ := hd <;> rw [Render.continuesGroup, hf]

/-- What follows the imports is none. -/
theorem file_rereads {f : File} (himports : ∀ d ∈ f.imports, IsImport d ∧ ImportRereads parse d)
    (hdecls : ∀ ds ∈ Render.groups f.decls, TopRereads (topLevelDecl parse) ds)
    (hothers : ∀ ds ∈ Render.groups f.decls, ∀ us F t,
      Leads (Render.topLevel ds ++ us) F t → t.kind ≠ .kwImport) :
    (file parse).Rereads false (Render.file f) (·.kind = .eof)
      fun f' => Bare.file f' = Bare.file f := by
  obtain ⟨sp, n, is, ds, sp'⟩ := f
  have hgroups : Render.decls is = Render.ended .semi (is.map fun d => Render.topLevel [d]) := by
    have hlone := groups_alone fun d hd => continuesGroup_import (himports d hd).1
    rw [Render.decls, hlone, List.map_map]
    rfl
  have hleads : ∀ t, Leads (Render.decls ds) (·.kind = .eof) t → t.kind ≠ .kwImport := by
    intro t ht
    rw [Render.decls] at ht
    cases hds : Render.groups ds with
    | nil =>
      rw [hds] at ht
      rw [show t.kind = .eof from ht]
      decide
    | cons g gs =>
      rw [hds, List.map_cons, Render.ended, List.flatMap_cons, List.append_assoc] at ht
      exact hothers g (by rw [hds]; exact List.mem_cons_self) _ _ t ht
  have hflatten : (Render.groups ds).flatten = ds := List.flatten_splitBy _ _
  have hrest := declsWith_rereads hdecls
  rw [hflatten] at hrest
  refine .bind_here fun start => .bind_expect fun packageSpan => ?_
  refine .bind (G := fun _ => True) ident_rereads (fun _ _ => trivial) fun n' hn => ?_
  refine .bind_expectSemi ?_
  rw [hgroups]
  refine .bind (imports_rereads himports fun _ ht => ht) hleads fun is' his => ?_
  refine .bind_last hrest fun ds' hds' => .bind_spanFrom fun _ => .pure ?_
  rw [Bare.file, Bare.file, hn, his, hds']

end Grammar

-- ================================================================ items

/-- What stands between two semicolons at top level is one of three things,
and comes back as such. -/
inductive TopItem : (imports others : Bool) → List Decl → Prop where
  | imports {others : Bool} {d : Decl} (hd : Grammar.IsImport d)
      (h : Always (ImportRereads · d)) : TopItem true others [d]
  | function {imports : Bool} {d : Decl} (hd : Grammar.IsFunction d)
      (h : Always (FunctionRereads · d)) : TopItem imports true [d]
  | group {imports : Bool} {k : GroupKind} {ds : List Decl} (hds : Grammar.IsGroup k ds)
      (h : Always (GroupRereads · k ds)) : TopItem imports true ds

namespace TopItem

variable {ds : List Decl}

theorem topLevelDecl (h : TopItem false true ds) :
    Always fun parse => TopRereads (Grammar.topLevelDecl parse) ds := by
  cases h with
  | function hd h => exact h.imp fun _ => Grammar.topLevelDecl_function hd
  | group hds h => exact h.imp fun _ => Grammar.topLevelDecl_group hds

theorem begins (h : TopItem false true ds) {us : List Slot} {t : Token}
    (ht : Leads (Render.topLevel ds ++ us) F t) : t.kind ≠ .kwImport := by
  cases h with
  | function hd =>
    rw [Grammar.leads_function hd ht]
    decide
  | @group _ k _ hds =>
    rw [hds.render, Render.group, hds.keyword] at ht
    rw [show t.kind = k.keyword from ht.2]
    cases k <;> decide

theorem anyDecl {imports others : Bool} (h : TopItem imports others ds) :
    Always fun parse => TopRereads (Grammar.anyDecl parse) ds := by
  have hother : ∀ {ds}, TopItem false true ds →
      Always fun parse => TopRereads (Grammar.anyDecl parse) ds := by
    refine fun h => h.topLevelDecl.imp fun _ hds => Grammar.anyDecl_other hds fun F t ht => ?_
    rw [← List.append_nil (Render.topLevel _)] at ht
    exact h.begins ht
  cases h with
  | imports hd h => exact h.imp fun _ => Grammar.anyDecl_import hd
  | function hd h => exact hother (.function hd h)
  | group hds h => exact hother (.group hds h)

end TopItem

namespace Always

theorem importDecl {d : Decl} (hd : Grammar.IsImport d) : Always (ImportRereads · d) := by
  obtain ⟨i, sp, form⟩ := d
  obtain ⟨⟨doc, sp', specs⟩, rfl⟩ := hd
  have hread : Always fun _ => Grammar.importDecl.Rereads false
      (Render.topLevel [⟨i, sp, .imports ⟨doc, sp', specs⟩⟩]) (·.kind = .semi)
      fun d => Bare.decl d = Bare.decl ⟨i, sp, .imports ⟨doc, sp', specs⟩⟩ :=
    .of_forall fun _ => Grammar.importDecl_rereads
  exact hread.deeper fun _ hread => .production hread

theorem func {doc : List String} {n : Ident} {sig : Signature} {body : Option Block}
    (hsig : Always (SignatureRereads · sig)) (hbody : ∀ b ∈ body, Always (BlockRereads · b)) :
    Always (FunctionRereads · ⟨i, sp, .func ⟨doc, sp', n, sig, body⟩⟩) :=
  (hsig.and (option hbody)).deeper fun _ ⟨hsig, hbody⟩ =>
    .production (Grammar.functionDecl_func hsig hbody)

theorem method {doc : List String} {recv : ParamList} {n : Ident} {sig : Signature}
    {body : Option Block} (hrecv : Always (ParamsReread · recv))
    (hreceiver : Grammar.isReceiver recv.params = true) (hsig : Always (SignatureRereads · sig))
    (hbody : ∀ b ∈ body, Always (BlockRereads · b)) :
    Always (FunctionRereads · ⟨i, sp, .method ⟨doc, sp', recv, n, sig, body⟩⟩) :=
  (hrecv.and (hsig.and (option hbody))).deeper fun _ ⟨hrecv, hsig, hbody⟩ =>
    .production (Grammar.functionDecl_method hrecv hreceiver hsig hbody)

theorem declarations {ds : List Decl} {imports others : Bool}
    (hds : ∀ g ∈ Render.groups ds, TopItem imports others g) : Always fun parse =>
      (Grammar.declarations parse).Rereads false (Render.decls ds) (·.kind = .eof)
        fun ds' => ds'.map Bare.decl = ds.map Bare.decl := by
  refine (all fun g hg => (hds g hg).anyDecl).imp fun _ hgs => ?_
  have hread := Grammar.declsWith_rereads hgs
  have hflatten : (Render.groups ds).flatten = ds := List.flatten_splitBy _ _
  rwa [hflatten] at hread

theorem file {f : File} (himports : ∀ g ∈ Render.groups f.imports, TopItem true false g)
    (hdecls : ∀ g ∈ Render.groups f.decls, TopItem false true g) : Always fun parse =>
      (parse .file).Rereads false (Render.file f) (·.kind = .eof)
        fun f' => Bare.file f' = Bare.file f := by
  have heach : ∀ d ∈ f.imports, Grammar.IsImport d := by
    intro d hd
    rw [← List.flatten_splitBy (fun _ d => Render.continuesGroup d) f.imports] at hd
    obtain ⟨g, hg, hd⟩ := List.mem_flatten.mp hd
    cases himports g hg with
    | imports himport =>
      obtain rfl := List.mem_singleton.mp hd
      exact himport
  have hread := (all (fun d hd => importDecl (heach d hd))).and
    (all fun g hg => (hdecls g hg).topLevelDecl)
  exact hread.deeper fun _ ⟨his, hds⟩ => .production (Grammar.file_rereads
    (fun d hd => ⟨heach d hd, his d hd⟩) hds fun g hg _ _ _ ht => (hdecls g hg).begins ht)

end Always

end GoSource
