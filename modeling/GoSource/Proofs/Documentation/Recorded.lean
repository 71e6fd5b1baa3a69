/-
What is recorded with a declaration.

While a parse runs, comments gather in front of the token that it looks at:
those delivered with this token, and behind them others that nobody has
asked for (`Token.Stream.Awaits`). A declaration asks for them where it
starts, before it takes anything, and what it is given is its documentation
(`Token.Stream.Documents`). Then they are spent; but a token is always taken
before the next declaration asks, and with the token behind it come new
comments (`Parser.Renews`). So no declaration finds them spent.

All declarations lie in the arena, those within bodies too, and this is
where the statement is kept through a run (`Parsing.Fresh`).
-/
import GoSource.Proofs.Derivation.Parse
import GoSource.Proofs.Lexing.Partition
import GoSource.Proofs.Running.Outcome
import GoSource.Proofs.Running.Woven

namespace GoSource

open GoSource.Parser

variable {α β σ : Type}

-- ================================================================ streams

/-- The tokens with which a declaration is written: a keyword and what
follows it, or a spec without a keyword. -/
inductive Decl.Written : List Token → Decl → Prop where
  | imports : Derives .importDecl ts d → Written ts d
  | function : Derives .function ts d → Written ts d
  | lone : w.kind = k.keyword → Derives (.spec k m) ts form →
      Written (w :: ts) ⟨i, extent (w :: ts), form⟩
  | listed : Derives (.specDecl k m) ts d → Written ts d

namespace Token.Stream

variable (stream : Token.Stream)

/-- Where the token before a call has ended. -/
def endBefore : Nat → Location
  | 0 => .nowhere
  | k + 1 => (stream.call k).token.span.stop

/-- Comments that wait, the last one first: all those delivered by a call,
and behind them some that were delivered before. -/
def Awaits (k : Nat) (cs : List Comment) : Prop :=
  ∃ rest, cs = (stream.call k).comments.reverse ++ rest ∧
    ∀ c ∈ rest, ∃ j < k, c ∈ (stream.call j).comments

/-- The declaration is written at a call, and documented by the comments
found there. -/
def Documents (d : Decl) : Prop :=
  ∃ (k : Nat) (ts : List Token) (cs : List Comment), Decl.Written ts d ∧ ts ≠ [] ∧
    ts <+: stream.tokens.drop k ∧ stream.Awaits k cs ∧
    d.form.doc = (documenting (stream.call k).token.span.start (stream.endBefore k)
      ((stream.call k).token.span.start.line - 1) cs).reverse.flatMap (·.lines)

variable {stream} {k : Nat}

theorem getElem_lexemes (h : k < stream.lexemes.length) : stream.lexemes[k] = stream.call k := by
  have hcalls : (stream.calls stream.lexemes.length)[k]? = some stream.lexemes[k] := by
    rw [calls_lexemes, List.getElem?_eq_getElem h]
  rw [calls, List.getElem?_map, List.getElem?_range h] at hcalls
  exact (Option.some.inj hcalls).symm

theorem drop_tokens (h : k < stream.lexemes.length) :
    stream.tokens.drop k = (stream.call k).token :: stream.tokens.drop (k + 1) := by
  have hlength : k < stream.tokens.length := by rwa [tokens, List.length_map]
  rw [List.drop_eq_getElem_cons hlength]
  simp only [tokens, List.getElem_map, getElem_lexemes h]

/-- A call that returns another token than the end is one of those for the
tokens. -/
theorem lt_of_call_ne_eof (h : (stream.call k).token.kind ≠ .eof) : k < stream.lexemes.length := by
  by_contra hk
  rw [call_atEnd (Nat.le_of_not_lt hk)] at h
  exact h rfl

theorem call_kind_eof (hproper : stream.Proper) (h : (stream.call k).token.kind = .eof) :
    stream.lexemes.length ≤ k := by
  by_contra hk
  exact hproper _ (List.mem_map_of_mem (call_mem (Nat.lt_of_not_le hk))) h

end Token.Stream

-- ================================================================= states

variable {stream : Token.Stream} {c : Cursor} {s s' : Parsing} {k : Nat}

namespace Cursor

/-- The place is where a call returned its token. -/
structure At (stream : Token.Stream) (k : Nat) (c : Cursor) : Prop where
  current : c.current = (stream.call k).token
  ahead : ∀ j, c.ahead.call j = stream.call (k + 1 + j)
  previousEnd : c.previousEnd = stream.endBefore k

theorem At.next (h : c.At stream k) : c.next.At stream (k + 1) := by
  have hcall : c.ahead.next.1 = stream.call (k + 1) := h.ahead 0
  refine ⟨congrArg (·.token) hcall, fun j => ?_, congrArg (·.span.stop) h.current⟩
  have hj := h.ahead (j + 1)
  rwa [show k + 1 + (j + 1) = k + 1 + 1 + j by omega] at hj

theorem At.drop_tokens {ts : List Token} {d : Cursor} (h : c.At stream k) (hts : c.Takes ts d) :
    ts <+: stream.tokens.drop k := by
  induction ts generalizing c k with
  | nil => exact List.nil_prefix
  | cons t ts ih =>
    obtain ⟨rfl, hk, hrest⟩ := hts
    rw [h.current] at hk
    rw [Token.Stream.drop_tokens (Token.Stream.lt_of_call_ne_eof hk), h.current]
    exact List.cons_prefix_cons.mpr ⟨rfl, ih h.next hrest⟩

end Cursor

namespace Parsing

/-- The state is at some call, in front of which no comments wait but those
delivered so far, and all declarations are documented. -/
structure Recorded (stream : Token.Stream) (s : Parsing) : Prop where
  reached : ∃ k, s.cursor.At stream k ∧ ∀ c ∈ s.comments, ∃ j < k + 1, c ∈ (stream.call j).comments
  fueled : s.Fueled
  decls : ∀ d, .decl d ∈ s.arena.entries .decl → stream.Documents d

/-- And the comments delivered last all wait. -/
structure Fresh (stream : Token.Stream) (s : Parsing) : Prop where
  reached : ∃ k, s.cursor.At stream k ∧ stream.Awaits k s.comments
  fueled : s.Fueled
  decls : ∀ d, .decl d ∈ s.arena.entries .decl → stream.Documents d

theorem Fresh.recorded (h : s.Fresh stream) : s.Recorded stream := by
  obtain ⟨k, hk, rest, hcomments, hrest⟩ := h.reached
  refine ⟨⟨k, hk, fun c hc => ?_⟩, h.fueled, h.decls⟩
  rw [hcomments, List.mem_append, List.mem_reverse] at hc
  rcases hc with hc | hc
  · exact ⟨k, Nat.lt_succ_self k, hc⟩
  · obtain ⟨j, hj, hc⟩ := hrest c hc
    exact ⟨j, Nat.lt_succ_of_lt hj, hc⟩

theorem Fresh.spent (h : s.Fresh stream) : Recorded stream { s with comments := [] } := by
  obtain ⟨k, hk, -⟩ := h.reached
  exact ⟨⟨k, hk, nofun⟩, h.fueled, h.decls⟩

theorem Recorded.ready (h : s.Recorded stream) : s.Ready ⟨s.inHeader, s.guardAllowed⟩ :=
  ⟨rfl, id, h.fueled⟩

theorem Recorded.addDocLines (h : s.Recorded stream) (lines : List String) :
    Recorded stream { s with arena := s.arena.addDocLines lines } :=
  ⟨h.reached, h.fueled, h.decls⟩

/-- With a token its comments come. -/
theorem Recorded.next (hproper : stream.Proper) (h : s.Recorded stream) :
    s.next.Fresh stream := by
  obtain ⟨k, hk, hcomments⟩ := h.reached
  refine ⟨⟨k + 1, hk.next, s.comments, ?_, hcomments⟩, ?_, h.decls⟩
  · exact congrArg (·.comments.reverse ++ s.comments) (hk.ahead 0)
  · by_cases heof : s.current.kind = .eof
    · have hcurrent : s.current = (stream.call k).token := hk.current
      rw [hcurrent] at heof
      have hlength := Token.Stream.call_kind_eof hproper heof
      have hend : s.next.cursor.current = .atEnd stream.stop := by
        rw [cursor_next, hk.next.current, Token.Stream.call_atEnd (by omega)]
      have hleft : s.next.cursor.left = 0 := by
        rw [Cursor.left, hend]
        rfl
      have hfuel : s.cursor.left < s.turns := h.fueled
      show s.next.cursor.left < s.turns
      omega
    · exact h.fueled.passes (.next heof)

end Parsing

-- ================================================================== rules

namespace Parser

/-- In front of comments that wait, the parser leaves comments that wait. -/
def Keeps (stream : Token.Stream) (p : Parser α) : Prop :=
  ∀ s x s', s.Fresh stream → p s = .ok x s' → s'.Fresh stream

/-- The same where they have been spent. -/
def Renews (stream : Token.Stream) (p : Parser α) : Prop :=
  ∀ s x s', s.Recorded stream → p s = .ok x s' → s'.Fresh stream

/-- The parser adds a declaration with some documentation, and nothing else
that would have to be documented. -/
def Completes (stream : Token.Stream) (lines : List String) (p : Parser Decl) : Prop :=
  ∀ s d s', s.Fresh stream → p s = .ok d s' →
    d.form.doc = lines ∧ (stream.Documents d → s'.Fresh stream)

/-- The same where the comments have been spent. -/
def Begins (stream : Token.Stream) (lines : List String) (p : Parser Decl) : Prop :=
  ∀ s d s', s.Recorded stream → p s = .ok d s' →
    d.form.doc = lines ∧ (stream.Documents d → s'.Fresh stream)

namespace Keeps

variable {p q : Parser α} {u : α → Parser β}

/-- A parser that never succeeds. -/
theorem of_fails (h : ∀ s x s', p s ≠ .ok x s') : p.Keeps stream :=
  fun s x s' _ hx => absurd hx (h s x s')

/-- A parser that leaves alone what matters. -/
theorem of_still {f : Parsing → α} {g : Parsing → Parsing}
    (h : ∀ s, s.Fresh stream → (g s).Fresh stream) : Keeps stream fun s => .ok (f s) (g s) := by
  intro s x s' hs hx
  cases hx
  exact h s hs

theorem pure (x : α) : (Pure.pure x : Parser α).Keeps stream := of_still (g := id) fun _ h => h

theorem allowGuard (allowed : Bool) : (Parser.allowGuard allowed).Keeps stream :=
  of_still (g := fun s => { s with guardAllowed := allowed }) fun _ h =>
    ⟨h.reached, h.fueled, h.decls⟩

theorem bind (hp : p.Keeps stream) (hu : ∀ x, (u x).Keeps stream) : (p >>= u).Keeps stream := by
  intro s y s' hs hy
  obtain ⟨x, s₁, hx, hy⟩ := bind_eq_ok.mp hy
  exact hu x s₁ y s' (hp s x s₁ hs hx) hy

/-- A choice by something that has been looked at. -/
theorem map {g : α → β} (hp : p.Keeps stream) : (g <$> p).Keeps stream := by
  rw [map_eq_pure_bind]
  exact bind hp fun _ => pure _

theorem choice {c : Parser Bool} (hc : c.Keeps stream) (hp : p.Keeps stream)
    (hq : q.Keeps stream) : (c >>= fun b => if b = true then p else q).Keeps stream := by
  refine bind hc fun b => ?_
  split
  · exact hp
  · exact hq

/-- A parser that sets something else for another, and puts it back. -/
theorem restored (enter : Parsing → Parsing) (leave : Parsing → Parsing → Parsing)
    (hp : p.Keeps stream) (henter : ∀ s, s.Fresh stream → (enter s).Fresh stream)
    (hleave : ∀ s s', s'.Fresh stream → (leave s s').Fresh stream) :
    Keeps stream fun s => restore (leave s) (p (enter s)) := by
  intro s y s' hs hy
  dsimp only at hy
  cases hx : p (enter s) with
  | error e s₁ =>
    rw [hx] at hy
    exact nomatch hy
  | ok x s₁ =>
    rw [hx] at hy
    cases hy
    exact hleave s s₁ (hp _ _ _ (henter s hs) hx)

theorem during {name : String} (hp : p.Keeps stream) : (Parser.during name p).Keeps stream :=
  restored (fun s => { s with trace := name :: s.trace }) (fun s s' => { s' with trace := s.trace })
    hp (fun _ h => ⟨h.reached, h.fueled, h.decls⟩) fun _ _ h => ⟨h.reached, h.fueled, h.decls⟩

theorem unrestricted (hp : p.Keeps stream) : (Parser.unrestricted p).Keeps stream :=
  restored (fun s => { s with inHeader := false, guardAllowed := false })
    (fun s s' => { s' with inHeader := s.inHeader, guardAllowed := s.guardAllowed })
    hp (fun _ h => ⟨h.reached, h.fueled, h.decls⟩) fun _ _ h => ⟨h.reached, h.fueled, h.decls⟩

theorem asHeader (hp : p.Keeps stream) : (Parser.asHeader p).Keeps stream :=
  restored (fun s => { s with inHeader := true }) (fun s s' => { s' with inHeader := s.inHeader })
    hp (fun _ h => ⟨h.reached, h.fueled, h.decls⟩) fun _ _ h => ⟨h.reached, h.fueled, h.decls⟩

theorem repeating {turn : σ → Parser (Turn σ)} (hturn : ∀ x, (turn x).Keeps stream) (x : σ) :
    (Parser.repeating turn x).Keeps stream := by
  suffices h : ∀ n x, (takeTurns turn n x).Keeps stream from fun s => h s.turns x s
  intro n
  induction n with
  | zero => exact fun x => pure x
  | succ n ih =>
    intro x
    refine bind (hturn x) fun next => ?_
    cases next with
    | again x' => exact ih x'
    | stop x' => exact pure x'

end Keeps

variable {lines : List String}

theorem Renews.bind {p : Parser α} {u : α → Parser β} (hp : p.Renews stream)
    (hu : ∀ x, (u x).Keeps stream) : (p >>= u).Renews stream := by
  intro s y s' hs hy
  obtain ⟨x, s₁, hx, hy⟩ := bind_eq_ok.mp hy
  exact hu x s₁ y s' (hp s x s₁ hs hx) hy

theorem Renews.map {p : Parser α} {f : α → β} (hp : p.Renews stream) : (f <$> p).Renews stream := by
  rw [map_eq_pure_bind]
  exact bind hp fun _ => .pure _

theorem Renews.advance (hproper : stream.Proper) : Parser.advance.Renews stream := by
  intro s x s' hs hx
  cases hx
  exact hs.next hproper

/-- A token that is needed. -/
theorem Renews.need {t : Token.Kind} {p q : Parser α} (hp : p.Renews stream)
    (hq : ∀ s x s', q s ≠ .ok x s') :
    Renews stream (isAt t >>= fun b => if b = true then p else q) := by
  intro s x s' hs hx
  obtain ⟨b, s₁, hb, hx⟩ := bind_eq_ok.mp hx
  cases hb
  split at hx
  · exact hp s x s' hs hx
  · exact absurd hx (hq s x s')

theorem Renews.expect (hproper : stream.Proper) (t : Token.Kind) :
    (Parser.expect t).Renews stream :=
  .need (.bind (.advance hproper) fun _ => .pure _) fun _ _ _ => unexpected_ne_ok

theorem Completes.bind {p : Parser α} {u : α → Parser Decl} (hp : p.Keeps stream)
    (hu : ∀ x, (u x).Completes stream lines) : (p >>= u).Completes stream lines := by
  intro s y s' hs hy
  obtain ⟨x, s₁, hx, hy⟩ := bind_eq_ok.mp hy
  exact hu x s₁ y s' (hp s x s₁ hs hx) hy

theorem Begins.bind {p : Parser α} {u : α → Parser Decl} (hp : p.Renews stream)
    (hu : ∀ x, (u x).Completes stream lines) : (p >>= u).Begins stream lines := by
  intro s y s' hs hy
  obtain ⟨x, s₁, hx, hy⟩ := bind_eq_ok.mp hy
  exact hu x s₁ y s' (hp s x s₁ hs hx) hy

theorem Completes.newDecl {form : DeclForm} {sp : Span} (hform : form.doc = lines) :
    (Parser.newDecl form sp).Completes stream lines := by
  intro s d s' hs hd
  cases hd
  refine ⟨hform, fun hdoc => ⟨hs.reached, hs.fueled, fun d hd => ?_⟩⟩
  have hentries := (@Arena.addDecl_adds s.arena sp form).entries .decl
  rw [if_pos rfl] at hentries
  rcases List.mem_append.mp (hentries ▸ hd) with hd | hd
  · exact hs.decls d hd
  · cases List.mem_singleton.mp hd
    exact hdoc

end Parser

-- ================================================================== woven

theorem Composed.keeps {parse : SubParser} {p : Parser α} (hproper : stream.Proper)
    (hparse : ∀ {α : Type} (p : Production α), p.documents = false → (parse p).Keeps stream)
    (hp : Composed parse p) : p.Keeps stream := by
  induction hp with
  | look _ => exact .of_still (g := id) fun _ h => h
  | advance => exact fun s x s' hs => Renews.advance hproper s x s' hs.recorded
  | disallowGuard => exact .allowGuard false
  | pure x => exact .pure x
  | throw e => exact .of_fails fun _ _ _ h => nomatch h
  | unexpectedAt sp wanted got => exact .of_fails fun _ _ _ => unexpectedAt_ne_ok
  | @building α add _ hdecls =>
    exact .of_still (g := fun s => { s with arena := (add s.arena).2 }) fun s h =>
      ⟨h.reached, h.fueled, fun d hd => h.decls d (hdecls s.arena ▸ hd)⟩
  | bind _ _ ihp ihu => exact .bind ihp ihu
  | unrestricted _ ih => exact .unrestricted ih
  | repeating loop _ x ih => exact .repeating ih x
  | production p hp =>
    refine hparse p ?_
    cases p <;> first | rfl | exact nomatch hp

theorem Woven.keeps {parse : SubParser} {p : Parser α} (hproper : stream.Proper)
    (hparse : ∀ {α : Type} (p : Production α), (parse p).Keeps stream) (hp : Woven parse p) :
    p.Keeps stream := by
  induction hp with
  | composed hp => exact hp.keeps hproper fun p _ => hparse p
  | bind _ _ ihp ihu => exact .bind ihp ihu
  | unrestricted _ ih => exact .unrestricted ih
  | asHeader _ ih => exact .asHeader ih
  | repeating loop _ x ih => exact .repeating ih x
  | production p _ => exact hparse p

end GoSource
