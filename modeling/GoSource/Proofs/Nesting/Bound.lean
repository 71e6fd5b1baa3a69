/-
The limit on nesting bounds the nesting, and not the height, of a tree.

A tree that is returned nests as deep as the limit allows, five levels for
each production that may be active (`parseSource_nests`). Its height is
another matter. What is attached to an operand, and the operators of one
precedence, are read by repetitions, and each turn puts the tree so far
below a new node; so `a.a.a` and so on grows as high as one likes while
four productions are active (`parseSource_pointed`), and there is no limit under
which all trees are low (`height_not_bounded`).
-/
import GoSource.Proofs.Contents.Placement
import GoSource.Proofs.Nesting.Grammar
import GoSource.Proofs.Rendering.Expression
import GoSource.Proofs.Running.Parse

namespace GoSource

open GoSource.Parser

-- ============================================================== nesting

/-- All trees of a root nest no deeper than that. -/
def Root.Nests (root : Root) (n : Nat) : Prop := ∀ v ∈ root.visits, v.Nests n

theorem entry_nests {parse : SubParser} {n : Nat} (hp : parse.Nests n) (entry : Entry) :
    (entry.parser parse).Yields (Root.Nests · n) := by
  cases entry with
  | expression =>
    refine .map (.bind hp.expression fun x hx => .bind_any fun _ => .bind_any fun _ => .pure ?_)
    exact List.forall_mem_singleton.mpr hx
  | declarations =>
    refine .map ((Grammar.declarations_nests hp).imp fun ds hds => ?_)
    exact List.forall_mem_map.mpr hds
  | file => exact .map ((hp .file).imp fun f hf => List.forall_mem_singleton.mpr hf)
  | statements =>
    refine .map (.bind (Grammar.stmtList_nests hp) fun ss hss => .bind_any fun _ => .pure ?_)
    exact List.forall_mem_map.mpr hss
  | typeSwitchGuard =>
    exact .map ((hp .typeSwitchGuard).imp fun s hs => List.forall_mem_singleton.mpr hs)

/-- On a way down a tree that is returned, at most five times as many steps
as productions may be active lead into something. Steps from an expression
to the operand that it continues are not counted: from a binary expression
to its left operand, and from a selector, an index, a slice, a call or a
type assertion to what it is attached to. -/
theorem parseSource_nests {source : String} {entry : Entry} {maxDepth : Nat} {arena : Arena}
    {root : Root} (h : (parseSource source entry maxDepth arena).1 = .ok root) {v w : Visit}
    {n : Nat} (hv : v ∈ root.visits) (hchain : v.Chain n w) : n + 1 ≤ 5 * (maxDepth + 1) := by
  obtain ⟨s, hs⟩ := parseStream_ok h
  have hnests : root.Nests (5 * maxDepth) := entry_nests (parse_nests maxDepth) entry _ _ _ hs
  have hle : n ≤ 5 * maxDepth := hnests v hv n w hchain
  omega

/-- A call and its argument. -/
theorem parseSource_nests_call : ∃ root v w,
    (parseSource "f(x)" .expression 10 .empty).1 = .ok root ∧ v ∈ root.visits ∧ v.Chain 1 w ∧
      1 + 1 ≤ 5 * (10 + 1) := by
  have hcall : (parseSource "f(x)" .expression 10 .empty).1.toOption.any
      (·.visits.any (!·.attached.isEmpty)) = true := by decide +kernel
  cases hroot : (parseSource "f(x)" .expression 10 .empty).1 with
  | error e =>
    rw [hroot] at hcall
    cases hcall
  | ok root =>
    rw [hroot] at hcall
    obtain ⟨v, hv, hattached⟩ := List.any_eq_true.mp hcall
    have hne : v.attached ≠ [] := by simpa using hattached
    obtain ⟨w, hw⟩ := List.exists_mem_of_ne_nil _ hne
    have hchain : v.Chain 1 w := .attached hw (.here w)
    exact ⟨root, v, w, rfl, hv, hchain, parseSource_nests hroot hv hchain⟩

-- =============================================================== height

/-- As many points, each with a name after it. -/
def points : Nat → List Char
  | 0 => []
  | n + 1 => '.' :: 'a' :: points n

/-- `a.a.a`, with as many points. -/
def pointed (n : Nat) : String := .ofList ('a' :: points n)

def pointSlots : Nat → List Slot
  | 0 => []
  | n + 1 => .kind .dot :: .name "a" :: pointSlots n

-- ------------------------------------------------------------- its pieces

namespace Piece

def ofPoints : Nat → List Piece
  | 0 => []
  | n + 1 => ⟨.token .dot, ['.']⟩ :: ⟨.token .ident, ['a']⟩ :: ofPoints n

theorem measure_point (n : Nat) : measure ('.' :: 'a' :: points n) = (.token .dot, 1) := rfl

theorem measure_name (n : Nat) : measure ('a' :: points n) = (.token .ident, 1) := by
  cases n <;> rfl

theorem cut_points (n fuel : Nat) (done : List Piece) (h : 2 * n ≤ fuel) :
    cut fuel (points n) done = done.reverse ++ ofPoints n := by
  induction n generalizing fuel done with
  | zero => cases fuel <;> simp [points, ofPoints, cut]
  | succ n ih =>
    obtain ⟨fuel, rfl⟩ : ∃ k, fuel = k + 2 := ⟨fuel - 2, by omega⟩
    rw [points, cut, measure_point]
    simp only [List.drop_succ_cons, List.drop_zero, List.take_succ_cons, List.take_zero]
    rw [cut, measure_name]
    simp only [List.drop_succ_cons, List.drop_zero, List.take_succ_cons, List.take_zero]
    rw [ih fuel _ (by omega)]
    simp [ofPoints]

theorem length_points (n : Nat) : (points n).length = 2 * n := by
  induction n with
  | zero => rfl
  | succ n ih =>
    simp only [points, List.length_cons, ih]
    omega

theorem pieces_pointed (n : Nat) :
    pieces ('a' :: points n) = ⟨.token .ident, ['a']⟩ :: ofPoints n := by
  have hmark : ¬ 'a' = byteOrderMark := by decide
  simp only [pieces, if_neg hmark, List.length_cons]
  rw [cut, measure_name]
  simp only [List.drop_succ_cons, List.drop_zero, List.take_succ_cons, List.take_zero]
  rw [cut_points n _ _ (Nat.le_of_eq (length_points n).symm)]
  rfl

end Piece

-- ------------------------------------------------------------- its tokens

namespace Lexer

/-- From one state to another lexemes have been added that fit the slots,
one each. -/
def Adds (s : Lexer) (ss : List Slot) (s' : Lexer) : Prop :=
  ∃ ls, s'.lexemes.toList = s.lexemes.toList ++ ls ∧
    List.Forall₂ (fun slot l => slot.Accepts l.token) ss ls

variable {s s' s'' : Lexer} {ss us : List Slot} {slot : Slot}

theorem Adds.refl (s : Lexer) : s.Adds [] s := ⟨[], (List.append_nil _).symm, .nil⟩

theorem Adds.trans (h : s.Adds ss s') (h' : s'.Adds us s'') : s.Adds (ss ++ us) s'' := by
  obtain ⟨ls, hls, hss⟩ := h
  obtain ⟨ls', hls', hus⟩ := h'
  refine ⟨ls ++ ls', ?_, List.rel_append hss hus⟩
  rw [hls', hls, List.append_assoc]

theorem Adds.emit {t : Token} (ends : Bool) (ht : slot.Accepts t) : s.Adds [slot] (s.emit t ends) :=
  ⟨[⟨s.comments.reverse, t⟩], Array.toList_push, .cons ht .nil⟩

theorem Adds.step {k : Token.Kind} {cs : List Char}
    (h : ∀ sp, slot.Accepts ⟨k, .ofList cs, sp⟩) : s.Adds [slot] (s.step ⟨.token k, cs⟩) :=
  .emit (s := s) k.endsStatement (h _)

theorem adds_points (n : Nat) (s : Lexer) :
    s.Adds (pointSlots n) ((Piece.ofPoints n).foldl Lexer.step s) := by
  induction n generalizing s with
  | zero => exact .refl s
  | succ n ih =>
    have hpoint : s.Adds [.kind .dot] (s.step ⟨.token .dot, ['.']⟩) := .step fun _ => ⟨nofun, rfl⟩
    have hname : ∀ s : Lexer, s.Adds [.name "a"] (s.step ⟨.token .ident, ['a']⟩) :=
      fun _ => .step fun _ => ⟨nofun, rfl, rfl⟩
    exact hpoint.trans ((hname _).trans (ih _))

/-- A semicolon may be inserted after a name. -/
theorem endsStatement_points (n : Nat) (s : Lexer) (hs : s.endsStatement = true) :
    ((Piece.ofPoints n).foldl Lexer.step s).endsStatement = true := by
  induction n generalizing s with
  | zero => exact hs
  | succ n ih => exact ih _ rfl

end Lexer

theorem Lexer.adds_pointed (n : Nat) :
    Lexer.start.Adds (.name "a" :: (pointSlots n ++ [.kind .semi]))
    (.run (Piece.pieces (pointed n).toList)) := by
  have hname : Lexer.start.Adds [.name "a"] (Lexer.start.step ⟨.token .ident, ['a']⟩) :=
    .step fun _ => ⟨nofun, rfl, rfl⟩
  have hends := Lexer.endsStatement_points n (Lexer.start.step ⟨.token .ident, ['a']⟩) rfl
  rw [pointed, String.toList_ofList, Piece.pieces_pointed, Lexer.run, List.foldl_cons,
    Lexer.lineEnd, if_pos hends]
  exact hname.trans ((Lexer.adds_points n _).trans (.emit false ⟨nofun, rfl⟩))

-- -------------------------------------------------------------- its tree

/-- The tree has a node with as many above it. -/
def Expr.Reaches (n : Nat) (x : Expr) : Prop :=
  ∀ depth, ∃ step ∈ Walk.expr depth x, step.depth = depth + n

theorem Expr.reaches_zero (x : Expr) : x.Reaches 0 := by
  obtain ⟨i, sp, form⟩ := x
  exact fun depth => ⟨_, List.mem_cons_self, rfl⟩

theorem Expr.Reaches.selector {x : Expr} {m : Nat} (hx : x.Reaches m) (i : Nat) (sp : Span)
    (n : Ident) : Expr.Reaches (m + 1) ⟨i, sp, .selector x n⟩ := by
  intro depth
  obtain ⟨step, hstep, hdepth⟩ := hx (depth + 1)
  exact ⟨step, List.mem_cons_of_mem _ hstep, by omega⟩

namespace Grammar

variable {parse : SubParser} {h : Bool} {F : Token → Prop} {x : Expr} {m : Nat}

theorem suffix_point (hx : x.Reaches m) :
    (suffix parse x).Rereads h [.kind .dot, .name "a"] F
      (Rereads.GoesOn (Expr.Reaches (m + 1))) := by
  refine .bind_kind_at (.again (.bind_expect fun _ => .ifAt (fun _ ht => ht.2.1) ?_))
  exact .bind_last .ident fun n _ => .building fun _ => hx.selector _ _ n

theorem suffixes_points (n : Nat) (hx : x.Reaches m) :
    (suffixes parse x).Rereads h (pointSlots n) (·.kind = .semi) (Expr.Reaches (n + m)) := by
  refine .repeating ?_
  induction n generalizing x m with
  | zero =>
    rw [Nat.zero_add]
    exact .stop (suffix_stops (fun t ht => (Ends.of_kind ht rfl).toDetached) hx)
  | succ n ih =>
    rw [Nat.succ_add_eq_add_succ]
    exact .again (G := fun _ => True) (suffix_point hx) (List.cons_ne_nil _ _)
      (fun _ _ => trivial) fun y hy => ih hy

/-- Four productions are active when the first name is read. -/
theorem expression_pointed (n : Nat) : (Grammar.parse 4 .expression).Rereads false
    (.name "a" :: pointSlots n) (·.kind = .semi) (Expr.Reaches n) := by
  have hname : (Grammar.parse 1 .operand).Rereads false [.name "a"] (fun _ => True)
      (Expr.Reaches 0) := by
    refine .production (.bind_kind_of (fun _ ht => ht.2.1) (.bind_last .ident fun m _ => ?_))
    exact .building fun _ => Expr.reaches_zero _
  have hprimary : (Grammar.parse 2 .primaryExpr).Rereads false (.name "a" :: pointSlots n)
      (·.kind = .semi) (Expr.Reaches n) := by
    exact .production (.bind hname (fun _ _ => trivial) fun _ hx => suffixes_points n hx)
  have hunary : (Grammar.parse 3 .unaryExpr).Rereads false (.name "a" :: pointSlots n)
      (·.kind = .semi) (Expr.Reaches n) := by
    refine .production (unaryExpr_rereads hprimary fun t ht => ?_)
    rw [show t.kind = .ident from ht.2.1]
    rfl
  exact .production (binaryExpr_rereads hunary fun t ht => by rw [ht]; rfl)

end Grammar

/-- However many points there are, four productions are enough. -/
theorem parseSource_pointed (n : Nat) : ∃ x : Expr,
    (parseSource (pointed n) .expression 4 .empty).1 = .ok (.expr x) ∧ x.Reaches n := by
  obtain ⟨ls, hls, hslots⟩ := Lexer.adds_pointed n
  let stream := Token.Stream.ofSource (pointed n)
  have hlexemes : stream.lexemes = ls ++ [] := by
    rw [List.append_nil]
    exact hls
  let s := Parsing.start stream .empty
  obtain ⟨l, hshows⟩ := Cursor.shows_before .nowhere hlexemes hslots
  rw [← List.cons_append] at hshows
  obtain ⟨c, hc, hsemi, hend⟩ := Cursor.shows_append.mp hshows
  have hs : s.At false (Cursor.before stream .nowhere) := ⟨rfl, rfl, ready_start.fueled⟩
  obtain ⟨x, s', hx, hs', hreach⟩ := Grammar.expression_pointed n s _ c hs hc hsemi.2
  refine ⟨x, ?_, hreach⟩
  -- Behind the tree stand the semicolon and the end.
  have hkind : s'.current.kind = .semi := by
    rw [← Parsing.cursor_current, hs'.cursor]
    exact hsemi.2
  have heof : s'.next.current.kind = .eof := by
    rw [← Parsing.cursor_current, Parsing.cursor_next, hs'.cursor, show c.next = _ from hend]
    rfl
  have hrun : Entry.expression.parser (Grammar.parse 4) s = .ok (.expr x) s'.next.next := by
    refine map_eq_ok.mpr ⟨x, bind_eq_ok.mpr ⟨x, s', hx, ?_⟩, rfl⟩
    refine bind_eq_ok.mpr ⟨_, s'.next, eat_at hkind, ?_⟩
    exact bind_eq_ok.mpr ⟨_, s'.next.next, expect_at heof, rfl⟩
  exact parseStream_of_ok hrun

/-- Under no limit are all trees low. -/
theorem height_not_bounded : ¬ ∃ C : Nat, ∀ (source : String) (entry : Entry) (maxDepth : Nat)
    (arena : Arena) (root : Root), (parseSource source entry maxDepth arena).1 = .ok root →
      ∀ step ∈ root.walk, step.depth + 1 ≤ C * (maxDepth + 1) := by
  rintro ⟨C, hC⟩
  obtain ⟨x, hx, hreach⟩ := parseSource_pointed (C * 5)
  obtain ⟨step, hstep, hdepth⟩ := hreach 0
  have hmem : step ∈ Root.walk (.expr x) :=
    List.mem_flatMap.mpr ⟨_, List.mem_singleton_self _, hstep⟩
  have hle := hC _ _ _ _ _ hx step hmem
  omega

end GoSource
