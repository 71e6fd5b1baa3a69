/-
Where in the tokens a node stands.

Every node that a walk reaches was read from some stretch of the tokens
(`Laid.site`). What stands around this stretch is known as far as brackets
and modes go: a node inside a header was read in the mode for headers
unless brackets within the header enclose it, and behind an operand that
is a name there is a brace only where a header ends.
-/
import GoSource.Proofs.Contents.Lies

namespace GoSource

-- ============================================================= brackets

/-- Tokens in which all brackets match. -/
inductive Balanced : List Token → Prop where
  | nil : Balanced []
  | token : t.kind.isBracket = false → Balanced [t]
  | append : Balanced ts → Balanced us → Balanced (ts ++ us)
  | brackets : l.kind.Matches r.kind → Balanced ts → Balanced (l :: (ts ++ [r]))

/-- Brackets that match stand around some tokens: one in what is before
them, the other in what is after. -/
def Bracketed (pre us post : List Token) : Prop :=
  ∃ before l mid mid' r after, pre = before ++ l :: mid ∧ post = mid' ++ r :: after ∧
    l.kind.Matches r.kind ∧ Balanced (mid ++ (us ++ mid'))

namespace Bracketed

variable {pre us post : List Token}

/-- Tokens further out do not matter. -/
theorem extend (h : Bracketed pre us post) (before after : List Token) :
    Bracketed (before ++ pre) us (post ++ after) := by
  obtain ⟨b, l, mid, mid', r, a, rfl, rfl, hlr, hmid⟩ := h
  exact ⟨before ++ b, l, mid, mid', r, a ++ after, by simp, by simp, hlr, hmid⟩

/-- The brackets stand around any part of the tokens as well. -/
theorem narrow {as bs cs : List Token} (h : Bracketed pre (as ++ (bs ++ cs)) post) :
    Bracketed (pre ++ as) bs (cs ++ post) := by
  obtain ⟨b, l, mid, mid', r, a, rfl, rfl, hlr, hmid⟩ := h
  exact ⟨b, l, mid ++ as, cs ++ mid', r, a, by simp, by simp, hlr, by simpa using hmid⟩

theorem single {l r : Token} (hlr : l.kind.Matches r.kind) (hus : Balanced us) :
    Bracketed (pre ++ [l]) us (r :: post) :=
  ⟨pre, l, [], [], r, post, by simp, rfl, hlr, by simpa using hus⟩

end Bracketed

namespace Token.Kind

theorem Matches.ne_lBrace {l r : Kind} (h : l.Matches r) : r ≠ .lBrace := by
  cases h <;> nofun

theorem Matches.ne_ident {l r : Kind} (h : l.Matches r) : l ≠ .ident ∧ r ≠ .ident := by
  cases h <;> exact ⟨nofun, nofun⟩

theorem matches_braces {l r : Kind} (hl : l = .lBrace) (hr : r = .rBrace) : l.Matches r := by
  rw [hl, hr]
  exact .braces

end Token.Kind

theorem Laid.balanced {m : Mode} {e : Edge} {ts : List Token} {vs : List Visit}
    (h : Laid m e ts vs) : Balanced ts := by
  induction h with
  | nil => exact .nil
  | token ht => exact .token ht
  | append _ _ _ ih ih' => exact .append ih ih'
  | brackets hlr _ ih => exact .brackets hlr ih
  | node _ _ _ _ ih => exact ih
  | braced _ hl hr _ _ _ _ _ _ ih ih' ih'' =>
    have hbraces := Balanced.brackets (Token.Kind.matches_braces hl hr) ih'
    simpa using ih.append (hbraces.append ih'')

-- ================================================================ sites

/-- The nodes that a walk from some nodes reaches. -/
def Visit.reached (vs : List Visit) : List Visit := vs.flatMap Visit.below

namespace Visit

variable {v w : Visit} {vs ws : List Visit}

theorem reached_append : reached (vs ++ ws) = reached vs ++ reached ws := List.flatMap_append

theorem mem_reached_singleton : w ∈ reached [v] ↔ w = v ∨ w ∈ reached v.children := by
  rw [reached, List.flatMap_singleton, below_eq, List.mem_cons]
  rfl

theorem reached_of_brace {l : Location} (h : v.brace? = some l)
    (hw : w ∈ reached (Part.nodes v.lead) ∨ w ∈ reached (Part.nodes v.inner) ∨
      w ∈ reached (Part.nodes v.rest)) : w ∈ reached [v] := by
  refine mem_reached_singleton.mpr (.inr ?_)
  rw [children_of_brace h, reached_append, reached_append, List.mem_append, List.mem_append]
  exact hw

theorem leadMode_guard (v : Visit) (m : Mode) : (v.leadMode m).guard = true ↔ m.guard = true := by
  unfold leadMode
  split <;> rfl

theorem leadMode_inHeader (v : Visit) {m : Mode} (h : m.inHeader = true) :
    (v.leadMode m).inHeader = true := by
  unfold leadMode
  split
  · rfl
  · exact h

theorem isHeaded_of_leadEdge (h : v.leadEdge = .loose) : v.isHeaded = true := by
  unfold leadEdge at h
  split at h
  · assumption
  · cases h

end Visit

namespace Laid

/-- A node is laid out in the tokens by one of the two rules for nodes. -/
inductive Stop (m : Mode) (e : Edge) : List Token → Visit → Prop where
  | node : Laid m e ts v.children → v.ReadFrom m ts → v.brace? = none →
      (∀ x n, v = .expr x → x.form.operandName? = some n → e = .loose) → Stop m e ts v
  | braced {l r : Token} {hs bs es : List Token} :
      v.brace? = some l.span.start → l.kind = .lBrace → r.kind = .rBrace →
      Laid (v.leadMode m) v.leadEdge hs (Part.nodes v.lead) →
      Laid .inside f bs (Part.nodes v.inner) → Laid m e es (Part.nodes v.rest) →
      v.ReadFrom m (hs ++ l :: (bs ++ r :: es)) →
      (v.isNamedLiteral = true → m.inHeader = false) →
      (v.isHeaded = true → v.span.start = (extent hs).start ∧ hs ≠ []) →
      Stop m e (hs ++ l :: (bs ++ r :: es)) v

/-- What a node with a brace that may follow a name has before it. -/
theorem Stop.before_brace {m : Mode} {e : Edge} {ts : List Token} {v : Visit} {a : Location}
    (h : Stop m e ts v) (ha : v.brace? = some a) :
    ∃ hs l rest, ts = hs ++ l :: rest ∧ l.kind = .lBrace ∧ l.span.start = a ∧
      Laid (v.leadMode m) v.leadEdge hs (Part.nodes v.lead) ∧
      (v.isNamedLiteral = true → m.inHeader = false) ∧
      (v.isHeaded = true → v.span.start = (extent hs).start) := by
  cases h with
  | node _ _ hnone => exact nomatch hnone.symm.trans ha
  | braced hbrace hl hr hlead _ _ _ hliteral hheaded =>
    refine ⟨_, _, _, rfl, hl, ?_, hlead, hliteral, fun h => (hheaded h).1⟩
    exact Option.some.inj (hbrace.symm.trans ha)

theorem Stop.readFrom {m : Mode} {e : Edge} {ts : List Token} {v : Visit} (h : Stop m e ts v) :
    v.ReadFrom m ts := by
  cases h with
  | node _ hread => exact hread
  | braced _ _ _ _ _ _ hread => exact hread

/-- An operand that is a name has a derivation of its own. -/
theorem Stop.of_name {m : Mode} {e : Edge} {ts : List Token} {x : Expr} {n : Ident}
    (h : Stop m e ts (.expr x)) (hn : x.form.operandName? = some n) :
    Derives (.expr m) ts x ∧ e = .loose := by
  have hread : Visit.ReadFrom m ts (.expr x) := h.readFrom
  obtain ⟨i, sp, form⟩ := x
  refine ⟨?_, ?_⟩
  · cases hread with
    | expr hx => exact hx
    | elided => exact nomatch hn
  · cases h with
    | node _ _ _ hname => exact hname _ n rfl hn
    | braced hbrace =>
      cases form with
      | composite => exact nomatch hn
      | _ => exact nomatch hbrace

/-- The node `w`, reached from `vs`, was read from `us` in the mode `m'`,
and stands between `pre` and `post`. -/
structure Site (m : Mode) (e : Edge) (vs : List Visit) (w : Visit) (m' : Mode) (e' : Edge)
    (pre us post : List Token) : Prop where
  stop : Stop m' e' us w
  guard : m'.guard = true → m.guard = true
  inHeader : m.inHeader = true → m'.inHeader = true ∨ Bracketed pre us post
  edge : post = [] → e' ≤ e
  /-- A brace behind an operand that may be a name opens the body that
  belongs to the header with this operand. -/
  brace : ∀ c rest, post = c :: rest → c.kind = .lBrace → e' = .loose →
    ∃ v ∈ Visit.reached vs, v.isHeaded = true ∧ v.brace? = some c.span.start ∧
      w ∈ Visit.reached (Part.nodes v.lead)

/-- A site within a stretch of tokens is one within a longer stretch. -/
theorem Site.extend {m m₁ m' : Mode} {e e₁ e' : Edge} {vs vs₁ : List Visit} {w : Visit}
    {pre us post : List Token} (h : Site m₁ e₁ vs₁ w m' e' pre us post) (before after : List Token)
    (hvs : ∀ v, v ∈ Visit.reached vs₁ → v ∈ Visit.reached vs)
    (hguard : m₁.guard = true → m.guard = true)
    (hheader : m.inHeader = true →
      m₁.inHeader = true ∨ Bracketed before (pre ++ (us ++ post)) after)
    (hedge : after = [] → e₁ ≤ e)
    (hbrace : ∀ c rest, after = c :: rest → c.kind = .lBrace → e₁ = .loose →
      ∃ v ∈ Visit.reached vs, v.isHeaded = true ∧ v.brace? = some c.span.start ∧
        w ∈ Visit.reached (Part.nodes v.lead)) :
    Site m e vs w m' e' (before ++ pre) us (post ++ after) := by
  refine ⟨h.stop, hguard ∘ h.guard, fun hm => ?_, fun hpost => ?_, fun c rest hpost hc he => ?_⟩
  · obtain hm | hm := hheader hm
    · exact (h.inHeader hm).imp_right fun hb => hb.extend before after
    · exact .inr hm.narrow
  · obtain ⟨hpost, hafter⟩ := List.append_eq_nil_iff.mp hpost
    exact Edge.le_trans (h.edge hpost) (hedge hafter)
  · cases post with
    | nil =>
      have hle := h.edge rfl
      rw [he] at hle
      exact hbrace c rest hpost hc (Edge.eq_loose hle)
    | cons d post =>
      obtain ⟨rfl, -⟩ := List.cons_eq_cons.mp hpost
      obtain ⟨v, hv, hrest⟩ := h.brace d post rfl hc he
      exact ⟨v, hvs v hv, hrest⟩

theorem Stop.site {m : Mode} {e : Edge} {ts : List Token} {v : Visit} (h : Stop m e ts v) :
    Site m e [v] v m e [] ts [] :=
  ⟨h, id, .inl, fun _ => Edge.le_refl e, nofun⟩

/-- Every node that is reached has a site. -/
theorem site {m : Mode} {e : Edge} {ts : List Token} {vs : List Visit} (h : Laid m e ts vs)
    {w : Visit} (hw : w ∈ Visit.reached vs) :
    ∃ m' e' pre us post, ts = pre ++ (us ++ post) ∧ Site m e vs w m' e' pre us post := by
  induction h with
  | nil | token => simp [Visit.reached] at hw
  | @append m e ts vs f us ws h h' hbefore ih ih' =>
    rw [Visit.reached_append, List.mem_append] at hw
    obtain hw | hw := hw
    · obtain ⟨m', e', pre, ts', post, rfl, hsite⟩ := ih hw
      refine ⟨m', e', _, ts', _, by simp, hsite.extend [] us ?_ id .inl ?_ ?_⟩
      · exact fun v hv => by rw [Visit.reached_append]; exact List.mem_append_left _ hv
      · rintro rfl
        exact hbefore
      · rintro c rest rfl hc rfl
        exact nomatch hbefore hc
    · obtain ⟨m', e', pre, us', post, rfl, hsite⟩ := ih' hw
      refine ⟨m', e', _, us', _, by simp, hsite.extend ts [] ?_ id .inl ?_ nofun⟩
      · exact fun v hv => by rw [Visit.reached_append]; exact List.mem_append_right _ hv
      · exact fun _ => Edge.le_refl f
  | @brackets f vs m e l r ts hlr h ih =>
    obtain ⟨m', e', pre, us, post, rfl, hsite⟩ := ih hw
    refine ⟨m', e', _, us, _, by simp, hsite.extend [l] [r] (fun _ => id) nofun ?_ nofun ?_⟩
    · exact fun _ => .inr ⟨[], l, [], [], r, [], by simp, rfl, hlr, by simpa using h.balanced⟩
    · rintro c rest hc hbrace -
      obtain ⟨rfl, -⟩ := List.cons_eq_cons.mp hc
      exact absurd hbrace hlr.ne_lBrace
  | @node m e ts v h hread hbrace hname ih =>
    obtain rfl | hw := Visit.mem_reached_singleton.mp hw
    · exact ⟨m, e, [], ts, [], by simp, (Stop.node h hread hbrace hname).site⟩
    · obtain ⟨m', e', pre, us, post, rfl, hsite⟩ := ih hw
      refine ⟨m', e', _, us, _, by simp, hsite.extend [] [] ?_ id .inl ?_ nofun⟩
      · exact fun u hu => Visit.mem_reached_singleton.mpr (.inr hu)
      · exact fun _ => Edge.le_refl e
  | @braced m f e v l r hs bs es hbrace hl hr hlead hinner hrest hread hliteral hheaded ih ih'
      ih'' =>
    have hbraces := Token.Kind.matches_braces hl hr
    obtain rfl | hbelow := Visit.mem_reached_singleton.mp hw
    · refine ⟨m, e, [], _, [], (List.append_nil _).symm, Stop.site ?_⟩
      exact .braced hbrace hl hr hlead hinner hrest hread hliteral hheaded
    · rw [Visit.children_of_brace hbrace, Visit.reached_append, Visit.reached_append,
        List.mem_append, List.mem_append] at hbelow
      obtain hw | hw | hw := hbelow
      · obtain ⟨m', e', pre, us, post, rfl, hsite⟩ := ih hw
        refine ⟨m', e', _, us, _, by simp, hsite.extend [] (l :: (bs ++ r :: es)) ?_ ?_ ?_ nofun ?_⟩
        · exact fun u hu => Visit.reached_of_brace hbrace (.inl hu)
        · exact (Visit.leadMode_guard v m).mp
        · exact fun hm => .inl (Visit.leadMode_inHeader v hm)
        · rintro c rest hc - hedge
          obtain ⟨rfl, -⟩ := List.cons_eq_cons.mp hc
          have hself : v ∈ Visit.reached [v] := Visit.mem_reached_singleton.mpr (.inl rfl)
          exact ⟨v, hself, Visit.isHeaded_of_leadEdge hedge, hbrace, hw⟩
      · obtain ⟨m', e', pre, us, post, rfl, hsite⟩ := ih' hw
        refine ⟨m', e', _, us, _, by simp, hsite.extend (hs ++ [l]) (r :: es) ?_ nofun ?_ nofun ?_⟩
        · exact fun u hu => Visit.reached_of_brace hbrace (.inr (.inl hu))
        · exact fun _ => .inr (.single hbraces hinner.balanced)
        · rintro c rest hc hbrace -
          obtain ⟨rfl, -⟩ := List.cons_eq_cons.mp hc
          exact absurd hbrace hbraces.ne_lBrace
      · obtain ⟨m', e', pre, us, post, rfl, hsite⟩ := ih'' hw
        refine ⟨m', e', _, us, _, by simp, hsite.extend (hs ++ l :: (bs ++ [r])) [] ?_ id .inl
          (fun _ => Edge.le_refl e) nofun⟩
        exact fun u hu => Visit.reached_of_brace hbrace (.inr (.inr hu))

end Laid

-- ================================================================ roots

/-- The nodes of a whole tree. -/
def Root.reached (root : Root) : List Visit := root.walk.map (·.visit)

theorem Root.reached_eq (root : Root) : root.reached = Visit.reached root.visits := by
  rw [reached, walk, List.map_flatMap]
  rfl

/-- The mode in which an entry is read. -/
def Entry.mode : Entry → Mode
  | typeSwitchGuard => ⟨false, true⟩
  | _ => .inside

/-- The tokens of a whole input lay out the root that they are read as. -/
theorem ReadAs.laid {entry : Entry} {ts : List Token} {root : Root} (h : ReadAs entry ts root) :
    Laid entry.mode .loose ts root.visits := by
  have semi : ∀ {m : Mode} {ts cs : List Token} {vs : List Visit}, Laid m .loose ts vs →
      Possibly .semi cs → Laid m .loose (ts ++ cs) vs := by
    intro m ts cs vs hts hcs
    have h := hts.join (Edge.le_refl _) (hcs.head_ne_lBrace nofun) (.possibly hcs rfl)
    rwa [List.append_nil] at h
  cases h with
  | expression hx hcs => exact semi (hx.lies rfl).1 hcs
  | declarations h =>
    have hds : Laid .inside .loose _ _ := h.lies rfl
    simpa [Phrase.parts, Root.visits, Entry.mode] using hds
  | file h => exact h.lies rfl
  | statements h =>
    have hss : Laid .inside .loose _ _ := h.lies rfl
    simpa [Phrase.parts, Root.visits, Entry.mode] using hss
  | typeSwitchGuard h _ hcs => exact semi (.draft h (h.lies rfl)) hcs

end GoSource
