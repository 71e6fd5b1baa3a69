/-
Lists read back from their renderings.

What is to be shown of a list is that its items come back one by one,
each equal to the one that was written down, up to what `b` takes out of
both.
-/
import GoSource.Proofs.Parsing.Rereads
import GoSource.Proofs.Rendering.Bare

namespace GoSource

open GoSource.Parser

variable {α β : Type} {h : Bool} {F : Token → Prop} {b : α → β} {render : α → List Slot}

/-- One item more has come back. Those before it are collected the latest
first. -/
theorem map_reverse_cons {acc ws : List α} {y z : α} (hacc : acc.reverse.map b = ws.map b)
    (hy : b y = b z) : (y :: acc).reverse.map b = (ws ++ [z]).map b := by
  rw [List.reverse_cons, List.map_append, List.map_append, hacc, List.map_singleton, hy,
    List.map_singleton]

/-- What comes before the rest of a list: a comma, or what follows the
list. -/
theorem leads_rest {xs : List α} {t : Token}
    (ht : Leads ((xs.map render).flatMap (.kind .comma :: ·)) F t) :
    t.kind = .comma ∨ xs = [] ∧ F t := by
  cases xs with
  | nil => exact .inr ⟨rfl, ht⟩
  | cons x xs => exact .inl ht.2

namespace Grammar

/-- Of the tokens behind an item only the one behind the last depends on
what follows the list. -/
theorem behind_item {G : α → Token → Prop} {xs ys zs : List α} {z : α} (hxs : xs = ys ++ z :: zs)
    (hcomma : ∀ x t, t.kind = .comma → G x t) (hlast : ∀ x ∈ xs.getLast?, ∀ t, F t → G x t)
    {t : Token} (ht : Leads ((zs.map render).flatMap (.kind .comma :: ·)) F t) : G z t := by
  obtain ht | ⟨rfl, ht⟩ := leads_rest ht
  · exact hcomma z t ht
  · refine hlast z ?_ t ht
    rw [hxs, List.getLast?_concat]
    rfl

theorem afterCommas_rereads {item : Parser α} {G : α → Token → Prop} {x y : α} {xs : List α}
    (hy : b y = b x) (hitem : ∀ z ∈ xs, item.Rereads h (render z) (G z) fun y => b y = b z)
    (hcomma : ∀ z t, t.kind = .comma → G z t) (hlast : ∀ z ∈ (x :: xs).getLast?, ∀ t, F t → G z t)
    (hF : ∀ t, F t → t.kind ≠ .comma) :
    (afterCommas item y).Rereads h ((xs.map render).flatMap (.kind .comma :: ·)) F
      fun ys => ys.map b = (x :: xs).map b := by
  refine .bind_last (R := fun ys => ys.reverse.map b = (x :: xs).map b) ?_ fun ys hys => .pure hys
  refine .repeating_of (r := fun zs => (zs.map render).flatMap (.kind .comma :: ·))
    (J := fun zs acc => ∃ ws, xs = ws ++ zs ∧ acc.reverse.map b = (x :: ws).map b)
    (fun zs acc hacc => ?_) ⟨[], rfl, ?_⟩
  · obtain ⟨ws, hws, hacc⟩ := hacc
    cases zs with
    | nil =>
      have hall : acc.reverse.map b = (x :: xs).map b := by rw [hacc, hws, List.append_nil]
      exact .inl (.bind_eat_none (fun t ht => hF t ht) (.pure ⟨acc, rfl, hall⟩))
    | cons z zs =>
      have hz : z ∈ xs := by rw [hws]; exact List.mem_append_right _ List.mem_cons_self
      have hxs : x :: xs = (x :: ws) ++ z :: zs := by rw [hws]; rfl
      refine .inr ⟨zs, .kind .comma :: render z, G z, rfl, List.cons_ne_nil _ _,
        fun t => behind_item hxs hcomma hlast, .bind_eat fun _ => ?_⟩
      refine .bind_last (hitem z hz) fun y hy => .pure ⟨_, rfl, ws ++ [z], ?_, ?_⟩
      · rw [hws, List.append_assoc, List.singleton_append]
      · exact map_reverse_cons hacc hy
  · rw [List.reverse_singleton, List.map_singleton, hy, List.map_singleton]

theorem commaSeparated_rereads {item : Parser α} {G : α → Token → Prop} {xs : List α}
    (hne : xs ≠ []) (hitem : ∀ x ∈ xs, item.Rereads h (render x) (G x) fun y => b y = b x)
    (hcomma : ∀ x t, t.kind = .comma → G x t) (hlast : ∀ x ∈ xs.getLast?, ∀ t, F t → G x t)
    (hF : ∀ t, F t → t.kind ≠ .comma) :
    (commaSeparated item).Rereads h (Render.commas (xs.map render)) F
      fun ys => ys.map b = xs.map b := by
  obtain ⟨x, xs, rfl⟩ := List.exists_cons_of_ne_nil hne
  refine .bind (hitem x List.mem_cons_self)
    (fun t => behind_item (List.nil_append _).symm hcomma hlast) fun y hy => ?_
  exact afterCommas_rereads hy (fun z hz => hitem z (List.mem_cons_of_mem _ hz)) hcomma hlast hF

/-- Items with a separator after each, up to the token that closes
them. -/
theorem itemsUntil_rereads {item : Nat → Parser α} {close sep : Token.Kind} {xs : List α}
    (hitem : ∀ i x, xs[i]? = some x →
      (item i).Rereads h (render x) (·.kind = sep) fun y => b y = b x)
    (hopen : ∀ x ∈ xs, ∀ t, Leads (render x) (·.kind = sep) t → t.kind ≠ close)
    (hF : ∀ t, F t → t.kind = close) :
    (itemsUntil close sep item).Rereads h (Render.ended sep (xs.map render)) F
      fun ys => ys.map b = xs.map b := by
  refine .bind_last (R := fun st => st.2.reverse.map b = xs.map b) ?_ fun st hst => .pure hst
  refine .repeating_of (r := fun zs => Render.ended sep (zs.map render))
    (J := fun zs st => ∃ ws, xs = ws ++ zs ∧ st.1 = ws.length ∧ st.2.reverse.map b = ws.map b)
    (fun zs st hst => ?_) ⟨[], rfl, rfl, rfl⟩
  obtain ⟨n, acc⟩ := st
  obtain ⟨ws, hws, rfl, hacc⟩ := hst
  cases zs with
  | nil =>
    have hall : acc.reverse.map b = xs.map b := by rw [hws, List.append_nil]; exact hacc
    exact .inl (.ifAt (fun t ht => hF t ht) (.pure ⟨_, rfl, hall⟩))
  | cons z zs =>
    have hz : xs[ws.length]? = some z := by
      rw [hws, List.getElem?_append_right (Nat.le_refl _), Nat.sub_self]
      rfl
    refine .inr ⟨zs, render z ++ [.kind sep], fun _ => True, rfl, by simp, fun _ _ => trivial,
      .ifNotAt (fun t ht => hopen z (List.mem_of_getElem? hz) t ?_) ?_⟩
    · cases hss : render z with
      | nil =>
        rw [hss] at ht
        exact ht.2
      | cons slot ss =>
        rw [hss] at ht
        exact ht
    · refine .bind (hitem _ z hz) (fun t ht => ht.2) fun y hy => .bind_eat fun _ => .pure ?_
      refine ⟨_, rfl, ws ++ [z], ?_, ?_, ?_⟩
      · rw [hws, List.append_assoc, List.singleton_append]
      · rw [List.length_append, List.length_singleton]
      · exact map_reverse_cons hacc hy

/-- Items that do not depend on their places. -/
theorem items_rereads {item : Parser α} {close sep : Token.Kind} {xs : List α}
    (hitem : ∀ x ∈ xs, item.Rereads h (render x) (·.kind = sep) fun y => b y = b x)
    (hopen : ∀ x ∈ xs, ∀ t, Leads (render x) (·.kind = sep) t → t.kind ≠ close)
    (hF : ∀ t, F t → t.kind = close) :
    (itemsUntil close sep fun _ => item).Rereads h (Render.ended sep (xs.map render)) F
      fun ys => ys.map b = xs.map b :=
  itemsUntil_rereads (fun _ x hx => hitem x (List.mem_of_getElem? hx)) hopen hF

-- ================================================================ names

/-- A name is all of an identifier but its place. -/
theorem ident_rereads {n : Ident} :
    ident.Rereads h [.name n.name] F fun m => Bare.ident m = Bare.ident n :=
  Rereads.ident.imp (fun _ ht => ht) fun m hm => by rw [Bare.ident, Bare.ident, hm]

theorem names_rereads {ns : List Ident} (hne : ns ≠ []) (hF : ∀ t, F t → t.kind ≠ .comma) :
    (commaSeparated ident).Rereads h (Render.names ns) F
      fun ms => ms.map Bare.ident = ns.map Bare.ident :=
  commaSeparated_rereads (G := fun _ _ => True) hne (fun _ _ => ident_rereads)
    (fun _ _ _ => trivial) (fun _ _ _ _ => trivial) hF

end Grammar

end GoSource
