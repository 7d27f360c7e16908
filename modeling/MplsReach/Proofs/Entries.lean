/-
The rules that packets enter by with a bound on the whole way, and the order of destinations.

* `Behind`: an element stands in a list behind elements with a property only.
* `Network.ReachedAt`: all destinations that stand before one at an endpoint have only rules within
  the bound. On entering, the rules behind the first one that costs too much are left out.
* `Network.mem_underEntries_iff`: the ways into a network are the rules within the bound of the
  destinations that are reached.
* `Network.EntersAffordable`: packets can enter by all rules within the bound.
* `Network.Reorders`: the destinations of tables are put in another order;
  `Network.IgnoresOrder`: the automaton does not depend on it.
* `Network.EntersSurely.mem_underEntries`, `Network.entersSurely_of_forall`: the ways in that every
  order gives; `Network.EntersPossibly.exists_reorders`: those that some order gives.
* `underForwarding_entries_iff`: **exactly by which rules packets enter, when they can enter by all
  rules within the bound, and when the order does not matter.**
-/
import MplsReach.Proofs.FirstHop

namespace MplsReach

/-! ### Elements behind others -/

section Behind

variable {α β : Type} {P : α → Prop} {a x : α} {l l' : List α}

/-- The element stands in the list behind elements with the property only. -/
def Behind (P : α → Prop) (l : List α) (a : α) : Prop :=
  ∃ xs ys, l = xs ++ a :: ys ∧ ∀ x ∈ xs, P x

lemma Behind.mem (h : Behind P l a) : a ∈ l := by
  obtain ⟨xs, ys, rfl, -⟩ := h
  simp

lemma behind_of_forall (h : ∀ x ∈ l, P x) (ha : a ∈ l) : Behind P l a := by
  obtain ⟨xs, ys, rfl⟩ := List.append_of_mem ha
  exact ⟨xs, ys, rfl, fun x hx => h x (List.mem_append_left _ hx)⟩

lemma not_behind_nil : ¬ Behind P [] a := fun h => absurd h.mem List.not_mem_nil

lemma behind_cons_iff : Behind P (x :: l) a ↔ a = x ∨ P x ∧ Behind P l a := by
  constructor
  · rintro ⟨xs, ys, hl, hxs⟩
    cases xs with
    | nil => exact .inl (List.cons.inj hl).1.symm
    | cons y xs =>
        obtain ⟨rfl, rfl⟩ := List.cons.inj hl
        obtain ⟨hx, hxs⟩ := List.forall_mem_cons.mp hxs
        exact .inr ⟨hx, xs, ys, rfl, hxs⟩
  · rintro (rfl | ⟨hx, xs, ys, rfl, hxs⟩)
    · exact ⟨[], l, rfl, by simp⟩
    · exact ⟨x :: xs, ys, rfl, List.forall_mem_cons.mpr ⟨hx, hxs⟩⟩

lemma behind_append_iff :
    Behind P (l ++ l') a ↔ Behind P l a ∨ (∀ x ∈ l, P x) ∧ Behind P l' a := by
  induction l with
  | nil => simp [not_behind_nil]
  | cons x l ih =>
      rw [List.cons_append, behind_cons_iff, behind_cons_iff, ih, List.forall_mem_cons]
      tauto

lemma behind_flatMap_iff {f : β → List α} {bs : List β} :
    Behind P (bs.flatMap f) a ↔
      ∃ b, Behind (fun b => ∀ x ∈ f b, P x) bs b ∧ Behind P (f b) a := by
  induction bs with
  | nil => simp [not_behind_nil]
  | cons b bs ih =>
      simp only [List.flatMap_cons, behind_append_iff, ih, behind_cons_iff, or_and_right, exists_or,
        exists_eq_left, and_assoc, exists_and_left]

lemma behind_map_iff {f : β → α} {bs : List β} :
    Behind P (bs.map f) a ↔ ∃ b, Behind (fun b => P (f b)) bs b ∧ f b = a := by
  induction bs with
  | nil => simp [not_behind_nil]
  | cons b bs ih =>
      simp only [List.map_cons, behind_cons_iff, ih, or_and_right, exists_or, exists_eq_left,
        and_assoc, exists_and_left, @eq_comm _ a]

/-- What a loop over a list gets to that stops at the first element without the property. -/
lemma mem_takeWhile_iff_behind {p : α → Bool} :
    a ∈ l.takeWhile p ↔ p a = true ∧ Behind (p · = true) l a := by
  induction l with
  | nil => simp [not_behind_nil]
  | cons x l ih =>
      rw [List.takeWhile_cons, behind_cons_iff]
      by_cases hx : p x = true
      · rw [if_pos hx, List.mem_cons, ih]
        constructor
        · rintro (rfl | ⟨ha, hl⟩)
          · exact ⟨hx, .inl rfl⟩
          · exact ⟨ha, .inr ⟨hx, hl⟩⟩
        · rintro ⟨ha, rfl | ⟨-, hl⟩⟩
          · exact .inl rfl
          · exact .inr ⟨ha, hl⟩
      · rw [if_neg hx]
        constructor
        · simp
        · rintro ⟨ha, rfl | ⟨hx', -⟩⟩
          · exact absurd ha hx
          · exact absurd hx' hx

/-- If some element has one property, and so have all that lack another one, then the first of them
is behind elements with the other one only. -/
lemma exists_behind {Q : α → Prop} (hsome : ∃ x ∈ l, Q x) (hall : ∀ x ∈ l, ¬ P x → Q x) :
    ∃ x, Behind P l x ∧ Q x := by
  induction l with
  | nil => simp at hsome
  | cons y l ih =>
      by_cases hy : Q y
      · exact ⟨y, behind_cons_iff.mpr (.inl rfl), hy⟩
      · obtain ⟨hfirst, hrest⟩ := List.forall_mem_cons.mp hall
        have hsome : ∃ x ∈ l, Q x := by simpa [hy] using hsome
        obtain ⟨x, hx, hQ⟩ := ih hsome hrest
        exact ⟨x, behind_cons_iff.mpr (.inr ⟨by_contra fun h => hy (hfirst h), hx⟩), hQ⟩

lemma Behind.of_forall₂ {R : α → β → Prop} {Q : β → Prop} {l : List α} {m : List β}
    (hlists : List.Forall₂ R l m) (hPQ : ∀ x y, R x y → P x → Q y) (h : Behind P l a) :
    ∃ b, R a b ∧ Behind Q m b := by
  induction hlists with
  | nil => exact absurd h not_behind_nil
  | @cons x y l m hR _ ih =>
      rcases behind_cons_iff.mp h with rfl | ⟨hx, hrest⟩
      · exact ⟨y, hR, behind_cons_iff.mpr (.inl rfl)⟩
      · obtain ⟨b, hb, hbehind⟩ := ih hrest
        exact ⟨b, hb, behind_cons_iff.mpr (.inr ⟨hPQ x y hR hx, hbehind⟩)⟩

/-- The elements with a property, and the other ones behind them. -/
def bringForward (p : α → Bool) (l : List α) : List α := l.filter p ++ l.filter fun a => !p a

lemma bringForward_perm (p : α → Bool) (l : List α) : (bringForward p l).Perm l :=
  List.filter_append_perm p l

/-- An element that is brought forward, or another one like it, comes first. -/
lemma exists_bringForward_eq_cons {p : α → Bool} (hx : x ∈ l) (hp : p x = true) :
    ∃ y ys, p y = true ∧ bringForward p l = y :: ys := by
  have hmem : x ∈ l.filter p := List.mem_filter.mpr ⟨hx, hp⟩
  obtain ⟨y, ys, hys⟩ := List.exists_cons_of_ne_nil (List.ne_nil_of_mem hmem)
  have hy : y ∈ l.filter p := hys ▸ List.mem_cons_self
  exact ⟨y, _, (List.mem_filter.mp hy).2, by rw [bringForward, hys, List.cons_append]⟩

end Behind

/-! ### Rules that packets enter by -/

namespace Destination

/-- All rules of the destination are within the bound. -/
def Affordable (k : Int) (d : Destination) : Prop := ∀ o ∈ d.offers, (o.before : Int) ≤ k

/-- A rule of the destination within the bound gives the way into a router. -/
def LetsIn (k : Int) (r : RouterId) (t : Transition (Hop Nat) StackSymbol) (d : Destination) :
    Prop :=
  ∃ o ∈ d.offers, (o.before : Int) ≤ k ∧ o.enter r o.before = t

lemma LetsIn.exists_target {k : Int} {r : RouterId} {t : Transition (Hop Nat) StackSymbol}
    {d : Destination} (h : d.LetsIn k r t) :
    ∃ i as e, t.target = .at ⟨r, i⟩ as e ∧ (e : Int) ≤ k := by
  obtain ⟨o, -, hk, rfl⟩ := h
  exact ⟨_, _, _, rfl, hk⟩

lemma pairwise_offersBehind (d : Destination) (m : Nat) (gs : List Group) :
    (d.offersBehind m gs).Pairwise (·.before ≤ ·.before) := by
  induction gs generalizing m with
  | nil => exact List.Pairwise.nil
  | cons g gs ih =>
      rw [offersBehind]
      refine List.pairwise_append.mpr ⟨?_, ih _, fun o ho o' ho' => ?_⟩
      · exact List.pairwise_map.mpr (List.pairwise_of_forall fun _ _ => le_refl m)
      · obtain ⟨r, -, rfl⟩ := List.mem_map.mp ho
        obtain ⟨i, g', r', -, -, rfl⟩ := mem_offersBehind_iff.mp ho'
        show m ≤ m + g.length + _
        omega

/-- A rule within the bound stands behind rules within the bound only. -/
lemma behind_offers {k : Int} {d : Destination} {o : Offer} (ho : o ∈ d.offers)
    (hk : (o.before : Int) ≤ k) : Behind (fun o => (o.before : Int) ≤ k) d.offers o := by
  obtain ⟨xs, ys, hsplit⟩ := List.append_of_mem ho
  have hascending := d.pairwise_offersBehind 0 d.groups
  rw [← offers, hsplit] at hascending
  refine ⟨xs, ys, hsplit, fun o' ho' => ?_⟩
  have hle := (List.pairwise_append.mp hascending).2.2 o' ho' o List.mem_cons_self
  omega

end Destination

namespace Network

variable {n n' : Network} {k : Int} {M : Pda (Hop Nat) StackSymbol}
  {t : Transition (Hop Nat) StackSymbol}

/-- All destinations that stand before one at an endpoint have only rules within the bound. -/
def ReachedAt (n : Network) (k : Int) (p : Endpoint) (d : Destination) : Prop :=
  Behind (Destination.Affordable k) (n.destinationsAt p) d

/-- All destinations at an endpoint, in tables of its router that stand before one, have only rules
within the bound. -/
def TableReachedAt (n : Network) (k : Int) (p : Endpoint) (b : Table) : Prop :=
  Behind (fun b => ∀ d ∈ b.destinationsFrom p.interface, d.Affordable k)
    (n.tables.filter (·.router.id = p.router)) b

lemma reachedAt_iff {p : Endpoint} {d : Destination} :
    n.ReachedAt k p d ↔ ∃ b, n.TableReachedAt k p b ∧
      Behind (Destination.Affordable k) (b.destinationsFrom p.interface) d :=
  behind_flatMap_iff

/-- **The ways into a network** are the rules within the bound of the destinations that are
reached. -/
lemma mem_underEntries_iff : t ∈ n.underEntries k ↔
    ∃ p ∈ n.endpoints, ∃ d, n.ReachedAt k p d ∧ d.LetsIn k p.router t := by
  simp only [underEntries, List.mem_flatMap, List.mem_map, mem_takeWhile_iff_behind, offersAt,
    behind_flatMap_iff, decide_eq_true_eq]
  refine exists_congr fun p => and_congr_right fun _ => ?_
  constructor
  · rintro ⟨o, ⟨hk, d, hd, ho⟩, rfl⟩
    exact ⟨d, hd, o, ho.mem, hk, rfl⟩
  · rintro ⟨d, hd, o, ho, hk, rfl⟩
    exact ⟨o, ⟨hk, d, hd, Destination.behind_offers ho hk⟩, rfl⟩

lemma source_of_mem_underEntries (ht : t ∈ n.underEntries k) : t.source = .start := by
  obtain ⟨p, -, d, -, o, -, -, rfl⟩ := mem_underEntries_iff.mp ht
  rfl

/-- The transitions from in front of a network are the ways into it. -/
lemma mem_transitions_iff_of_source (hM : n.underForwarding k = .ok M) (ht : t.source = .start) :
    t ∈ M.transitions ↔ t ∈ n.underEntries k := by
  constructor
  · intro h
    rcases (mem_transitions_forwarding_iff hM).mp h with
      hmove | ⟨p, cs, e, a, bs, o, -, -, -, rfl⟩ | hexit
    · refine (List.mem_append.mp hmove).resolve_right fun hcross => ?_
      obtain ⟨spent, -, hcross⟩ := List.mem_flatMap.mp hcross
      simp only [underCrossings, List.mem_flatMap, List.mem_map] at hcross
      obtain ⟨⟨left, arrived⟩, -, o, -, rfl⟩ := hcross
      exact absurd ht (by simp [Offer.cross, Transition.plain])
    · exact absurd ht (by simp [actStep, Transition.plain])
    · obtain ⟨p, -, spent, -, rfl⟩ := mem_underExits_iff.mp hexit
      exact absurd ht (by simp [exit, Transition.plain])
  · intro h
    exact (mem_transitions_forwarding_iff hM).mpr (.inl (List.mem_append_left _ h))

end Network

/-! ### All rules within the bound -/

/-- The way into the network by a rule that packets meet, with as many failures spent as rules stand
in earlier groups. -/
def Use.entry (u : Use) : Transition (Hop Nat) StackSymbol :=
  u.offer.enter u.arrived.router u.earlier.length

namespace Network

variable {n n' : Network} {k : Int} {M : Pda (Hop Nat) StackSymbol}
  {t : Transition (Hop Nat) StackSymbol}

/-- Packets can enter by a rule for them exactly if at most `k` rules stand in earlier groups. -/
def EntersAffordable (n : Network) (k : Int) (M : Pda (Hop Nat) StackSymbol) : Prop :=
  ∀ u, n.Meets u → u.arrived ∈ n.endpoints →
    (u.entry ∈ M.transitions ↔ (u.earlier.length : Int) ≤ k)

/-- Every way into the network by a rule within the bound is also one by a rule of a destination
that is reached. -/
def EntersInTime (n : Network) (k : Int) : Prop :=
  ∀ p ∈ n.endpoints, ∀ d ∈ n.destinationsAt p, ∀ t, d.LetsIn k p.router t →
    ∃ q ∈ n.endpoints, ∃ e, n.ReachedAt k q e ∧ e.LetsIn k q.router t

lemma Meets.letsIn {u : Use} (hu : n.Meets u) (hk : (u.earlier.length : Int) ≤ k) :
    u.destination.LetsIn k u.arrived.router u.entry := by
  obtain ⟨-, g, hg, hr⟩ := hu
  exact ⟨u.offer, Destination.mem_offers_iff.mpr ⟨u.group, g, u.rule, hg, hr, rfl⟩, hk, rfl⟩

/-- A destination only lets packets in by rules that they meet. -/
lemma exists_meets_of_letsIn {p : Endpoint} {d : Destination} (hd : d ∈ n.destinationsAt p)
    (h : d.LetsIn k p.router t) : ∃ u, n.Meets u ∧ u.arrived = p ∧ u.destination = d ∧
      (u.earlier.length : Int) ≤ k ∧ u.entry = t := by
  obtain ⟨o, ho, hk, rfl⟩ := h
  obtain ⟨i, g, r, hg, hr, rfl⟩ := Destination.mem_offers_iff.mp ho
  exact ⟨⟨p, d, i, r⟩, ⟨hd, g, hg, hr⟩, rfl, rfl, hk, rfl⟩

lemma entersAffordable_iff (hM : n.underForwarding k = .ok M) :
    n.EntersAffordable k M ↔ n.EntersInTime k := by
  constructor
  · intro h p hp d hd t ht
    obtain ⟨u, hu, rfl, rfl, hk, rfl⟩ := exists_meets_of_letsIn hd ht
    have hentry := (h u hu hp).mpr hk
    exact mem_underEntries_iff.mp ((mem_transitions_iff_of_source hM rfl).mp hentry)
  · intro h u hu hp
    rw [mem_transitions_iff_of_source hM rfl, mem_underEntries_iff]
    constructor
    · rintro ⟨q, -, d, -, ht⟩
      obtain ⟨i, as, e, htarget, he⟩ := ht.exists_target
      obtain ⟨-, -, rfl⟩ := Hop.at.inj htarget
      exact he
    · intro hk
      exact h u.arrived hp u.destination hu.1 u.entry (hu.letsIn hk)

/-! ### The order of destinations -/

/-- The destinations of tables are put in another order. -/
structure Reorders (n n' : Network) : Prop where
  routers : n'.routers = n.routers
  links : n'.links = n.links
  tables : List.Forall₂
    (fun b b' => b'.router = b.router ∧ b'.destinations.Perm b.destinations) n.tables n'.tables

/-- However the destinations of tables are put in order, there is an automaton with the same
transitions. -/
def IgnoresOrder (n : Network) (k : Int) (M : Pda (Hop Nat) StackSymbol) : Prop :=
  ∀ n', n.Reorders n' → ∃ M', n'.underForwarding k = .ok M' ∧
    ∀ t, t ∈ M'.transitions ↔ t ∈ M.transitions

/-- A destination at an endpoint, in a table that is reached there, gives the way in. -/
def EntersPossibly (n : Network) (k : Int) (t : Transition (Hop Nat) StackSymbol) : Prop :=
  ∃ p ∈ n.endpoints, ∃ b, n.TableReachedAt k p b ∧
    ∃ d ∈ b.destinationsFrom p.interface, d.LetsIn k p.router t

/-- A destination at an endpoint, in a table that is reached there, gives the way in, and so do all
destinations there that have a rule out of bounds. -/
def EntersSurely (n : Network) (k : Int) (t : Transition (Hop Nat) StackSymbol) : Prop :=
  ∃ p ∈ n.endpoints, ∃ b, n.TableReachedAt k p b ∧
    (∃ d ∈ b.destinationsFrom p.interface, d.LetsIn k p.router t) ∧
    ∀ d ∈ b.destinationsFrom p.interface, ¬ d.Affordable k → d.LetsIn k p.router t

lemma Reorders.refl (n : Network) : n.Reorders n :=
  ⟨rfl, rfl, List.forall₂_same.mpr fun _ _ => ⟨rfl, .refl _⟩⟩

lemma Reorders.symm (h : n.Reorders n') : n'.Reorders n :=
  ⟨h.routers.symm, h.links.symm, (h.tables.imp fun _ _ hb => ⟨hb.1.symm, hb.2.symm⟩).flip⟩

lemma Reorders.endpoints_eq (h : n.Reorders n') : n'.endpoints = n.endpoints := by
  rw [endpoints, endpoints, h.routers]

/-- The tables of a router, with their destinations at an endpoint. -/
lemma Reorders.tablesAt (h : n.Reorders n') (p : Endpoint) :
    List.Forall₂ (fun b b' => ∀ d, d ∈ b'.destinationsFrom p.interface ↔
        d ∈ b.destinationsFrom p.interface)
      (n.tables.filter (·.router.id = p.router)) (n'.tables.filter (·.router.id = p.router)) := by
  have hfilter := List.rel_filter (p := fun b : Table => decide (b.router.id = p.router))
    (q := fun b : Table => decide (b.router.id = p.router)) (fun b b' hb => by simp [hb.1]) h.tables
  refine hfilter.imp fun b b' hb d => ?_
  simp only [Table.destinationsFrom, List.mem_filter, hb.2.mem_iff]

lemma Reorders.exists_tableReachedAt (h : n.Reorders n') {p : Endpoint} {b : Table}
    (hb : n.TableReachedAt k p b) : ∃ b', n'.TableReachedAt k p b' ∧
      ∀ d, d ∈ b'.destinationsFrom p.interface ↔ d ∈ b.destinationsFrom p.interface := by
  obtain ⟨b', hsame, hb'⟩ := hb.of_forall₂ (h.tablesAt p) fun c c' hsame hc d hd =>
    hc d ((hsame d).mp hd)
  exact ⟨b', hb', hsame⟩

lemma Reorders.mem_destinationsAt (h : n.Reorders n') {p : Endpoint} {d : Destination}
    (hd : d ∈ n.destinationsAt p) : d ∈ n'.destinationsAt p := by
  obtain ⟨b, hb, hd⟩ := List.mem_flatMap.mp hd
  obtain ⟨b', hsame, hb'⟩ := (behind_of_forall (fun _ _ => trivial) hb).of_forall₂ (h.tablesAt p)
    fun _ _ _ _ => trivial
  exact List.mem_flatMap.mpr ⟨b', hb'.mem, (hsame d).mpr hd⟩

lemma Reorders.mem_offersAt_iff (h : n.Reorders n') {p : Endpoint} {o : Offer} :
    o ∈ n'.offersAt p ↔ o ∈ n.offersAt p := by
  rw [offersAt, offersAt, List.mem_flatMap, List.mem_flatMap]
  constructor
  · rintro ⟨d, hd, ho⟩
    exact ⟨d, h.symm.mem_destinationsAt hd, ho⟩
  · rintro ⟨d, hd, ho⟩
    exact ⟨d, h.mem_destinationsAt hd, ho⟩

/-- Only the ways into the network depend on the order of destinations. -/
lemma ignoresOrder_iff_entries (hM : n.underForwarding k = .ok M) :
    n.IgnoresOrder k M ↔
      ∀ n', n.Reorders n' → ∀ t, t ∈ n'.underEntries k ↔ t ∈ n.underEntries k := by
  constructor
  · intro h n' hn' t
    obtain ⟨M', hM', hsame⟩ := h n' hn'
    by_cases ht : t.source = .start
    · rw [← mem_transitions_iff_of_source hM' ht, ← mem_transitions_iff_of_source hM ht, hsame]
    · exact ⟨fun h => absurd (source_of_mem_underEntries h) ht,
        fun h => absurd (source_of_mem_underEntries h) ht⟩
  · intro h n' hn'
    have hcrossings : n'.crossings = n.crossings := by rw [crossings, crossings, hn'.links]
    have hmoves : ∀ t,
        t ∈ n'.underEntries k ++ (List.range (k + 1).toNat).flatMap (n'.underCrossings k) ↔
        t ∈ n.underEntries k ++ (List.range (k + 1).toNat).flatMap (n.underCrossings k) := by
      intro t
      simp only [List.mem_append, h n' hn' t, List.mem_flatMap, underCrossings, hcrossings,
        List.mem_map, List.mem_filter, hn'.mem_offersAt_iff]
    have hexits : ∀ t : Transition (Hop Nat) StackSymbol,
        (t ∈ (List.range (k + 1).toNat).flatMap fun spent => n'.endpoints.map (exit · spent)) ↔
        t ∈ (List.range (k + 1).toNat).flatMap fun spent => n.endpoints.map (exit · spent) := by
      rw [hn'.endpoints_eq]
      exact fun _ => .rfl
    exact exists_forwarding_of_mem_iff hmoves hexits hM

/-- However the destinations are put in order, a way in that is sure is one. -/
lemma EntersSurely.mem_underEntries (h : n.EntersSurely k t) (hn' : n.Reorders n') :
    t ∈ n'.underEntries k := by
  obtain ⟨p, hp, b, hb, hsome, hall⟩ := h
  obtain ⟨b', hb', hsame⟩ := hn'.exists_tableReachedAt hb
  simp only [← hsame] at hsome hall
  obtain ⟨d, hd, hin⟩ := exists_behind hsome hall
  exact mem_underEntries_iff.mpr
    ⟨p, hn'.endpoints_eq ▸ hp, d, reachedAt_iff.mpr ⟨b', hb', hd⟩, hin⟩

lemma Reorders.entersPossibly (hn' : n.Reorders n') (h : t ∈ n'.underEntries k) :
    n.EntersPossibly k t := by
  obtain ⟨p, hp, d, hd, hin⟩ := mem_underEntries_iff.mp h
  obtain ⟨b', hb', hd⟩ := reachedAt_iff.mp hd
  obtain ⟨b, hb, hsame⟩ := hn'.symm.exists_tableReachedAt hb'
  exact ⟨p, hn'.endpoints_eq ▸ hp, b, hb, d, (hsame d).mpr hd.mem, hin⟩

/-! ### Destinations brought forward -/

/-- Some destinations of each table are brought forward. -/
def bringForward (f : Destination → Bool) (n : Network) : Network :=
  { n with tables := n.tables.map fun b =>
      { b with destinations := MplsReach.bringForward f b.destinations } }

lemma reorders_bringForward (f : Destination → Bool) (n : Network) :
    n.Reorders (n.bringForward f) :=
  ⟨rfl, rfl, List.forall₂_map_right_iff.mpr
    (List.forall₂_same.mpr fun _ _ => ⟨rfl, bringForward_perm f _⟩)⟩

/-- The destinations that are reached are reached among those brought forward. -/
lemma reachedAt_bringForward_iff {f : Destination → Bool} {p : Endpoint} {d : Destination} :
    (n.bringForward f).ReachedAt k p d ↔ ∃ b, n.TableReachedAt k p b ∧
      Behind (Destination.Affordable k)
        (MplsReach.bringForward f (b.destinationsFrom p.interface)) d := by
  have htable : ∀ b : Table, Table.destinationsFrom
      { b with destinations := MplsReach.bringForward f b.destinations } p.interface =
      MplsReach.bringForward f (b.destinationsFrom p.interface) := by
    intro b
    simp only [Table.destinationsFrom, MplsReach.bringForward, List.filter_append,
      List.filter_filter, Bool.and_comm]
  have htables : (n.bringForward f).tables.filter (·.router.id = p.router) =
      (n.tables.filter (·.router.id = p.router)).map fun b =>
        { b with destinations := MplsReach.bringForward f b.destinations } :=
    List.filter_map ..
  simp only [reachedAt_iff, TableReachedAt, htables, behind_map_iff, htable,
    (bringForward_perm f _).mem_iff]
  constructor
  · rintro ⟨_, ⟨b, hb, rfl⟩, hd⟩
    exact ⟨b, hb, htable b ▸ hd⟩
  · rintro ⟨b, hb, hd⟩
    exact ⟨_, ⟨b, hb, rfl⟩, (htable b).symm ▸ hd⟩

/-- A way in that is possible is one if its destination is brought forward. -/
lemma EntersPossibly.exists_reorders (h : n.EntersPossibly k t) :
    ∃ n', n.Reorders n' ∧ t ∈ n'.underEntries k := by
  obtain ⟨p, hp, b, hb, d, hd, hin⟩ := h
  refine ⟨n.bringForward (· = d), reorders_bringForward _ n, mem_underEntries_iff.mpr ?_⟩
  obtain ⟨e, es, he, hes⟩ := exists_bringForward_eq_cons (p := (· = d)) hd (by simp)
  obtain rfl : e = d := by simpa using he
  refine ⟨p, hp, e, reachedAt_bringForward_iff.mpr ⟨b, hb, ?_⟩, hin⟩
  rw [hes]
  exact behind_cons_iff.mpr (.inl rfl)

/-- A way in that is one in every order is sure: bring those destinations forward that have a rule
out of bounds and do not give it. -/
lemma entersSurely_of_forall (h : ∀ n', n.Reorders n' → t ∈ n'.underEntries k) :
    n.EntersSurely k t := by
  classical
  let f : Destination → Bool := fun e => ¬ e.Affordable k ∧ ∀ r, ¬ e.LetsIn k r t
  obtain ⟨p, hp, d, hd, hin⟩ := mem_underEntries_iff.mp (h _ (reorders_bringForward f n))
  obtain ⟨b, hb, hd⟩ := reachedAt_bringForward_iff.mp hd
  refine ⟨p, hp, b, hb, ⟨d, (bringForward_perm f _).mem_iff.mp hd.mem, hin⟩, fun e he hcostly => ?_⟩
  by_contra hnot
  have hf : f e = true := by
    refine decide_eq_true ⟨hcostly, fun r hr => hnot ?_⟩
    -- the router is that of the hop behind the way in
    obtain ⟨i, as, j, htarget, -⟩ := hin.exists_target
    obtain ⟨i', as', j', htarget', -⟩ := hr.exists_target
    obtain ⟨hrouter, -, -⟩ := Hop.at.inj (htarget'.symm.trans htarget)
    rw [Endpoint.mk.injEq] at hrouter
    exact hrouter.1 ▸ hr
  obtain ⟨e', es, hf', hes⟩ := exists_bringForward_eq_cons he hf
  obtain ⟨hcostly', hout⟩ := of_decide_eq_true hf'
  rw [hes] at hd
  rcases behind_cons_iff.mp hd with rfl | ⟨haffordable, -⟩
  · exact hout _ hin
  · exact hcostly' haffordable

lemma ignoresOrder_iff (hM : n.underForwarding k = .ok M) :
    n.IgnoresOrder k M ↔ ∀ t, n.EntersPossibly k t → n.EntersSurely k t := by
  rw [ignoresOrder_iff_entries hM]
  constructor
  · intro h t ht
    obtain ⟨n₁, hn₁, hmem⟩ := ht.exists_reorders
    exact entersSurely_of_forall fun n' hn' => (h n' hn' t).mpr ((h n₁ hn₁ t).mp hmem)
  · intro h n' hn' t
    constructor
    · intro ht
      exact (h t (hn'.entersPossibly ht)).mem_underEntries (.refl n)
    · intro ht
      exact (h t ((Reorders.refl n).entersPossibly ht)).mem_underEntries hn'

end Network

/-! ### The ways into a network -/

/-- **The rules that packets enter by.** With a bound on the whole way, packets enter by the rules
within the bound of those destinations that stand behind no destination with a rule out of bounds.
They can enter by all rules within the bound exactly if each is given in time; and the order of
destinations does not matter exactly if each rule that lets packets in in some order does so in
every order. -/
theorem underForwarding_entries_iff (n : Network) (k : Int) {M : Pda (Hop Nat) StackSymbol}
    (hM : n.underForwarding k = .ok M) :
    (∀ t : Transition (Hop Nat) StackSymbol, t.source = .start → (t ∈ M.transitions ↔
      ∃ u, n.Meets u ∧ u.arrived ∈ n.endpoints ∧ (u.earlier.length : Int) ≤ k ∧
        n.ReachedAt k u.arrived u.destination ∧ u.entry = t)) ∧
    (n.EntersAffordable k M ↔ n.EntersInTime k) ∧
    (n.IgnoresOrder k M ↔ ∀ t, n.EntersPossibly k t → n.EntersSurely k t) := by
  refine ⟨fun t ht => ?_, Network.entersAffordable_iff hM, Network.ignoresOrder_iff hM⟩
  rw [Network.mem_transitions_iff_of_source hM ht, Network.mem_underEntries_iff]
  constructor
  · rintro ⟨p, hp, d, hd, hin⟩
    obtain ⟨u, hu, rfl, rfl, hk, rfl⟩ := Network.exists_meets_of_letsIn hd.mem hin
    exact ⟨u, hu, hp, hk, hd, rfl⟩
  · rintro ⟨u, hu, hp, hk, hd, rfl⟩
    exact ⟨u.arrived, hp, u.destination, hd, hu.letsIn hk⟩

/-- Two destinations for the packets that arrive on the interface `i` of a router. There is a second
rule for the label `c`, and one rule for the label `a`. -/
def twoDestinations (directFirst : Bool) : Network :=
  let r : Router := ⟨⟨"", some "r"⟩, [⟨some "i", false⟩, ⟨some "j", false⟩]⟩
  let backed : Destination := ⟨some "i", .named "c", [[⟨some "j", []⟩], [⟨some "j", []⟩]]⟩
  let direct : Destination := ⟨some "i", .named "a", [[⟨some "j", [.swap (.named "b")]⟩]]⟩
  ⟨[r], [], [⟨r, if directFirst then [direct, backed] else [backed, direct]⟩]⟩

/-- The rule for the label `a`. -/
def directUse : Use :=
  ⟨⟨⟨"", some "r"⟩, some "i"⟩, ⟨some "i", .named "a", [[⟨some "j", [.swap (.named "b")]⟩]]⟩, 0,
    ⟨some "j", [.swap (.named "b")]⟩⟩

/-- With one failure all rules are within the bound, so that packets enter by all of them in every
order. -/
theorem underForwarding_entries_twoDestinations : ∃ M,
    (twoDestinations false).underForwarding 1 = .ok M ∧
      (twoDestinations false).EntersAffordable 1 M ∧
      (twoDestinations false).IgnoresOrder 1 M := by
  obtain ⟨M, hM⟩ : ∃ M, (twoDestinations false).underForwarding 1 = .ok M := ⟨_, rfl⟩
  have haffordable : ∀ p ∈ (twoDestinations false).endpoints,
      ∀ d ∈ (twoDestinations false).destinationsAt p, d.Affordable 1 := by
    unfold Destination.Affordable
    decide
  obtain ⟨-, henters, horder⟩ := underForwarding_entries_iff _ 1 hM
  refine ⟨M, hM, henters.mpr fun p hp d hd t hin => ?_, horder.mpr ?_⟩
  · exact ⟨p, hp, d, behind_of_forall (haffordable p hp) hd, hin⟩
  · rintro t ⟨p, hp, b, hb, hsome⟩
    refine ⟨p, hp, b, hb, hsome, fun d hd hcostly => absurd (haffordable p hp d ?_) hcostly⟩
    exact List.mem_flatMap.mpr ⟨b, hb.mem, hd⟩

/-- **A rule that is never looked at.** Without any failure, packets with the label `a` can enter
only if their destination stands before the one with a second rule. -/
theorem underForwarding_skips_twoDestinations : ∃ M,
    (twoDestinations false).underForwarding 0 = .ok M ∧
      ¬ (twoDestinations false).EntersAffordable 0 M ∧
      ¬ (twoDestinations false).IgnoresOrder 0 M := by
  obtain ⟨M, hM⟩ : ∃ M, (twoDestinations false).underForwarding 0 = .ok M := ⟨_, rfl⟩
  have hskipped : directUse.entry ∉ (twoDestinations false).underEntries 0 := by decide
  have hfirst : directUse.entry ∈ (twoDestinations true).underEntries 0 := by decide
  have hreorders : (twoDestinations false).Reorders (twoDestinations true) :=
    ⟨rfl, rfl, .cons ⟨rfl, .swap ..⟩ .nil⟩
  refine ⟨M, hM, fun h => hskipped ?_, fun h => hskipped ?_⟩
  · have hmeets : (twoDestinations false).Meets directUse :=
      ⟨by decide, _, rfl, List.mem_cons_self⟩
    exact (Network.mem_transitions_iff_of_source hM rfl).mp
      ((h directUse hmeets (by decide)).mpr (by decide))
  · exact ((Network.ignoresOrder_iff_entries hM).mp h _ hreorders _).mp hfirst

end MplsReach
