/-
Paths count routers.

While actions are done at a router, the automaton of a path stays where it is. A path says which
routers are passed, and not how many actions are done there.

* `Visit`: what a packet passes at one router: hops with actions left to do, and the hop by which it
  leaves.
* `Sketch.Waits`: an edge for a hop with actions left leads back to where it starts, and where a hop
  is read, all hops of its router with actions left are read as well.
* `Sketch.Waits.draw`: **whatever is drawn, sketches wait**.
* `Sketch.accepts_enclose_iff`: what is accepted between a first and a last symbol.
* `automatonBetween_visits_iff`: paths with and without the hops that have actions left are accepted
  alike.
-/
import MplsReach.Proofs.Drawing
import MplsReach.Proofs.Paths
import MplsReach.Proofs.Verdict

namespace MplsReach

variable {Spent : Type}

/-! ### Visits -/

/-- What a packet passes at a router: hops with actions left to do, then one with none left. -/
structure Visit (Spent : Type) where
  acting : List (Hop Spent)
  leaving : Hop Spent
  busy : ∀ h ∈ acting, h.isBusy = true
  idle : leaving.isBusy = false
  router_eq : ∀ h ∈ acting, h.routerName? = leaving.routerName?

namespace Visit

/-- The hops of a visit. -/
def hops (v : Visit Spent) : List (Hop Spent) := v.acting ++ [v.leaving]

lemma mem_hops_of_mem_acting {v : Visit Spent} {h : Hop Spent} (hh : h ∈ v.acting) : h ∈ v.hops :=
  List.mem_append_left _ hh

/-- Without the hops that have actions left, only the last one remains. -/
lemma filter_hops (v : Visit Spent) : v.hops.filter (!·.isBusy) = [v.leaving] := by
  have hacting : v.acting.filter (!·.isBusy) = [] :=
    List.filter_eq_nil_iff.mpr fun h hh => by simp [v.busy h hh]
  rw [hops, List.filter_append, hacting, List.nil_append]
  simp [v.idle]

lemma filter_flatMap_hops (vs : List (Visit Spent)) :
    (vs.flatMap hops).filter (!·.isBusy) = vs.map leaving := by
  induction vs with
  | nil => rfl
  | cons v vs ih =>
      rw [List.flatMap_cons, List.filter_append, filter_hops, ih]
      rfl

end Visit

lemma Hop.routerName?_isSome_of_isBusy {h : Hop Spent} (hb : h.isBusy = true) :
    h.routerName?.isSome = true := by
  cases h with
  | start => exact absurd hb (by simp [Hop.isBusy])
  | finish => exact absurd hb (by simp [Hop.isBusy])
  | «at» => rfl

namespace Query

/-! ### Whole routers -/

/-- With a hop, all hops of its router are there. -/
def WholeRouters (D as : List (Hop Spent)) : Prop :=
  ∀ a ∈ as, ∀ b ∈ D, b.routerName? = a.routerName? → b ∈ as

lemma WholeRouters.append {D as bs : List (Hop Spent)} (ha : WholeRouters D as)
    (hb : WholeRouters D bs) : WholeRouters D (as ++ bs) := by
  intro a hmem b hbD hname
  rcases List.mem_append.mp hmem with hmem | hmem
  · exact List.mem_append_left _ (ha a hmem b hbD hname)
  · exact List.mem_append_right _ (hb a hmem b hbD hname)

/-- A name stands for all hops of a router, and brings no new ones. -/
lemma Alphabet.wholeRouters_of_lookup {D E as : List (Hop Spent)} {name : String}
    (h : Alphabet.hops.lookup D name = .ok (E, as)) : E = D ∧ WholeRouters D as := by
  simp only [Alphabet.hops] at h
  split at h
  · exact absurd h (by simp)
  · obtain ⟨rfl, rfl⟩ := Prod.mk.inj (Except.ok.inj h)
    refine ⟨rfl, fun a ha b hb hname => List.mem_filter.mpr ⟨hb, ?_⟩⟩
    rw [hname]
    exact (List.mem_filter.mp ha).2

/-- Routers are excluded with all their hops. -/
lemma Alphabet.wholeRouters_of_others {D excluded as : List (Hop Spent)}
    (h : Alphabet.hops.others D excluded = .ok as) : WholeRouters D as := by
  obtain rfl := Except.ok.inj h
  intro a ha b hb hname
  refine List.mem_filter.mpr ⟨hb, ?_⟩
  rw [hname]
  exact (List.mem_filter.mp ha).2

/-! ### Sketches that wait -/

namespace Sketch

variable {D : List (Hop Spent)} {s t : Sketch (Hop Spent)} {source target : ℕ}

/-- An edge for a hop with actions left leads back to where it starts. Where a hop is read, all hops
of its router with actions left are read as well. -/
structure Waits (D : List (Hop Spent)) (s : Sketch (Hop Spent)) : Prop where
  domain_eq : s.domain = D
  target_eq : ∀ e ∈ s.edges, ∀ h, e.symbol = some h → h.isBusy = true → e.target = e.source
  loop_mem : ∀ e ∈ s.edges, ∀ h, e.symbol = some h → ∀ b ∈ D, b.isBusy = true →
    b.routerName? = h.routerName? → ⟨e.source, some b, e.source⟩ ∈ s.edges

lemma waits_blank (D : List (Hop Spent)) (size : ℕ) : Waits D (.blank D size) :=
  ⟨rfl, fun _ he => absurd he List.not_mem_nil, fun _ he => absurd he List.not_mem_nil⟩

/-- Edges for all hops of some routers. -/
lemma Waits.place (h : Waits D s) {as : List (Hop Spent)} (has : WholeRouters D as) :
    Waits D (s.place Alphabet.hops source target as) where
  domain_eq := h.domain_eq
  target_eq e he a ha hbusy := by
    rcases List.mem_append.mp he with he | he
    · exact h.target_eq e he a ha hbusy
    · obtain ⟨b, -, rfl⟩ := List.mem_map.mp he
      obtain rfl := Option.some.inj ha
      simp [Alphabet.hops, hbusy]
  loop_mem e he a ha b hb hbusy hname := by
    rcases List.mem_append.mp he with he | he
    · exact List.mem_append_left _ (h.loop_mem e he a ha b hb hbusy hname)
    · -- the hop of the loop is one of those that the edges are for
      obtain ⟨c, hc, rfl⟩ := List.mem_map.mp he
      obtain rfl := Option.some.inj ha
      refine List.mem_append_right _ (List.mem_map.mpr ⟨b, has c hc b hb hname, ?_⟩)
      simp [Alphabet.hops, hbusy]

lemma Waits.silent (h : Waits D s) (x y : ℕ) : Waits D (s.silent x y) where
  domain_eq := h.domain_eq
  target_eq e he a ha hbusy := by
    rcases List.mem_append.mp he with he | he
    · exact h.target_eq e he a ha hbusy
    · rw [List.mem_singleton.mp he] at ha
      exact absurd ha (by simp)
  loop_mem e he a ha b hb hbusy hname := by
    rcases List.mem_append.mp he with he | he
    · exact List.mem_append_left _ (h.loop_mem e he a ha b hb hbusy hname)
    · rw [List.mem_singleton.mp he] at ha
      exact absurd ha (by simp)

lemma Waits.repeated (h : Waits D s) (q : Quantifier) :
    Waits D (s.repeated source target q) := by
  cases q with
  | zeroOrMore => exact (h.silent _ _).silent _ _
  | oneOrMore => exact h.silent _ _
  | zeroOrOne => exact h.silent _ _

lemma Waits.meaning (h : Waits D s) {x : Symbol} {as : List (Hop Spent)}
    (hx : s.meaning Alphabet.hops x = .ok (t, as)) : Waits D t ∧ WholeRouters D as := by
  cases x with
  | tuple => exact absurd hx (by simp [Sketch.meaning])
  | simple word =>
      obtain ⟨⟨E, bs⟩, hlookup, hx⟩ := exists_of_bind_eq_ok hx
      obtain ⟨rfl, rfl⟩ := Prod.mk.inj (Except.ok.inj hx)
      obtain ⟨rfl, has⟩ := Alphabet.wholeRouters_of_lookup hlookup
      exact ⟨⟨h.domain_eq, h.target_eq, h.loop_mem⟩, h.domain_eq ▸ has⟩

lemma Waits.meanings (h : Waits D s) {xs : List Symbol} {as : List (Hop Spent)}
    (hxs : Sketch.meanings Alphabet.hops s xs = .ok (t, as)) : Waits D t ∧ WholeRouters D as := by
  induction xs generalizing s as with
  | nil =>
      obtain ⟨rfl, rfl⟩ := Prod.mk.inj (Except.ok.inj hxs)
      exact ⟨h, fun _ ha => absurd ha List.not_mem_nil⟩
  | cons x xs ih =>
      obtain ⟨⟨u, bs⟩, hx, hxs⟩ := exists_of_bind_eq_ok hxs
      obtain ⟨⟨v, cs⟩, hrest, hxs⟩ := exists_of_bind_eq_ok hxs
      obtain ⟨rfl, rfl⟩ := Prod.mk.inj (Except.ok.inj hxs)
      obtain ⟨hu, hbs⟩ := h.meaning hx
      obtain ⟨hv, hcs⟩ := ih hu hrest
      exact ⟨hv, hbs.append hcs⟩

variable [DecidableEq Spent]

lemma Waits.drawSequence {as : List Atom}
    (ih : ∀ a ∈ as, ∀ {source target : ℕ} {s t : Sketch (Hop Spent)}, Waits D s →
      Sketch.draw Alphabet.hops s source target a = .ok t → Waits D t)
    (h : Waits D s) (hs : Sketch.drawSequence Alphabet.hops s source target as = .ok t) :
    Waits D t := by
  induction as generalizing source s with
  | nil => exact absurd hs (by simp [Sketch.drawSequence])
  | cons a as ihs =>
      cases as with
      | nil =>
          rw [Sketch.drawSequence] at hs
          exact ih a List.mem_cons_self h hs
      | cons b bs =>
          rw [Sketch.drawSequence] at hs
          obtain ⟨u, ha, hs⟩ := exists_of_bind_eq_ok hs
          have hnext : Waits D { s with size := s.size + 1 } :=
            ⟨h.domain_eq, h.target_eq, h.loop_mem⟩
          exact ihs (fun c hc => ih c (List.mem_cons_of_mem a hc))
            (ih a List.mem_cons_self hnext ha) hs

/-- **Whatever is drawn**, a sketch that waits still does. -/
lemma Waits.draw (h : Waits D s) {a : Atom}
    (hs : Sketch.draw Alphabet.hops s source target a = .ok t) : Waits D t := by
  induction a using Atom.ind generalizing source target s t with
  | simple x =>
      rw [Sketch.draw] at hs
      obtain ⟨⟨u, as⟩, hx, hs⟩ := exists_of_bind_eq_ok hs
      obtain rfl := Except.ok.inj hs
      obtain ⟨hu, has⟩ := h.meaning hx
      exact hu.place has
  | any =>
      rw [Sketch.draw] at hs
      obtain ⟨as, has, hs⟩ := exists_of_bind_eq_ok hs
      obtain rfl := Except.ok.inj hs
      exact h.place (h.domain_eq ▸ Alphabet.wholeRouters_of_others has)
  | positiveSet xs =>
      rw [Sketch.draw] at hs
      obtain ⟨⟨u, as⟩, hxs, hs⟩ := exists_of_bind_eq_ok hs
      obtain rfl := Except.ok.inj hs
      obtain ⟨hu, has⟩ := h.meanings hxs
      refine hu.place fun a ha b hb hname => (Text.mem_distinct b as).mpr ?_
      exact has a ((Text.mem_distinct a as).mp ha) b hb hname
  | negativeSet xs =>
      rw [Sketch.draw] at hs
      obtain ⟨⟨u, as⟩, hxs, hs⟩ := exists_of_bind_eq_ok hs
      obtain ⟨bs, hbs, hs⟩ := exists_of_bind_eq_ok hs
      obtain rfl := Except.ok.inj hs
      obtain ⟨hu, -⟩ := h.meanings hxs
      exact hu.place (hu.domain_eq ▸ Alphabet.wholeRouters_of_others hbs)
  | sequence as ih =>
      rw [Sketch.draw] at hs
      exact Waits.drawSequence (fun a ha => ih a ha) h hs
  | alternative l r ihl ihr =>
      rw [Sketch.draw] at hs
      obtain ⟨u, hl, hr⟩ := exists_of_bind_eq_ok hs
      exact ihr (ihl h hl) hr
  | quantified a q ih =>
      rw [Sketch.draw] at hs
      obtain ⟨u, ha, hs⟩ := exists_of_bind_eq_ok hs
      obtain rfl := Except.ok.inj hs
      exact (ih h ha).repeated q

/-! ### Paths of sketches that wait -/

variable {i f : ℕ}

/-- Hops with actions left may be left out. -/
lemma Waits.path_filter (h : Waits D s) {q r : ℕ} {w : List (Hop Spent)}
    (hp : (s.finish i f).Path q w r) : (s.finish i f).Path q (w.filter (!·.isBusy)) r := by
  induction hp with
  | refl q => exact .refl q
  | silent he _ ih => exact .silent he ih
  | @read p q r a w he _ ih =>
      cases hbusy : a.isBusy with
      | true =>
          obtain rfl : q = p := h.target_eq _ he a rfl hbusy
          rw [List.filter_cons_of_neg (by simp [hbusy])]
          exact ih
      | false =>
          rw [List.filter_cons_of_pos (by simp [hbusy])]
          exact .read he ih

/-- Before a hop is read, hops of its router with actions left may be read. -/
lemma Waits.path_acting (h : Waits D s) {e : Edge ℕ (Hop Spent)} (he : e ∈ s.edges)
    {a : Hop Spent} (ha : e.symbol = some a) {bs : List (Hop Spent)} (hD : ∀ b ∈ bs, b ∈ D)
    (hbusy : ∀ b ∈ bs, b.isBusy = true) (hname : ∀ b ∈ bs, b.routerName? = a.routerName?) :
    (s.finish i f).Path e.source bs e.source := by
  induction bs with
  | nil => exact .refl _
  | cons b bs ih =>
      obtain ⟨hb, hD⟩ := List.forall_mem_cons.mp hD
      obtain ⟨hbb, hbusy⟩ := List.forall_mem_cons.mp hbusy
      obtain ⟨hbn, hname⟩ := List.forall_mem_cons.mp hname
      exact .read (h.loop_mem e he a ha b hb hbb hbn) (ih hD hbusy hname)

/-- Visits are read where the hops by which packets leave are read. -/
lemma Waits.path_visits (h : Waits D s) {q r : ℕ} {vs : List (Visit Spent)}
    (hvs : ∀ v ∈ vs, ∀ a ∈ v.acting, a ∈ D)
    (hp : (s.finish i f).Path q (vs.map Visit.leaving) r) :
    (s.finish i f).Path q (vs.flatMap Visit.hops) r := by
  generalize hw : vs.map Visit.leaving = w at hp
  induction hp generalizing vs with
  | refl q =>
      obtain rfl := List.map_eq_nil_iff.mp hw
      exact .refl q
  | silent he _ ih => exact .silent he (ih hvs hw)
  | read he _ ih =>
      obtain ⟨v, vs', rfl, rfl, rfl⟩ := List.map_eq_cons_iff.mp hw
      obtain ⟨hv, hvs⟩ := List.forall_mem_cons.mp hvs
      have hacting := h.path_acting (i := i) (f := f) he rfl hv v.busy v.router_eq
      rw [List.flatMap_cons, Visit.hops, List.append_assoc]
      exact hacting.trans (.read he (ih hvs rfl))

end Sketch

/-! ### Between a first and a last symbol -/

section Enclose

variable {Sym : Type} {s : Sketch Sym} {i f : ℕ} {first last : Sym}

lemma Sketch.mem_edges_enclose {e : Edge ℕ Sym} :
    e ∈ (s.enclose i f first last).edges ↔
      e ∈ s.edges ∨ e = ⟨s.size, some first, i⟩ ∨ e = ⟨f, some last, s.size + 1⟩ := by
  simp [Sketch.enclose]

variable [DecidableEq Sym]

/-- Behind the last symbol there is nowhere to go. -/
lemma Sketch.path_enclose_end (hs : ∀ e ∈ s.edges, e.source < s.size ∧ e.target < s.size)
    (hf : f < s.size) {x y r : ℕ} {w : List Sym}
    (h : ((s.enclose i f first last).finish x y).Path (s.size + 1) w r) : w = [] := by
  have hout : ∀ e ∈ (s.enclose i f first last).edges, e.source ≠ s.size + 1 := by
    intro e he
    rcases Sketch.mem_edges_enclose.mp he with he | rfl | rfl
    · have := (hs e he).1
      omega
    · exact Nat.ne_of_lt (Nat.lt_succ_self s.size)
    · exact Nat.ne_of_lt (Nat.lt_succ_of_lt hf)
  cases h with
  | refl => rfl
  | silent he => exact absurd rfl (hout _ he)
  | read he => exact absurd rfl (hout _ he)

/-- The new end is reached by reading the last symbol at the old one. -/
lemma Sketch.path_enclose_last (hs : ∀ e ∈ s.edges, e.source < s.size ∧ e.target < s.size)
    (hf : f < s.size) {x y q : ℕ} (hq : q < s.size) {w : List Sym}
    (h : ((s.enclose i f first last).finish x y).Path q w (s.size + 1)) :
    ∃ v, w = v ++ [last] ∧ (s.finish i f).Path q v f := by
  generalize hr : s.size + 1 = r at h
  induction h with
  | refl => omega
  | silent he _ ih =>
      rcases Sketch.mem_edges_enclose.mp he with he | he | he
      · obtain ⟨v, rfl, hv⟩ := ih (hs _ he).2 hr
        exact ⟨v, rfl, .silent he hv⟩
      · exact absurd (congrArg Edge.symbol he) (by simp)
      · exact absurd (congrArg Edge.symbol he) (by simp)
  | read he hrest ih =>
      rcases Sketch.mem_edges_enclose.mp he with he | he | he
      · obtain ⟨v, rfl, hv⟩ := ih (hs _ he).2 hr
        exact ⟨_ :: v, rfl, .read he hv⟩
      · exact absurd (congrArg Edge.source he) (Nat.ne_of_lt hq)
      · cases he
        rw [Sketch.path_enclose_end hs hf hrest]
        exact ⟨[], rfl, .refl _⟩

/-- **What is accepted between a first and a last symbol** is what the sketch reads between its own
ends. -/
lemma Sketch.accepts_enclose_iff (hs : ∀ e ∈ s.edges, e.source < s.size ∧ e.target < s.size)
    (hi : i < s.size) (hf : f < s.size) {w : List Sym} :
    ((s.enclose i f first last).finish s.size (s.size + 1)).Accepts (first :: w ++ [last]) ↔
      (s.finish i f).Accepts w := by
  constructor
  · intro h
    have hsource : ∀ x q, ⟨s.size, x, q⟩ ∈ (s.enclose i f first last).edges →
        x = some first ∧ q = i := by
      intro x q he
      rcases Sketch.mem_edges_enclose.mp he with he | he | he
      · exact absurd (hs _ he).1 (Nat.lt_irrefl _)
      · obtain ⟨-, rfl, rfl⟩ := Edge.mk.inj he
        exact ⟨rfl, rfl⟩
      · exact absurd (congrArg Edge.source he) (Nat.ne_of_gt hf)
    cases h with
    | silent he => exact absurd (hsource _ _ he).1 (by simp)
    | read he hrest =>
        obtain ⟨-, rfl⟩ := hsource _ _ he
        obtain ⟨v, hv, hpath⟩ := Sketch.path_enclose_last hs hf hi hrest
        rw [List.append_cancel_right hv]
        exact hpath
  · intro h
    have hinner : ((s.enclose i f first last).finish s.size (s.size + 1)).Path i w f := by
      have hmap := h.map (f := id) (b := (s.enclose i f first last).finish s.size (s.size + 1))
        fun e he => by simpa [Sketch.finish, Sketch.enclose] using .inl he
      rwa [List.map_id] at hmap
    have hfirst : ((s.enclose i f first last).finish s.size (s.size + 1)).Path s.size [first] i :=
      .read (by simp [Sketch.finish, Sketch.enclose]) (.refl _)
    have hlast : ((s.enclose i f first last).finish s.size (s.size + 1)).Path f [last]
        (s.size + 1) :=
      .read (by simp [Sketch.finish, Sketch.enclose]) (.refl _)
    exact (hfirst.trans hinner).trans hlast

end Enclose

/-! ### Paths through routers -/

variable [DecidableEq Spent]

/-- The sketch of a path waits, and its edges are between its own locations. -/
lemma Alphabet.waits_sketch {D : List (Hop Spent)} {a : Option Atom} {s : Sketch (Hop Spent)}
    {i f : ℕ} (h : Alphabet.hops.sketch D a = .ok (s, i, f)) :
    s.Waits D ∧ (∀ e ∈ s.edges, e.source < s.size ∧ e.target < s.size) ∧ i < s.size ∧
      f < s.size := by
  cases a with
  | none =>
      obtain ⟨rfl, hends⟩ := Prod.mk.inj (Except.ok.inj h)
      obtain ⟨rfl, rfl⟩ := Prod.mk.inj hends
      exact ⟨Sketch.waits_blank D 1, fun _ he => absurd he List.not_mem_nil, Nat.one_pos,
        Nat.one_pos⟩
  | some a =>
      obtain ⟨t, ht, h⟩ := exists_of_bind_eq_ok h
      obtain ⟨rfl, hends⟩ := Prod.mk.inj (Except.ok.inj h)
      obtain ⟨rfl, rfl⟩ := Prod.mk.inj hends
      have hdrawn := Sketch.draw_drawn (Alphabet.closed_hops fun _ => True) a ht
      have hsize : 2 ≤ t.size := hdrawn.size_le
      obtain ⟨new, hnew, hmem⟩ := hdrawn.edges
      refine ⟨(Sketch.waits_blank D 2).draw ht, fun e he => ?_, by omega, by omega⟩
      rw [hnew] at he
      obtain ⟨hsource, htarget, -⟩ := hmem e (by simpa [Sketch.blank] using he)
      simp only [Between, Sketch.blank] at hsource htarget
      omega

/-- **Paths count routers.** Let an expression have an automaton over the hops of a pushdown
automaton, between its initial and its final location. A trace that visits routers, with any number
of hops with actions left in front of each hop by which a packet leaves, is accepted exactly if the
trace without the hops with actions left is. -/
theorem automatonBetween_visits_iff {Sym : Type} (p : Pda (Hop Spent) Sym) (a : Option Atom)
    {n : Nfa ℕ (Hop Spent)}
    (h : Alphabet.hops.automatonBetween (p.locations.filter (·.routerName?.isSome)) p.initial
      p.final a = .ok n) (vs : List (Visit Spent))
    (hvs : ∀ v ∈ vs, ∀ l ∈ v.hops, l ∈ p.locations) :
    n.Accepts (p.initial :: vs.flatMap Visit.hops ++ [p.final]) ↔
      n.Accepts (p.initial :: (vs.flatMap Visit.hops).filter (!·.isBusy) ++ [p.final]) := by
  obtain ⟨⟨s, i, f⟩, hs, h⟩ := exists_of_bind_eq_ok h
  obtain rfl := Except.ok.inj h
  obtain ⟨hwaits, hedges, hi, hf⟩ := Alphabet.waits_sketch hs
  rw [Sketch.accepts_enclose_iff hedges hi hf, Sketch.accepts_enclose_iff hedges hi hf]
  constructor
  · exact hwaits.path_filter
  · intro hp
    rw [Visit.filter_flatMap_hops] at hp
    refine hwaits.path_visits (fun v hv b hb => List.mem_filter.mpr ⟨?_, ?_⟩) hp
    · exact hvs v hv b (Visit.mem_hops_of_mem_acting hb)
    · exact Hop.routerName?_isSome_of_isBusy (v.busy b hb)

/-- A label is pushed at the router `r`, by which the packet leaves. -/
def pushingVisit : Visit Unit :=
  let port : Endpoint := ⟨⟨"", some "r"⟩, some "i"⟩
  ⟨[.at port [.push (.named "a")] ()], .at port [] (), by decide, rfl, by decide⟩

/-- Any routers, the router `r` behind them. -/
def anyThenRouter : Atom :=
  .sequence [.quantified .any .zeroOrMore, .simple (.simple ⟨.word, "r", 1, 1⟩)]

/-- The router is visited twice, and a label is pushed each time. -/
theorem automatonBetween_visits_pushing : ∃ p n, pushingRouter.overForwarding 0 = .ok p ∧
    Alphabet.hops.automatonBetween (p.locations.filter (·.routerName?.isSome)) p.initial p.final
      (some anyThenRouter) = .ok n ∧
    n.Accepts (p.initial :: [pushingVisit, pushingVisit].flatMap Visit.hops ++ [p.final]) := by
  refine ⟨_, _, rfl, rfl, ?_⟩
  refine (automatonBetween_visits_iff _ (some anyThenRouter) rfl _ (by decide)).mpr ?_
  exact .read (q := 0) (by decide) (.read (q := 2) (by decide) (.read (q := 1) (by decide)
    (.read (q := 4) (by decide) (.refl 4))))

end Query

end MplsReach
