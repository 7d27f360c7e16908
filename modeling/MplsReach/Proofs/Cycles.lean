/-
The check for routers that a run leaves twice.

* `repeatsRouter_eq_false_iff`: the check drops endpoints that come twice in a row and compares the
  routers of the others.
* `Place.isBehind`: behind the network; a run does not come back from there.
* `Network.AppliesIn`: a step of the whole applies a rule; `forwardings`: the steps that do.
* `Network.whole_cases`: what a step of the whole does to the endpoint that a packet is at.
* `Network.Hopping`: over a link and out by a rule.
* `Network.Routes`: the endpoints along a run are those that its rules lead to, each any number of
  times in a row, and the rules follow each other over links; `Network.routes_of_trail`: so it is
  along every run.
* `cycle_check_iff`: **what the check finds.** It finds the runs that leave a router twice, but for
  those that leave it by the same interface in a row, which a link between two interfaces of one
  router makes possible.
-/
import Mathlib.Data.List.Destutter
import MplsReach.Analysis.Cycle
import MplsReach.Proofs.Realization
import MplsReach.Proofs.Verdict

namespace MplsReach

/-! ### The check on a list of endpoints -/

lemma exists_destutter'_eq_cons (p : Endpoint) (ps : List Endpoint) :
    ∃ qs, ps.destutter' (· ≠ ·) p = p :: qs := by
  induction ps generalizing p with
  | nil => exact ⟨[], rfl⟩
  | cons q ps ih =>
      by_cases h : p ≠ q
      · exact ⟨_, List.destutter'_cons_pos _ h⟩
      · rw [List.destutter'_cons_neg _ h]
        exact ih p

/-- Behind an endpoint, and with routers that must not come again. -/
lemma repeatsAfter_eq_false_iff (p : Endpoint) (rs : List RouterId) (ps : List Endpoint) :
    repeatsAfter (some p) rs ps = false ↔ ∀ qs, ps.destutter' (· ≠ ·) p = p :: qs →
      (qs.map (·.router)).Nodup ∧ ∀ q ∈ qs, q.router ∉ rs := by
  induction ps generalizing p rs with
  | nil => simp [repeatsAfter]
  | cons q ps ih =>
      by_cases h : p = q
      · subst h
        rw [repeatsAfter, if_pos rfl, ih, List.destutter'_cons_neg _ (by simp)]
      · obtain ⟨qs, hqs⟩ := exists_destutter'_eq_cons q ps
        rw [repeatsAfter, if_neg (by simpa using h), List.destutter'_cons_pos _ h, hqs]
        by_cases hq : q.router ∈ rs
        · simp [hq]
        · have hrest := ih q (q.router :: rs)
          grind

/-- The check drops endpoints that come twice in a row and compares the routers of the others. -/
lemma repeatsRouter_eq_false_iff (ps : List Endpoint) :
    repeatsRouter ps = false ↔ ((ps.destutter (· ≠ ·)).map (·.router)).Nodup := by
  cases ps with
  | nil => simp [repeatsRouter, repeatsAfter]
  | cons p ps =>
      obtain ⟨qs, hqs⟩ := exists_destutter'_eq_cons p ps
      rw [List.destutter_cons', hqs, repeatsRouter, repeatsAfter, if_neg (by simp),
        if_neg (by simp), repeatsAfter_eq_false_iff]
      grind

lemma destutter_cons_self (p : Endpoint) (ps : List Endpoint) :
    (p :: p :: ps).destutter (· ≠ ·) = (p :: ps).destutter (· ≠ ·) := by
  rw [List.destutter_cons_cons, if_neg (by simp), List.destutter_cons']

lemma destutter_toList_append (x : Option Endpoint) {p : Endpoint} {ps qs : List Endpoint}
    (h : (p :: ps).destutter (· ≠ ·) = (p :: qs).destutter (· ≠ ·)) :
    (x.toList ++ p :: ps).destutter (· ≠ ·) = (x.toList ++ p :: qs).destutter (· ≠ ·) := by
  rw [List.destutter_cons', List.destutter_cons'] at h
  cases x with
  | none => exact h
  | some q =>
      by_cases hqp : q = p
      · subst hqp
        exact ((destutter_cons_self q ps).trans h).trans (destutter_cons_self q qs).symm
      · simp [List.destutter_cons_cons, hqp, h]

/-! ### Steps of the whole -/

/-- A transition of one automaton behind another is one of the two, or leads from the end of the
first to the start of the second. -/
lemma Pda.concat_cases {α β Sym : Type} [DecidableEq Sym] {p : Pda α Sym} {q : Pda β Sym}
    (hp : p.Plain) (hq : q.Plain) {kept : Option Side} {t : Transition (α ⊕ β) Sym}
    (ht : t ∈ (p.concat kept q).transitions) :
    (∃ t' ∈ p.transitions, t.source = .inl t'.source ∧ t.target = .inl t'.target ∧
      t.input = t'.input) ∨
    (∃ t' ∈ q.transitions, t.source = .inr t'.source ∧ t.target = .inr t'.target ∧
      t.input = t'.input) ∨
    (t.source = .inl p.final ∧ t.target = .inr q.initial) := by
  rcases Pda.mem_transitions_concat.mp ht with ⟨t', ht', rfl⟩ | ⟨t', ht', rfl⟩ | rfl
  · obtain ⟨t'', ht'', hsource, htarget, hinput, -⟩ :=
      (Pda.mem_copiedUnless hp _).mp ⟨t', ht', rfl, rfl, rfl, rfl⟩
    exact .inl ⟨t'', ht'', congrArg _ hsource.symm, congrArg _ htarget.symm, hinput.symm⟩
  · obtain ⟨t'', ht'', hsource, htarget, hinput, -⟩ :=
      (Pda.mem_copiedUnless hq _).mp ⟨t', ht', rfl, rfl, rfl, rfl⟩
    exact .inr (.inl ⟨t'', ht'', congrArg _ hsource.symm, congrArg _ htarget.symm, hinput.symm⟩)
  · exact .inr (.inr ⟨rfl, rfl⟩)

/-- A transition of an observed automaton enters it, reads nothing, or is one of its own. -/
lemma Pda.product_cases {Loc ν Sym : Type} [DecidableEq Loc] [DecidableEq ν] [DecidableEq Sym]
    {p : Pda Loc Sym} (hp : p.Plain) {a : Nfa ν Loc} {t : Transition (Option Loc × ν) Sym}
    (ht : t ∈ (p.product a).transitions) :
    (∃ q r, t.source = (none, q) ∧ t.target = (some p.initial, r)) ∨
    (∃ l q r, t.source = (l, q) ∧ t.target = (l, r) ∧ t.input = .any) ∨
    ∃ t' ∈ p.transitions, ∃ q r, t.source = (some t'.source, q) ∧
      t.target = (some t'.target, r) ∧ t.input = t'.input := by
  rcases Pda.mem_transitions_product.mp ht with
    ⟨e, -, -, rfl⟩ | ⟨e, -, -, l, -, rfl⟩ | ⟨e, -, t', ht', -, rfl⟩
  · exact .inl ⟨_, _, rfl, rfl⟩
  · exact .inr (.inl ⟨l, _, _, rfl, rfl, rfl⟩)
  · exact .inr (.inr ⟨t', ht', _, _, rfl, rfl, Transition.input_copied (hp t' ht')⟩)

/-- Whether a packet has left the network. -/
def Place.isBehind {Spent : Type} : Place Spent → Bool
  | .inl (.inr (some .finish, _)) => true
  | .inr _ => true
  | _ => false

/-- The steps of a run that lead to an endpoint by the label on top: rules are applied in them,
while actions are done and the path is read whatever is on top. -/
def forwardings (ts : List (Transition (Place Nat) StackSymbol)) :
    List (Transition (Place Nat) StackSymbol) :=
  ts.filter fun t => t.input ≠ .any && (Place.endpoint? t.target).isSome

lemma Place.endpoint?_of_isBehind {Spent : Type} {l : Place Spent} (h : l.isBehind = true) :
    Place.endpoint? l = none := by
  rcases l with (b | ⟨_ | _ | _ | ⟨p, as, e⟩, q⟩) | q
  case inl.inr.some.at => exact absurd h Bool.false_ne_true
  all_goals rfl

section Steps

variable {t : Transition (Place Nat) StackSymbol} {ts : List (Transition (Place Nat) StackSymbol)}

lemma endpointsOf_cons_of_none (h : Place.endpoint? t.target = none) :
    endpointsOf (t :: ts) = endpointsOf ts :=
  List.filterMap_cons_none h

lemma endpointsOf_cons_of_some {p : Endpoint} (h : Place.endpoint? t.target = some p) :
    endpointsOf (t :: ts) = p :: endpointsOf ts :=
  List.filterMap_cons_some h

lemma forwardings_cons_of_none (h : Place.endpoint? t.target = none) :
    forwardings (t :: ts) = forwardings ts :=
  List.filter_cons_of_neg (by simp [h])

lemma forwardings_cons_of_any (h : t.input = .any) : forwardings (t :: ts) = forwardings ts :=
  List.filter_cons_of_neg (by simp [h])

lemma forwardings_cons_of_some {p : Endpoint} (hinput : t.input ≠ .any)
    (h : Place.endpoint? t.target = some p) : forwardings (t :: ts) = t :: forwardings ts :=
  List.filter_cons_of_pos (by simp [hinput, h])

end Steps

/-- A step of the whole applies a rule in the network, wherever the path is read. -/
def Network.AppliesIn (n : Network) (t : Transition (Place Nat) StackSymbol) (u : Use) : Prop :=
  ∃ t' q r, n.Applies t' u ∧ t.source = .inl (.inr (some t'.source, q)) ∧
    t.target = .inl (.inr (some t'.target, r))

/-- Over a link from one endpoint, and out by another one as a rule behind at most `k` others
says. -/
def Network.Hopping (n : Network) (k : Int) (p q : Endpoint) : Prop :=
  ∃ u, n.Meets u ∧ (u.offer.before : Int) ≤ k ∧ (p, u.arrived) ∈ n.crossings ∧ u.left = q

namespace Network

variable {n : Network} {k : Int} {M : Pda (Hop Nat) StackSymbol} {a : Query.Automata Nat}
  {takeOver : Bool} {t : Transition (Place Nat) StackSymbol} {u : Use}

/-- A rule leads to the endpoint that packets leave by. -/
lemma AppliesIn.endpoint?_target (h : n.AppliesIn t u) :
    Place.endpoint? t.target = some u.left := by
  obtain ⟨t', q, r, happlies, -, htarget⟩ := h
  rw [htarget]
  cases happlies with
  | enter _ _ => rfl
  | cross _ _ => rfl

/-- A rule that is applied at an endpoint leads over a link from there. -/
lemma AppliesIn.hopping (h : n.AppliesIn t u) {p q : Endpoint} {as : List Action} {j r : Nat}
    (hsource : Place.endpoint? t.source = some p)
    (htarget : t.target = .inl (.inr (some (.at q as j), r))) (hj : (j : Int) ≤ k) :
    n.Hopping k p u.left := by
  obtain ⟨t', q', r', happlies, hsource', htarget'⟩ := h
  rw [hsource'] at hsource
  cases happlies with
  | enter _ _ => simp [Place.endpoint?, Offer.enter, Transition.plain] at hsource
  | @cross _ p' spent hmeets hcross =>
      obtain rfl : p' = p := Option.some.inj hsource
      have hcount : spent + u.offer.before = j := by
        have := htarget'.symm.trans htarget
        simp only [Sum.inl.injEq, Sum.inr.injEq, Prod.mk.injEq, Option.some.injEq] at this
        exact (Hop.at.inj this.1).2.2
      exact ⟨u, hmeets, by omega, hcross, rfl⟩

/-- A transition of the whole stays in front of the hops of the network, leads behind them, reads
nothing on the path, or is one of the network. -/
lemma whole_transition_cases (hM : n.underForwarding k = .ok M)
    (ht : t ∈ ((a.parts M).whole takeOver).transitions) :
    (Place.endpoint? t.source = none ∧ t.source.isBehind = false ∧
      Place.endpoint? t.target = none) ∨
    (∃ q, t.target = .inr q) ∨
    (∃ l q r, t.source = .inl (.inr (l, q)) ∧ t.target = .inl (.inr (l, r)) ∧ t.input = .any) ∨
    ∃ t' ∈ M.transitions, ∃ q r, t.source = .inl (.inr (some t'.source, q)) ∧
      t.target = .inl (.inr (some t'.target, r)) ∧ t.input = t'.input := by
  have hforwards := forwards_underForwarding hM
  rcases Pda.concat_cases (plain_front hforwards takeOver) Nfa.plain_remover ht with
    ⟨t₁, ht₁, hsource, htarget, hinput⟩ | ⟨t₁, -, -, htarget, -⟩ | ⟨-, htarget⟩
  · rw [hsource, htarget, hinput]
    rcases Pda.concat_cases Nfa.plain_builder (Pda.plain_product hforwards.plain) ht₁ with
      ⟨t₂, -, hsource, htarget, -⟩ | ⟨t₂, ht₂, hsource, htarget, hinput⟩ | ⟨hsource, htarget⟩
    · rw [hsource, htarget]
      exact .inl ⟨rfl, rfl, rfl⟩
    · rw [hsource, htarget, hinput]
      rcases Pda.product_cases hforwards.plain ht₂ with ⟨q, r, hsource, htarget⟩ |
        ⟨l, q, r, hsource, htarget, hinput⟩ | ⟨t', ht', q, r, hsource, htarget, hinput⟩
      · rw [hsource, htarget, hforwards.initial_eq]
        exact .inl ⟨rfl, rfl, rfl⟩
      · rw [hsource, htarget]
        exact .inr (.inr (.inl ⟨l, q, r, rfl, rfl, hinput⟩))
      · rw [hsource, htarget]
        exact .inr (.inr (.inr ⟨t', ht', q, r, rfl, rfl, hinput⟩))
    · rw [hsource, htarget]
      exact .inl ⟨rfl, rfl, rfl⟩
  · exact .inr (.inl ⟨_, htarget⟩)
  · exact .inr (.inl ⟨_, htarget⟩)

/-- The rules that are applied lead to the endpoints of the steps. -/
lemma map_left_eq {ts : List (Transition (Place Nat) StackSymbol)} {us : List Use}
    (h : List.Forall₂ n.AppliesIn ts us) : us.map (·.left) = endpointsOf ts := by
  induction h with
  | nil => rfl
  | cons hu _ ih => rw [List.map_cons, ih, endpointsOf_cons_of_some hu.endpoint?_target]

/-- **What a step of the whole does.** It stays in front of the hops of the network, or leads behind
them, where it stays; an action, or an edge that reads nothing, stays at an endpoint whatever is on
top; or a rule is applied within the bound. -/
lemma whole_cases (hM : n.underForwarding k = .ok M)
    (ht : t ∈ ((a.parts M).whole takeOver).transitions) :
    (Place.endpoint? t.source = none ∧ t.source.isBehind = false ∧
      Place.endpoint? t.target = none) ∨
    t.target.isBehind = true ∨
    (t.input = .any ∧ ∃ p, Place.endpoint? t.source = some p ∧ Place.endpoint? t.target = some p) ∨
    (t.input ≠ .any ∧ t.source.isBehind = false ∧ (∃ u, n.AppliesIn t u) ∧
      ∃ p as j r, t.target = .inl (.inr (some (.at p as j), r)) ∧ (j : Int) ≤ k) := by
  rcases whole_transition_cases hM ht with
    houtside | ⟨q, htarget⟩ | ⟨l, q, r, hsource, htarget, hinput⟩ |
    ⟨t', ht', q, r, hsource, htarget, hinput⟩
  · exact .inl houtside
  · rw [htarget]
    exact .inr (.inl rfl)
  · rw [hsource, htarget]
    rcases l with _ | _ | _ | ⟨p, as, j⟩
    · exact .inl ⟨rfl, rfl, rfl⟩
    · exact .inl ⟨rfl, rfl, rfl⟩
    · exact .inr (.inl rfl)
    · exact .inr (.inr (.inl ⟨hinput, p, rfl, rfl⟩))
  · rcases transition_cases hM ht' with ⟨hany, hfrom, p, as, j, hto, hj⟩ |
      ⟨hany, p, b, as, j, hfrom, hto, -⟩ | ⟨-, -, hto⟩
    · have happlies : ∃ u, n.AppliesIn t u := by
        obtain ⟨u, hu⟩ := exists_applies hM ht' hany
        exact ⟨u, t', q, r, hu, hsource, htarget⟩
      have hbefore : t.source.isBehind = false := by
        rw [hsource]
        obtain hfrom | ⟨p, j, hfrom⟩ := hfrom <;> rw [hfrom] <;> rfl
      rw [hto] at htarget
      exact .inr (.inr (.inr ⟨hinput ▸ hany, hbefore, happlies, p, as, j, r, htarget, hj⟩))
    · rw [hsource, htarget, hfrom, hto, hinput]
      exact .inr (.inr (.inl ⟨hany, p, rfl, rfl⟩))
    · rw [htarget, hto]
      exact .inr (.inl rfl)

/-! ### Runs of the whole -/

variable {c d : Config (Place Nat) StackSymbol} {ts : List (Transition (Place Nat) StackSymbol)}
  {us : List Use}

/-- Behind the network no rule is applied and no endpoint is come to. -/
lemma behind_of_trail (hM : n.underForwarding k = .ok M)
    (h : ((a.parts M).whole takeOver).Trail c ts d) (hc : c.location.isBehind = true) :
    endpointsOf ts = [] ∧ forwardings ts = [] := by
  induction h with
  | refl => exact ⟨rfl, rfl⟩
  | @step c d e t ts hfires _ ih =>
      obtain ⟨ht, b, w, -, rfl, rfl⟩ := hfires
      rcases whole_cases hM ht with ⟨-, hbefore, -⟩ | hbehind | ⟨-, p, hp, -⟩ | ⟨-, hbefore, -⟩
      · exact absurd (hbefore.symm.trans hc) (by decide)
      · obtain ⟨hendpoints, hforwardings⟩ := ih hbehind
        rw [endpointsOf_cons_of_none (Place.endpoint?_of_isBehind hbehind),
          forwardings_cons_of_none (Place.endpoint?_of_isBehind hbehind)]
        exact ⟨hendpoints, hforwardings⟩
      · exact absurd ((Place.endpoint?_of_isBehind hc).symm.trans hp) (by simp)
      · exact absurd (hbefore.symm.trans hc) (by decide)

/-- **The endpoints along a run** from an endpoint or from none are those that its rules lead to,
each any number of times in a row, and the rules follow each other over links. -/
structure Routes (n : Network) (k : Int) (before : Option Endpoint) (ps : List Endpoint)
    (us : List Use) : Prop where
  destutter_eq : (before.toList ++ ps).destutter (· ≠ ·) =
    (before.toList ++ us.map (·.left)).destutter (· ≠ ·)
  isChain : (before.toList ++ us.map (·.left)).IsChain (n.Hopping k)

lemma routes_nil (p : Option Endpoint) : n.Routes k p [] [] := by
  refine ⟨rfl, ?_⟩
  cases p <;> simp

/-- Staying at an endpoint lists it once more. -/
lemma Routes.stay {p : Endpoint} {ps : List Endpoint} (h : n.Routes k (some p) ps us) :
    n.Routes k (some p) (p :: ps) us :=
  ⟨(destutter_cons_self p ps).trans h.destutter_eq, h.isChain⟩

/-- A rule leads to an endpoint, over a link if it is from another one. -/
lemma Routes.cons {before : Option Endpoint} {ps : List Endpoint}
    (h : n.Routes k (some u.left) ps us) (hbefore : ∀ p, before = some p → n.Hopping k p u.left) :
    n.Routes k before (u.left :: ps) (u :: us) := by
  refine ⟨destutter_toList_append before h.destutter_eq, ?_⟩
  cases before with
  | none => exact h.isChain
  | some p => exact List.isChain_cons_cons.mpr ⟨hbefore p rfl, h.isChain⟩

/-- So it is along every run of the whole. -/
lemma routes_of_trail (hM : n.underForwarding k = .ok M)
    (h : ((a.parts M).whole takeOver).Trail c ts d)
    (hus : List.Forall₂ n.AppliesIn (forwardings ts) us) :
    n.Routes k (Place.endpoint? c.location) (endpointsOf ts) us := by
  induction h generalizing us with
  | refl =>
      cases hus
      exact routes_nil _
  | @step c d e t ts hfires htrail ih =>
      obtain ⟨ht, b, w, -, rfl, rfl⟩ := hfires
      rcases whole_cases hM ht with ⟨hsource, -, htarget⟩ | hbehind |
        ⟨hany, p, hsource, htarget⟩ | ⟨hany, -, -, p, as, j, r, htarget, hj⟩
      · rw [forwardings_cons_of_none htarget] at hus
        have hrest := ih hus
        rw [endpointsOf_cons_of_none htarget, hsource]
        rwa [htarget] at hrest
      · -- the network is left for good
        obtain ⟨hendpoints, hforwardings⟩ := behind_of_trail hM htrail hbehind
        have hnone := Place.endpoint?_of_isBehind hbehind
        rw [forwardings_cons_of_none hnone, hforwardings] at hus
        cases hus
        rw [endpointsOf_cons_of_none hnone, hendpoints]
        exact routes_nil _
      · rw [forwardings_cons_of_any hany] at hus
        have hrest := ih hus
        rw [endpointsOf_cons_of_some htarget, hsource]
        rw [htarget] at hrest
        exact hrest.stay
      · have hendpoint : Place.endpoint? t.target = some p := by
          rw [htarget]
          rfl
        rw [forwardings_cons_of_some hany hendpoint] at hus
        cases hus with
        | @cons _ u _ us hu hus =>
            obtain rfl := Option.some.inj (hendpoint.symm.trans hu.endpoint?_target)
            have hrest := ih hus
            rw [endpointsOf_cons_of_some hendpoint]
            rw [hendpoint] at hrest
            exact hrest.cons fun p hp => hu.hopping hp htarget hj

/-- The forwarding steps of a run of the whole apply rules. -/
lemma exists_appliesIn (hM : n.underForwarding k = .ok M)
    (h : ((a.parts M).whole takeOver).Trail c ts d) :
    ∃ us, List.Forall₂ n.AppliesIn (forwardings ts) us := by
  induction h with
  | refl => exact ⟨[], .nil⟩
  | @step c d e t ts hfires _ ih =>
      obtain ⟨us, hus⟩ := ih
      rcases whole_cases hM hfires.1 with ⟨-, -, htarget⟩ | hbehind | ⟨hany, -⟩ |
        ⟨hany, -, ⟨u, hu⟩, -⟩
      · rw [forwardings_cons_of_none htarget]
        exact ⟨us, hus⟩
      · rw [forwardings_cons_of_none (Place.endpoint?_of_isBehind hbehind)]
        exact ⟨us, hus⟩
      · rw [forwardings_cons_of_any hany]
        exact ⟨us, hus⟩
      · rw [forwardings_cons_of_some hany hu.endpoint?_target]
        exact ⟨u :: us, .cons hu hus⟩

end Network

/-- A link leads from an interface back to its own router, where a rule behind at most `k` others
leads to that interface again. -/
def Network.Returns (n : Network) (k : Int) : Prop := ∃ p, n.Hopping k p p

/-- Links between different routers do not lead back. -/
lemma Network.not_returns {n : Network} {k : Int}
    (h : ∀ l ∈ n.links, l.source.router ≠ l.target.router) : ¬ n.Returns k := by
  rintro ⟨p, u, -, -, hcross, rfl⟩
  obtain ⟨l, hl, ⟨hsource, htarget⟩ | ⟨htarget, hsource⟩⟩ := mem_crossings_iff.mp hcross
  · exact h l hl (by rw [hsource, htarget]; rfl)
  · exact h l hl (by rw [hsource, htarget]; rfl)

variable {n : Network} {k : Int} {M : Pda (Hop Nat) StackSymbol}

/-- **What the check for routers that are left twice finds.** Take any run of the automaton that is
composed of a network with a bound on the whole way and the automata of a query, from its start.
Each forwarding step of the run applies a rule. The check lets the run pass exactly if no router is
left twice when rules that lead out by the same endpoint in a row count once. No router is left
twice by the rules of the run exactly if the check lets it pass and no two rules in a row lead out
by the same endpoint. So the check is exact, unless a link leads from an interface back to its own
router, where a rule leads to that interface again. -/
theorem cycle_check_iff (hM : n.underForwarding k = .ok M) (a : Query.Automata Nat)
    (takeOver : Bool) {s : List StackSymbol} {ts : List (Transition (Place Nat) StackSymbol)}
    {c : Config (Place Nat) StackSymbol}
    (h : ((a.parts M).whole takeOver).Trail ⟨((a.parts M).whole takeOver).initial, s⟩ ts c) :
    (∃ us, List.Forall₂ n.AppliesIn (forwardings ts) us) ∧
    ∀ us, List.Forall₂ n.AppliesIn (forwardings ts) us →
      (repeatsRouter (endpointsOf ts) = false ↔
        (((us.map (·.left)).destutter (· ≠ ·)).map (·.router)).Nodup) ∧
      ((us.map (·.left.router)).Nodup ↔
        repeatsRouter (endpointsOf ts) = false ∧ (us.map (·.left)).IsChain (· ≠ ·)) ∧
      (¬ n.Returns k →
        (repeatsRouter (endpointsOf ts) = false ↔ (us.map (·.left.router)).Nodup)) := by
  refine ⟨Network.exists_appliesIn hM h, fun us hus => ?_⟩
  have hroutes : n.Routes k none (endpointsOf ts) us := Network.routes_of_trail hM h hus
  have hcheck : repeatsRouter (endpointsOf ts) = false ↔
      (((us.map (·.left)).destutter (· ≠ ·)).map (·.router)).Nodup := by
    have hdestutter : (endpointsOf ts).destutter (· ≠ ·) = (us.map (·.left)).destutter (· ≠ ·) :=
      hroutes.destutter_eq
    rw [repeatsRouter_eq_false_iff, hdestutter]
  have hnodup : (us.map (·.left.router)).Nodup ↔
      repeatsRouter (endpointsOf ts) = false ∧ (us.map (·.left)).IsChain (· ≠ ·) := by
    have hmap : us.map (·.left.router) = (us.map (·.left)).map (·.router) := by simp
    rw [hcheck, hmap]
    constructor
    · intro hrouters
      have hchain : (us.map (·.left)).IsChain (· ≠ ·) := hrouters.of_map.isChain
      rw [List.destutter_of_isChain _ _ hchain]
      exact ⟨hrouters, hchain⟩
    · rintro ⟨hrouters, hchain⟩
      rwa [List.destutter_of_isChain _ _ hchain] at hrouters
  refine ⟨hcheck, hnodup, fun hreturns => ?_⟩
  have hchain : (us.map (·.left)).IsChain (· ≠ ·) := by
    have hhopping : (us.map (·.left)).IsChain (n.Hopping k) := hroutes.isChain
    refine hhopping.imp fun p q hpq => ?_
    rintro rfl
    exact hreturns ⟨p, hpq⟩
  rw [hnodup, and_iff_left hchain]

/-! ### Runs that are followed -/

namespace Pda

variable {Loc Sym : Type} [DecidableEq Loc] [DecidableEq Sym]

/-- The transitions of given numbers. -/
def along (p : Pda Loc Sym) (is : List Nat) : List (Transition Loc Sym) :=
  is.filterMap (p.transitions[·]?)

/-- Where the transitions of given numbers lead to, one after the other, if they fire. -/
def follow? (p : Pda Loc Sym) (c : Config Loc Sym) : List Nat → Option (Config Loc Sym)
  | [] => some c
  | i :: is => do
    let t ← p.transitions[i]?
    let a ← c.stack.head?
    if t.source = c.location ∧ t.input.admits a = true then
      p.follow? ⟨t.target, t.op.apply a ++ c.stack.tail⟩ is
    else none

lemma trail_of_follow? {p : Pda Loc Sym} {c d : Config Loc Sym} {is : List Nat}
    (h : p.follow? c is = some d) : p.Trail c (p.along is) d := by
  induction is generalizing c with
  | nil =>
      obtain rfl := Option.some.inj h
      exact .refl c
  | cons i is ih =>
      obtain ⟨l, v⟩ := c
      simp only [follow?, Option.bind_eq_bind, Option.bind_eq_some_iff] at h
      obtain ⟨t, ht, a, ha, h⟩ := h
      obtain ⟨w, rfl⟩ := List.head?_eq_some_iff.mp ha
      split_ifs at h with hfires
      obtain ⟨rfl, hadmits⟩ := hfires
      rw [along, List.filterMap_cons_some ht]
      exact .step ⟨List.mem_of_getElem? ht, a, w, hadmits, rfl, rfl⟩ (ih h)

end Pda

/-- The query for packets that pass two routers. -/
def passing (label router router' label' : String) : Query :=
  let word (s : String) : Query.Atom := .simple (.simple ⟨.word, s, 1, 1⟩)
  ⟨some (word label), .sequence [word router, word router'], some (word label')⟩

/-- A router with two interfaces. -/
def twoSided (name : String) : Router := ⟨⟨"", some name⟩, [⟨some "i", false⟩, ⟨some "j", false⟩]⟩

/-- Packets pass the router `r`, where they get another label, and then the router `s`. -/
def twoHops : Network :=
  ⟨[twoSided "r", twoSided "s"], [⟨⟨(twoSided "r").id, some "j"⟩, ⟨(twoSided "s").id, some "i"⟩⟩],
    [⟨twoSided "r", [⟨some "i", .named "a", [[⟨some "j", [.swap (.named "b")]⟩]]⟩]⟩,
      ⟨twoSided "s", [⟨some "i", .named "b", [[⟨some "j", []⟩]]⟩]⟩]⟩

set_option synthInstance.maxSize 400 in
/-- A run through both routers, which does an action at the first, passes the check. -/
theorem cycle_check_twoHops : ∃ M a ts us, twoHops.underForwarding 0 = .ok M ∧
    (passing "a" "r" "s" "b").automata [.named "a", .named "b"] M = .ok a ∧
    ((a.parts M).whole true).Trail ⟨((a.parts M).whole true).initial, [.bottom]⟩ ts
      ⟨((a.parts M).whole true).final, [.bottom]⟩ ∧
    List.Forall₂ twoHops.AppliesIn (forwardings ts) us ∧ ¬ twoHops.Returns 0 ∧
    (endpointsOf ts).length = 3 ∧ repeatsRouter (endpointsOf ts) = false ∧
    (us.map (·.left.router)).Nodup := by
  have hrun : ∃ M a is, twoHops.underForwarding 0 = .ok M ∧
      (passing "a" "r" "s" "b").automata [.named "a", .named "b"] M = .ok a ∧
      ((a.parts M).whole true).follow? ⟨((a.parts M).whole true).initial, [.bottom]⟩ is =
        some ⟨((a.parts M).whole true).final, [.bottom]⟩ ∧
      (endpointsOf (((a.parts M).whole true).along is)).length = 3 ∧
      repeatsRouter (endpointsOf (((a.parts M).whole true).along is)) = false :=
    ⟨_, _, [1, 0, 2, 12, 3, 4, 5, 7, 11, 14, 13], rfl, rfl, by decide +kernel⟩
  obtain ⟨M, a, is, hM, ha, hfollow, hlength, hcheck⟩ := hrun
  have htrail := Pda.trail_of_follow? hfollow
  have hreturns : ¬ twoHops.Returns 0 := Network.not_returns (by decide)
  obtain ⟨⟨us, hus⟩, hall⟩ := cycle_check_iff hM a true htrail
  exact ⟨M, a, _, us, hM, ha, htrail, hus, hreturns, hlength, hcheck,
    ((hall us hus).2.2 hreturns).mp hcheck⟩

/-- Packets that leave the router come back to it. -/
def selfLinked : Network :=
  ⟨[twoSided "r"], [⟨⟨(twoSided "r").id, some "j"⟩, ⟨(twoSided "r").id, some "i"⟩⟩],
    [⟨twoSided "r", [⟨some "i", .named "a", [[⟨some "j", []⟩]]⟩]⟩]⟩

set_option synthInstance.maxSize 400 in
/-- A run that leaves a router twice by the same interface passes the check. -/
theorem selfLinked_passes : ∃ M a ts us, selfLinked.underForwarding 0 = .ok M ∧
    (passing "a" "r" "r" "a").automata [.named "a"] M = .ok a ∧
    ((a.parts M).whole true).Trail ⟨((a.parts M).whole true).initial, [.bottom]⟩ ts
      ⟨((a.parts M).whole true).final, [.bottom]⟩ ∧
    List.Forall₂ selfLinked.AppliesIn (forwardings ts) us ∧
    repeatsRouter (endpointsOf ts) = false ∧ ¬ (us.map (·.left.router)).Nodup := by
  have hrun : ∃ M a is, selfLinked.underForwarding 0 = .ok M ∧
      (passing "a" "r" "r" "a").automata [.named "a"] M = .ok a ∧
      ((a.parts M).whole true).follow? ⟨((a.parts M).whole true).initial, [.bottom]⟩ is =
        some ⟨((a.parts M).whole true).final, [.bottom]⟩ ∧
      repeatsRouter (endpointsOf (((a.parts M).whole true).along is)) = false ∧
      ¬ ((endpointsOf (forwardings (((a.parts M).whole true).along is))).map (·.router)).Nodup :=
    ⟨_, _, [1, 0, 2, 10, 3, 4, 7, 9, 12, 11], rfl, rfl, by decide +kernel⟩
  obtain ⟨M, a, is, hM, ha, hfollow, hcheck, hrouters⟩ := hrun
  have htrail := Pda.trail_of_follow? hfollow
  obtain ⟨us, hus⟩ := Network.exists_appliesIn hM htrail
  refine ⟨M, a, _, us, hM, ha, htrail, hus, hcheck, ?_⟩
  rwa [← Network.map_left_eq hus, List.map_map] at hrouters

end MplsReach
