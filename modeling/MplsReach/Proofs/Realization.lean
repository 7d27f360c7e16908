/-
Runs with a bound on the whole way, and the failures that make them real.

* `Pda.Trail`: a run with its transitions.
* `Use`: a rule that a packet meets where it arrives; `Use.Active`: it is in use when interfaces
  have failed; `Use.Fresh`: it leads to no interface of an earlier group.
* `Network.exists_underForwarding_iff`: when there is an automaton.
* `Network.Journey`: a run through a network with the rules that it applies.
* `Network.transition_cases`: what a transition does to the count of failures;
  `Network.spent_add_total_eq`: the count grows by what the rules applied on the way cost.
* `Network.Journey.before_le`: no more rules stand before those of a run than the bound allows.
* `underForwarding_real_iff`: **exactly when a run that leaves each router once is real.** A rule
  that leads to an interface of an earlier group needs the interface to work and to have failed, so
  runs need not be real.
-/
import Mathlib.Data.List.TakeWhile
import MplsReach.Proofs.Hops
import MplsReach.Total

namespace MplsReach

/-! ### Runs with their transitions -/

namespace Pda

variable {Loc Sym : Type} [DecidableEq Sym] {p : Pda Loc Sym}

/-- A transition of the automaton takes one configuration to another. -/
def Fires (p : Pda Loc Sym) (t : Transition Loc Sym) (c d : Config Loc Sym) : Prop :=
  t ∈ p.transitions ∧ ∃ a w, t.input.admits a = true ∧
    c = ⟨t.source, a :: w⟩ ∧ d = ⟨t.target, t.op.apply a ++ w⟩

variable (p) in
/-- A run with its transitions. -/
inductive Trail : Config Loc Sym → List (Transition Loc Sym) → Config Loc Sym → Prop where
  | refl (c : Config Loc Sym) : Trail c [] c
  | step {c d e : Config Loc Sym} {t : Transition Loc Sym} {ts : List (Transition Loc Sym)} :
      p.Fires t c d → Trail d ts e → Trail c (t :: ts) e

lemma Fires.step {t : Transition Loc Sym} {c d : Config Loc Sym} (h : p.Fires t c d) :
    p.Step c d :=
  step_iff.mpr ⟨t, h.1, h.2⟩

/-- Every run is made of transitions. -/
lemma Run.exists_trail {c d : Config Loc Sym} {ls : List Loc} (h : p.Run c ls d) :
    ∃ ts, p.Trail c ts d ∧ ts.map (·.target) = ls := by
  induction h with
  | refl c => exact ⟨[], .refl c, rfl⟩
  | step hstep _ ih =>
      obtain ⟨ts, htrail, rfl⟩ := ih
      obtain ⟨t, ht, a, w, ha, rfl, rfl⟩ := step_iff.mp hstep
      exact ⟨t :: ts, .step ⟨ht, a, w, ha, rfl, rfl⟩ htrail, rfl⟩

lemma Trail.mem_transitions {c d : Config Loc Sym} {ts : List (Transition Loc Sym)}
    (h : p.Trail c ts d) : ∀ t ∈ ts, t ∈ p.transitions := by
  induction h with
  | refl => simp
  | step hfires _ ih => exact List.forall_mem_cons.mpr ⟨hfires.1, ih⟩

/-- A run cut into two. -/
lemma trail_append_iff {c e : Config Loc Sym} {ts us : List (Transition Loc Sym)} :
    p.Trail c (ts ++ us) e ↔ ∃ d, p.Trail c ts d ∧ p.Trail d us e := by
  constructor
  · intro h
    induction ts generalizing c with
    | nil => exact ⟨c, .refl c, h⟩
    | cons t ts ih =>
        cases h with
        | step hfires hrest =>
            obtain ⟨d, hfirst, hsecond⟩ := ih hrest
            exact ⟨d, .step hfires hfirst, hsecond⟩
  · rintro ⟨d, hfirst, hsecond⟩
    induction hfirst with
    | refl => exact hsecond
    | step hfires _ ih => exact .step hfires (ih hsecond)

end Pda

/-! ### Rules that are applied -/

/-- A rule that a packet meets where it arrives: in a group of one of the destinations there. -/
structure Use where
  arrived : Endpoint
  destination : Destination
  group : Nat
  rule : Rule

namespace Use

/-- The rules of earlier groups. -/
def earlier (u : Use) : List Rule := (u.destination.groups.take u.group).flatten

/-- The endpoint that a packet leaves by. -/
def left (u : Use) : Endpoint := ⟨u.arrived.router, u.rule.target⟩

/-- The endpoints of the rules of earlier groups. -/
def blocked (u : Use) : List Endpoint := u.earlier.map fun r => ⟨u.arrived.router, r.target⟩

/-- The rule as it is offered to packets. -/
def offer (u : Use) : Offer :=
  ⟨u.destination.source, u.destination.label, u.rule, u.earlier.length⟩

/-- A rule is in use when interfaces have failed: its own one works, and those of all rules of
earlier groups have failed. -/
def Active (F : Finset Endpoint) (u : Use) : Prop := u.left ∉ F ∧ ∀ p ∈ u.blocked, p ∈ F

/-- A rule leads to no interface of an earlier group. -/
def Fresh (u : Use) : Prop := ∀ r ∈ u.earlier, r.target ≠ u.rule.target

lemma fresh_iff {u : Use} : u.Fresh ↔ u.left ∉ u.blocked := by
  simp [Fresh, left, blocked]

/-- Only a fresh rule can be in use. -/
lemma Active.fresh {F : Finset Endpoint} {u : Use} (h : u.Active F) : u.Fresh :=
  fresh_iff.mpr fun hmem => h.1 (h.2 _ hmem)

end Use

/-- The rule is one of a network: it is in the given group of a destination for packets that arrive
there. -/
def Network.Meets (n : Network) (u : Use) : Prop :=
  u.destination ∈ n.destinationsAt u.arrived ∧
    ∃ g, u.destination.groups[u.group]? = some g ∧ u.rule ∈ g

/-- The transition applies the rule: to a packet that enters the network, or to one that crosses a
link. -/
inductive Network.Applies (n : Network) : Transition (Hop Nat) StackSymbol → Use → Prop where
  | enter {u : Use} : n.Meets u → u.arrived ∈ n.endpoints →
      n.Applies (u.offer.enter u.arrived.router u.offer.before) u
  | cross {u : Use} {p : Endpoint} {spent : Nat} : n.Meets u → (p, u.arrived) ∈ n.crossings →
      n.Applies (u.offer.cross (.at p [] spent) u.arrived.router (spent + u.offer.before)) u

/-- The forwarding steps of a run: they look at the label on top, while actions are done and the
network is left whatever it is. -/
def forwardingSteps (ts : List (Transition (Hop Nat) StackSymbol)) :
    List (Transition (Hop Nat) StackSymbol) :=
  ts.filter fun t => t.input ≠ .any

/-- A run from in front of a network to behind it, with its transitions and the rules that its
forwarding steps apply. -/
structure Network.Journey (n : Network) (M : Pda (Hop Nat) StackSymbol) (s : List StackSymbol)
    (ts : List (Transition (Hop Nat) StackSymbol)) (us : List Use) (v : List StackSymbol) :
    Prop where
  trail : M.Trail ⟨.start, s⟩ ts ⟨.finish, v⟩
  applies : List.Forall₂ n.Applies (forwardingSteps ts) us

/-- What a packet has spent where it is. -/
def Hop.spent : Hop Nat → Nat
  | .at _ _ e => e
  | _ => 0

/-- The interface is one that a rule of its router leads to. -/
def Network.LeadsTo (n : Network) (p : Endpoint) : Prop :=
  ∃ t ∈ n.tables, t.router.id = p.router ∧ ∃ d ∈ t.destinations, ∃ r ∈ d.rules,
    r.target = p.interface

/-- Packets that enter the network at an endpoint only meet pushes, swaps and pops, up to the first
rule there that stands behind more than `k` others. -/
def Network.DoableWithin (n : Network) (k : Int) : Prop :=
  ∀ p ∈ n.endpoints, ∀ o ∈ (n.offersAt p).takeWhile fun o => o.before ≤ k,
    ∀ a ∈ o.rule.actions, a ≠ .noop ∧ a ≠ .unknown

namespace Network

variable {n : Network} {k : Int} {M : Pda (Hop Nat) StackSymbol}

lemma moving_under :
    Moving (n.underEntries k ++ (List.range (k + 1).toNat).flatMap (n.underCrossings k))
      ((List.range (k + 1).toNat).flatMap fun spent => n.endpoints.map (exit · spent)) := by
  refine moving_of_offers (fun t ht => ?_) fun t ht => ?_
  · rcases mem_underMoves_iff.mp ht with ⟨p, -, o, -, rfl⟩ | ⟨p, q, -, o, -, spent, -, rfl⟩
    · exact ⟨o, p.router, o.before, .inl rfl⟩
    · exact ⟨o, q.router, spent + o.before, .inr ⟨p, spent, rfl⟩⟩
  · obtain ⟨p, -, spent, -, rfl⟩ := mem_underExits_iff.mp ht
    exact ⟨p, spent, rfl⟩

/-- There is an automaton exactly if all actions that packets meet within the bound can be carried
out. -/
lemma exists_underForwarding_iff :
    (∃ M, n.underForwarding k = .ok M) ↔ n.DoableWithin k ∧ n.DoableAcross k := by
  rw [underForwarding, exists_forwarding_iff]
  simp only [Action.exists_op_iff, mem_underMoves_iff]
  constructor
  · intro h
    refine ⟨fun p hp o ho => ?_, fun left p hcross o ho hbefore => ?_⟩
    · exact h _ (.inl ⟨p, hp, o, ho, rfl⟩) _ _ _ rfl
    · exact h _ (.inr ⟨left, p, hcross, o, ho, 0, hbefore, rfl⟩) _ _ _ rfl
  · rintro ⟨hentry, hacross⟩ t ht q as e htarget
    rcases ht with ⟨p, hp, o, ho, rfl⟩ | ⟨left, p, hcross, o, ho, spent, hbefore, rfl⟩
    · obtain ⟨-, rfl, -⟩ := Hop.at.inj htarget
      exact hentry p hp o ho
    · obtain ⟨-, rfl, -⟩ := Hop.at.inj htarget
      exact hacross left p hcross o ho (by omega)

lemma Executable.exists_underForwarding (hn : n.Executable) (k : Int) :
    ∃ M, n.underForwarding k = .ok M :=
  exists_underForwarding_iff.mpr
    ⟨fun _ _ _ ho => hn.carriedOut ((List.takeWhile_sublist _).subset ho),
      fun _ _ _ _ ho _ => hn.carriedOut ho⟩

/-- Rules that are offered are met. -/
lemma exists_use_of_mem_offersAt {p : Endpoint} {o : Offer} (ho : o ∈ n.offersAt p) :
    ∃ u, n.Meets u ∧ u.arrived = p ∧ u.offer = o := by
  obtain ⟨d, hd, i, g, r, hg, hr, rfl⟩ := mem_offersAt_iff.mp ho
  exact ⟨⟨p, d, i, r⟩, ⟨hd, g, hg, hr⟩, rfl, rfl⟩

/-- The rules of earlier groups are rules of the network. -/
lemma Meets.leadsTo {u : Use} (h : n.Meets u) {p : Endpoint} (hp : p ∈ u.blocked) :
    n.LeadsTo p := by
  obtain ⟨r, hr, rfl⟩ := List.mem_map.mp hp
  obtain ⟨t, ht, hrouter, hd, -⟩ := mem_destinationsAt_iff.mp h.1
  obtain ⟨g, hg, hr⟩ := List.mem_flatten.mp hr
  exact ⟨t, ht, hrouter, _, hd, r, List.mem_flatten.mpr ⟨g, List.mem_of_mem_take hg, hr⟩, rfl⟩

/-- Rules that are applied are met. -/
lemma meets_of_applies {ts : List (Transition (Hop Nat) StackSymbol)} {us : List Use}
    (h : List.Forall₂ n.Applies ts us) : ∀ u ∈ us, n.Meets u := by
  induction h with
  | nil => simp
  | cons hu _ ih =>
      refine List.forall_mem_cons.mpr ⟨?_, ih⟩
      cases hu with
      | enter hu _ => exact hu
      | cross hu _ => exact hu

/-! ### Rules of a run -/

/-- Every forwarding step applies a rule. -/
lemma exists_applies (hM : n.underForwarding k = .ok M) {t : Transition (Hop Nat) StackSymbol}
    (ht : t ∈ M.transitions) (hinput : t.input ≠ .any) : ∃ u, n.Applies t u := by
  rcases (mem_transitions_forwarding_iff hM).mp ht with
    ht | ⟨p, cs, e, a, bs, o, -, -, -, rfl⟩ | ht
  · rcases mem_underMoves_iff.mp ht with
      ⟨p, hp, o, ho, rfl⟩ | ⟨p, q, hcross, o, ho, spent, -, rfl⟩
    · obtain ⟨u, hu, rfl, rfl⟩ :=
        exists_use_of_mem_offersAt ((List.takeWhile_sublist _).subset ho)
      exact ⟨u, .enter hu hp⟩
    · obtain ⟨u, hu, rfl, rfl⟩ := exists_use_of_mem_offersAt ho
      exact ⟨u, .cross hu hcross⟩
  · exact absurd rfl hinput
  · obtain ⟨p, -, spent, -, rfl⟩ := mem_underExits_iff.mp ht
    exact absurd rfl hinput

lemma exists_uses {ts : List (Transition (Hop Nat) StackSymbol)}
    (h : ∀ t ∈ ts, ∃ u, n.Applies t u) : ∃ us, List.Forall₂ n.Applies ts us := by
  induction ts with
  | nil => exact ⟨[], .nil⟩
  | cons t ts ih =>
      obtain ⟨⟨u, hu⟩, hts⟩ := List.forall_mem_cons.mp h
      obtain ⟨us, hus⟩ := ih hts
      exact ⟨u :: us, .cons hu hus⟩

/-- The forwarding steps of a run apply rules. -/
lemma exists_uses_of_trail (hM : n.underForwarding k = .ok M)
    {c d : Config (Hop Nat) StackSymbol} {ts : List (Transition (Hop Nat) StackSymbol)}
    (h : M.Trail c ts d) : ∃ us, List.Forall₂ n.Applies (forwardingSteps ts) us := by
  refine exists_uses fun t ht => ?_
  obtain ⟨ht, hinput⟩ := List.mem_filter.mp ht
  exact exists_applies hM (h.mem_transitions t ht) (of_decide_eq_true hinput)

/-- Every run through the network is a journey. -/
lemma exists_journey (hM : n.underForwarding k = .ok M) {s v : List StackSymbol}
    {ls : List (Hop Nat)} (h : M.Run ⟨.start, s⟩ ls ⟨.finish, v⟩) :
    ∃ ts us, n.Journey M s ts us v ∧ ts.map (·.target) = ls := by
  obtain ⟨ts, htrail, hls⟩ := h.exists_trail
  obtain ⟨us, hus⟩ := exists_uses_of_trail hM htrail
  exact ⟨ts, us, ⟨htrail, hus⟩, hls⟩

/-! ### What a run spends -/

/-- A rule costs as many failures as rules stand before it. -/
lemma Applies.spent_eq {t : Transition (Hop Nat) StackSymbol} {u : Use} (h : n.Applies t u) :
    t.target.spent = t.source.spent + u.earlier.length := by
  cases h with
  | enter _ _ => exact (Nat.zero_add _).symm
  | cross _ _ => rfl

/-- **The transitions of a forwarding automaton and the count.** A forwarding step leads to a hop
whose count is within the bound; an action keeps the count; an exit leads from within the bound
behind the network. -/
lemma transition_cases (hM : n.underForwarding k = .ok M)
    {t : Transition (Hop Nat) StackSymbol} (ht : t ∈ M.transitions) :
    (t.input ≠ .any ∧ (t.source = .start ∨ ∃ p j, t.source = .at p [] j) ∧
      ∃ p as j, t.target = .at p as j ∧ (j : Int) ≤ k) ∨
    (t.input = .any ∧ ∃ p a as j, t.source = .at p (a :: as) j ∧ t.target = .at p as j ∧
      (j : Int) ≤ k) ∨
    (t.input = .any ∧ (∃ p j, t.source = .at p [] j ∧ (j : Int) ≤ k) ∧ t.target = .finish) := by
  have hmoves : ∀ m ∈ n.underEntries k ++ (List.range (k + 1).toNat).flatMap (n.underCrossings k),
      ∃ p as j, m.target = .at p as j ∧ (j : Int) ≤ k := by
    intro m hm
    rcases mem_underMoves_iff.mp hm with
      ⟨p, -, o, ho, rfl⟩ | ⟨left, p, -, o, -, spent, hspent, rfl⟩
    · have hbefore := List.mem_takeWhile_imp ho
      exact ⟨_, _, _, rfl, of_decide_eq_true hbefore⟩
    · exact ⟨_, _, _, rfl, by omega⟩
  rcases (mem_transitions_forwarding_iff hM).mp ht with
    hmove | ⟨p, cs, j, a, as, o, ⟨m, hm, hmtarget⟩, -, -, rfl⟩ | hexit
  · obtain ⟨b, hb⟩ := moving_under.input t hmove
    exact .inl ⟨by simp [hb], moving_under.source t hmove, hmoves t hmove⟩
  · -- the count of an action is that of the hop that it belongs to
    obtain ⟨q, bs, i, hq, hi⟩ := hmoves m hm
    obtain ⟨-, -, rfl⟩ := Hop.at.inj (hmtarget.symm.trans hq)
    exact .inr (.inl ⟨rfl, p, a, as, j, rfl, rfl, hi⟩)
  · obtain ⟨p, -, spent, hspent, rfl⟩ := mem_underExits_iff.mp hexit
    exact .inr (.inr ⟨rfl, ⟨p, spent, rfl, hspent⟩, rfl⟩)

/-- **What is spent on the way**: the count grows by what the rules applied on the way cost. -/
lemma spent_add_total_eq (hM : n.underForwarding k = .ok M)
    {c d : Config (Hop Nat) StackSymbol} {ts : List (Transition (Hop Nat) StackSymbol)}
    (h : M.Trail c ts d) (hd : d.location ≠ .finish) {us : List Use}
    (hus : List.Forall₂ n.Applies (forwardingSteps ts) us) :
    c.location.spent + total (us.map (·.earlier.length)) = d.location.spent := by
  induction h generalizing us with
  | refl =>
      cases hus
      rfl
  | @step c d e t ts hfires htrail ih =>
      obtain ⟨ht, a, w, -, rfl, rfl⟩ := hfires
      rcases transition_cases hM ht with ⟨hinput, -, -⟩ |
        ⟨hinput, p, b, as, j, hsource, htarget, -⟩ | ⟨-, -, htarget⟩
      · have hsteps : forwardingSteps (t :: ts) = t :: forwardingSteps ts :=
          List.filter_cons_of_pos (by simp [hinput])
        rw [hsteps] at hus
        cases hus with
        | @cons _ u _ us hu hus =>
            have hrest := ih hd hus
            rw [hu.spent_eq] at hrest
            rw [List.map_cons, total_cons, ← Nat.add_assoc]
            exact hrest
      · have hsteps : forwardingSteps (t :: ts) = forwardingSteps ts :=
          List.filter_cons_of_neg (by simp [hinput])
        have hspent : t.source.spent = t.target.spent := by rw [hsource, htarget]; rfl
        rw [hsteps] at hus
        rw [hspent]
        exact ih hd hus
      · -- nothing follows behind the network
        cases htrail with
        | refl => exact absurd htarget hd
        | step hfires _ =>
            rw [htarget] at hfires
            exact absurd hfires.step (not_step_finish hM moving_under)

/-- **What a run costs**: no more rules stand before those of a run than the bound allows. -/
lemma Journey.before_le (hM : n.underForwarding k = .ok M) {s v : List StackSymbol}
    {ts : List (Transition (Hop Nat) StackSymbol)} {us : List Use} (h : n.Journey M s ts us v) :
    (total (us.map (·.earlier.length)) : Int) ≤ k := by
  obtain ⟨htrail, happlies⟩ := h
  rcases List.eq_nil_or_concat' ts with rfl | ⟨ts, t, rfl⟩
  · cases htrail
  · -- the last step leaves the network, where the count is within the bound
    obtain ⟨d, hway, hlast⟩ := Pda.trail_append_iff.mp htrail
    cases hlast with
    | step hfires hrest =>
        cases hrest
        obtain ⟨ht, a, w, -, rfl, hleft⟩ := hfires
        have htarget : t.target = .finish := (Config.mk.inj hleft).1.symm
        rcases transition_cases hM ht with ⟨-, -, p, as, j, hat, -⟩ |
          ⟨-, p, b, as, j, -, hat, -⟩ | ⟨hinput, ⟨p, j, hsource, hj⟩, -⟩
        · exact absurd (hat.symm.trans htarget) (by simp)
        · exact absurd (hat.symm.trans htarget) (by simp)
        · have hsteps : forwardingSteps (ts ++ [t]) = forwardingSteps ts := by
            simp [forwardingSteps, hinput]
          rw [hsteps] at happlies
          have hcount := spent_add_total_eq hM hway (by simp [hsource]) happlies
          rw [hsource] at hcount
          rw [← Nat.zero_add (total _)]
          exact (congrArg Int.ofNat hcount).le.trans hj

end Network

/-! ### Failures that make a run real -/

/-- The interfaces of all rules that stand before those of a run. -/
def blockedBy (us : List Use) : Finset Endpoint := (us.flatMap Use.blocked).toFinset

lemma mem_blockedBy {us : List Use} {p : Endpoint} :
    p ∈ blockedBy us ↔ ∃ u ∈ us, p ∈ u.blocked := by
  simp [blockedBy]

lemma card_blockedBy_le (us : List Use) :
    (blockedBy us).card ≤ total (us.map (·.earlier.length)) := by
  have hlength : (us.flatMap Use.blocked).length = total (us.map (·.earlier.length)) := by
    induction us with
    | nil => rfl
    | cons u us ih =>
        rw [List.flatMap_cons, List.length_append, ih, Use.blocked, List.length_map,
          List.map_cons, total_cons]
  calc (blockedBy us).card
      ≤ (us.flatMap Use.blocked).length := List.toFinset_card_le _
    _ = total (us.map (·.earlier.length)) := hlength

/-- Where no router is left twice, the rules that stand before one rule do not block another one,
so that fresh rules are in use when just the interfaces of those before them have failed. -/
lemma active_blockedBy {us : List Use} (hnodup : (us.map fun u => u.left.router).Nodup)
    (hfresh : ∀ u ∈ us, u.Fresh) : ∀ u ∈ us, u.Active (blockedBy us) := by
  intro u hu
  refine ⟨fun hmem => ?_, fun p hp => mem_blockedBy.mpr ⟨u, hu, hp⟩⟩
  obtain ⟨u', hu', hblocked⟩ := mem_blockedBy.mp hmem
  have hrouter : u'.left.router = u.left.router := by
    obtain ⟨r, -, hr⟩ := List.mem_map.mp hblocked
    exact (Endpoint.mk.inj hr).1
  obtain rfl := List.inj_on_of_nodup_map hnodup hu' hu hrouter
  exact Use.fresh_iff.mp (hfresh u' hu') hblocked

/-- **Real runs.** In a network of pushes, swaps and pops there is an automaton with a bound on the
whole way, and its runs apply rules. For a run that leaves no router twice there are at most `k`
failed interfaces, of those that rules lead to, under which all its rules are in use exactly if none
of them leads to an interface of an earlier group of its destination. -/
theorem underForwarding_real_iff (n : Network) (hn : n.Executable) (k : Int) :
    ∃ M, n.underForwarding k = .ok M ∧
      (∀ s ls v, M.Run ⟨.start, s⟩ ls ⟨.finish, v⟩ →
        ∃ ts us, n.Journey M s ts us v ∧ ts.map (·.target) = ls) ∧
      ∀ s ts us v, n.Journey M s ts us v → (us.map fun u => u.left.router).Nodup →
        ((∃ F : Finset Endpoint, (F.card : Int) ≤ k ∧ (∀ p ∈ F, n.LeadsTo p) ∧
          ∀ u ∈ us, u.Active F) ↔ ∀ u ∈ us, u.Fresh) := by
  obtain ⟨M, hM⟩ := hn.exists_underForwarding k
  refine ⟨M, hM, fun s ls v => Network.exists_journey hM, fun s ts us v h hnodup => ?_⟩
  constructor
  · rintro ⟨F, -, -, hactive⟩ u hu
    exact (hactive u hu).fresh
  · intro hfresh
    refine ⟨blockedBy us, ?_, fun p hp => ?_, active_blockedBy hnodup hfresh⟩
    · have hcard := card_blockedBy_le us
      have hcost := h.before_le hM
      omega
    · obtain ⟨u, hu, hblocked⟩ := mem_blockedBy.mp hp
      exact (Network.meets_of_applies h.applies u hu).leadsTo hblocked

/-! ### A rule behind another one -/

/-- A router that sends packets without a label on by the interface `j`, with the label `a`. There
is a rule for when that fails. -/
def backedUp (backup : Rule) : Network :=
  let r : Router := ⟨⟨"", some "r"⟩, [⟨some "i", false⟩, ⟨some "j", false⟩, ⟨some "x", false⟩]⟩
  ⟨[r], [], [⟨r, [⟨some "i", .absent .empty, [[⟨some "j", [.push (.named "a")]⟩], [backup]]⟩]⟩]⟩

/-- A rule that sends packets on by an interface, with the label `b`. -/
def labelling (interface : String) : Rule := ⟨some interface, [.push (.named "b")]⟩

/-- The second rule of the router, where packets without a label meet it. -/
def secondUse (backup : Rule) : Use :=
  ⟨⟨⟨"", some "r"⟩, some "i"⟩,
    ⟨some "i", .absent .empty, [[⟨some "j", [.push (.named "a")]⟩], [backup]]⟩, 1, backup⟩

lemma meets_secondUse (backup : Rule) : (backedUp backup).Meets (secondUse backup) :=
  ⟨Network.mem_destinationsAt_iff.mpr ⟨_, .head _, rfl, .head _, rfl⟩, _, rfl, .head _⟩

/-- A packet without a label is sent on by the second rule. -/
lemma exists_journey_backedUp {interface : String} (h : interface = "j" ∨ interface = "x")
    {M : Pda (Hop Nat) StackSymbol}
    (hM : (backedUp (labelling interface)).underForwarding 1 = .ok M) :
    ∃ ts, (backedUp (labelling interface)).Journey M [.bottom] ts
      [secondUse (labelling interface)] [.label "b", .bottom] := by
  let u : Use := secondUse (labelling interface)
  let p : Endpoint := u.left
  have hmove : u.offer.enter u.arrived.router 1 ∈
      (backedUp (labelling interface)).underEntries 1 ++
        (List.range (1 + 1)).flatMap ((backedUp (labelling interface)).underCrossings 1) := by
    rcases h with rfl | rfl <;> decide
  have henter : u.offer.enter u.arrived.router 1 ∈ M.transitions :=
    (mem_transitions_forwarding_iff hM).mpr (.inl hmove)
  have hact : actStep p [] 1 (.push (.named "b")) (.push (.label "b")) ∈ M.transitions :=
    (mem_transitions_forwarding_iff hM).mpr (.inr (.inl ⟨p, [.push (.named "b")], 1, _, [], _,
      ⟨_, hmove, rfl⟩, List.suffix_refl _, rfl, rfl⟩))
  have hexit : exit p 1 ∈ M.transitions := by
    refine (mem_transitions_forwarding_iff hM).mpr (.inr (.inr ?_))
    rcases h with rfl | rfl <;> decide
  refine ⟨[_, _, _], .step ⟨henter, .bottom, [], rfl, rfl, rfl⟩
    (.step ⟨hact, .bottom, [], rfl, rfl, rfl⟩
      (.step ⟨hexit, .label "b", [.bottom], rfl, rfl, rfl⟩ (.refl _))), ?_⟩
  exact .cons (.enter (meets_secondUse _) (.head _)) .nil

/-- A rule to another interface is in use when the first one has failed. -/
theorem underForwarding_real_otherWay : (backedUp (labelling "x")).Executable ∧
    ∃ M ts, (backedUp (labelling "x")).underForwarding 1 = .ok M ∧
      (backedUp (labelling "x")).Journey M [.bottom] ts [secondUse (labelling "x")]
        [.label "b", .bottom] ∧
      ∃ F : Finset Endpoint, (F.card : Int) ≤ 1 ∧ (secondUse (labelling "x")).Active F := by
  have hexecutable : (backedUp (labelling "x")).Executable := by
    unfold Network.Executable
    decide
  obtain ⟨M, hM, -, hreal⟩ := underForwarding_real_iff _ hexecutable 1
  obtain ⟨ts, hjourney⟩ := exists_journey_backedUp (.inr rfl) hM
  have hfresh : ∀ u ∈ [secondUse (labelling "x")], u.Fresh := by
    unfold Use.Fresh
    decide
  obtain ⟨F, hF, -, hactive⟩ := (hreal _ _ _ _ hjourney (List.nodup_singleton _)).mpr hfresh
  exact ⟨hexecutable, M, ts, hM, hjourney, F, hF, hactive _ List.mem_cons_self⟩

/-- **A run that is not real**: its one rule is for when the interface that it leads to has failed.
-/
theorem underForwarding_unreal_sameWay : (backedUp (labelling "j")).Executable ∧
    ∃ M ts us, (backedUp (labelling "j")).underForwarding 1 = .ok M ∧
      (backedUp (labelling "j")).Journey M [.bottom] ts us [.label "b", .bottom] ∧
      (us.map fun u => u.left.router).Nodup ∧
      ¬ ∃ F : Finset Endpoint, (F.card : Int) ≤ 1 ∧ ∀ u ∈ us, u.Active F := by
  have hexecutable : (backedUp (labelling "j")).Executable := by
    unfold Network.Executable
    decide
  obtain ⟨M, hM⟩ := hexecutable.exists_underForwarding 1
  obtain ⟨ts, hjourney⟩ := exists_journey_backedUp (.inl rfl) hM
  refine ⟨hexecutable, M, ts, _, hM, hjourney, List.nodup_singleton _, ?_⟩
  rintro ⟨F, -, hactive⟩
  have hfresh := (hactive _ List.mem_cons_self).fresh
  exact hfresh ⟨some "j", [.push (.named "a")]⟩ (by decide) rfl

end MplsReach
