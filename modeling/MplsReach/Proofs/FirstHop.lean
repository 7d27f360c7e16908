/-
The rules that a run with a bound at each hop applies, and the one that it enters by.

* `Network.AppliesAt`: a transition applies a rule where a packet arrives.
* `Network.Within`: the rule can be taken from a group that at most `k` rules stand before.
* `Network.within_of_trail`: behind the first hop all rules of a run are within the bound.
* `Network.BoundsEntries`: every rule for entering packets can be taken from such a group.
* `overForwarding_bounds_runs_iff`: **exactly when all rules of all runs are within the bound.** On
  entering, rules are offered whatever stands before them, so the first one need not be.
-/
import MplsReach.Proofs.Realization

namespace MplsReach

/-! ### Rules within a bound -/

/-- The transition applies the rule: to a packet that enters the network, or to one that crosses a
link. -/
inductive Network.AppliesAt (n : Network) : Transition (Hop Unit) StackSymbol → Use → Prop where
  | enter {u : Use} : n.Meets u → u.arrived ∈ n.endpoints →
      n.AppliesAt (u.offer.enter u.arrived.router ()) u
  | cross {u : Use} {p : Endpoint} : n.Meets u → (p, u.arrived) ∈ n.crossings →
      n.AppliesAt (u.offer.cross (.at p [] ()) u.arrived.router ()) u

/-- The transition applies a rule that can be taken from a group of its destination before which at
most `k` rules stand. -/
def Network.Within (n : Network) (k : Int) (t : Transition (Hop Unit) StackSymbol) : Prop :=
  ∃ u, n.AppliesAt t u ∧ (u.earlier.length : Int) ≤ k

/-- All forwarding steps of all runs from in front of the network apply rules within the bound. They
are the steps that look at the label on top. -/
def Network.BoundsRuns (n : Network) (k : Int) (M : Pda (Hop Unit) StackSymbol) : Prop :=
  ∀ s ts c, M.Trail ⟨.start, s⟩ ts c → ∀ t ∈ ts, t.input ≠ .any → n.Within k t

/-- Every rule that is offered to entering packets is also offered, at the same router and for the
same top of the stack, behind at most `k` others. -/
def Network.BoundsEntries (n : Network) (k : Int) : Prop :=
  ∀ p ∈ n.endpoints, ∀ o ∈ n.offersAt p, ∃ q ∈ n.endpoints, ∃ o' ∈ n.offersAt q,
    o'.before ≤ k ∧ q.router = p.router ∧ o'.rule = o.rule ∧
      StackSymbol.ofLabel o'.label = .ofLabel o.label

/-- What an entering packet sees of a rule: the router, the rule and the top of the stack. -/
lemma Offer.enter_eq_iff {Spent : Type} {o o' : Offer} {r r' : RouterId} {e : Spent} :
    o'.enter r' e = o.enter r e ↔
      r' = r ∧ o'.rule = o.rule ∧ StackSymbol.ofLabel o'.label = .ofLabel o.label := by
  constructor
  · intro h
    have htarget : o'.hop r' e = o.hop r e := congrArg Transition.target h
    have hinput : Input.on (StackSymbol.ofLabel o'.label) = .on (.ofLabel o.label) :=
      congrArg Transition.input h
    obtain ⟨hendpoint, hactions, -⟩ := Hop.at.inj htarget
    obtain ⟨hrouter, hinterface⟩ := Endpoint.mk.inj hendpoint
    refine ⟨hrouter, ?_, Input.on.inj hinput⟩
    calc o'.rule = ⟨o'.rule.target, o'.rule.actions⟩ := rfl
      _ = ⟨o.rule.target, o.rule.actions⟩ := by rw [hinterface, hactions]
  · rintro ⟨rfl, hrule, hlabel⟩
    simp only [Offer.enter, Offer.hop, hrule, hlabel]

namespace Network

variable {n : Network} {k : Int} {M : Pda (Hop Unit) StackSymbol}

/-- Over a link only rules within the bound are offered. -/
lemma within_of_mem_overCrossings {t : Transition (Hop Unit) StackSymbol}
    (ht : t ∈ n.overCrossings k) : n.Within k t := by
  obtain ⟨left, arrived, hcross, o, ho, hbefore, rfl⟩ := mem_overCrossings_iff.mp ht
  obtain ⟨u, hu, rfl, rfl⟩ := exists_use_of_mem_offersAt ho
  exact ⟨u, .cross hu hcross, hbefore⟩

/-- A rule on entering is within the bound if it is also offered behind at most `k` others. -/
lemma within_enter_iff {o : Offer} {r : RouterId} :
    n.Within k (o.enter r ()) ↔ ∃ q ∈ n.endpoints, ∃ o' ∈ n.offersAt q, o'.before ≤ k ∧
      q.router = r ∧ o'.rule = o.rule ∧ StackSymbol.ofLabel o'.label = .ofLabel o.label := by
  constructor
  · rintro ⟨u, happlies, hle⟩
    generalize ht : o.enter r () = t at happlies
    cases happlies with
    | enter hu hmem =>
        obtain ⟨hd, g, hg, hr⟩ := hu
        have ho : u.offer ∈ n.offersAt u.arrived :=
          mem_offersAt_iff.mpr ⟨_, hd, _, g, _, hg, hr, rfl⟩
        exact ⟨u.arrived, hmem, u.offer, ho, hle, Offer.enter_eq_iff.mp ht.symm⟩
    | cross _ _ => exact absurd (congrArg Transition.source ht) (by simp [Offer.enter, Offer.cross,
        Transition.plain])
  · rintro ⟨q, hq, o', ho', hle, hsame⟩
    obtain ⟨u, hu, rfl, rfl⟩ := exists_use_of_mem_offersAt ho'
    rw [← Offer.enter_eq_iff.mpr hsame]
    exact ⟨u, .enter hu hq, hle⟩

/-- A transition out of a place in the network that looks at the label on top crosses a link, and no
transition leads back in front of the network. -/
lemma of_fires_inside (hM : n.overForwarding k = .ok M) {t : Transition (Hop Unit) StackSymbol}
    (ht : t ∈ M.transitions) :
    t.target ≠ .start ∧ (t.source ≠ .start → t.input ≠ .any → n.Within k t) := by
  rcases (mem_transitions_forwarding_iff hM).mp ht with
    hmove | ⟨p, cs, e, a, bs, o, -, -, -, rfl⟩ | hexit
  · obtain ⟨q, as, e, htarget⟩ := moving_over.target t hmove
    refine ⟨by simp [htarget], fun hsource _ => ?_⟩
    rcases List.mem_append.mp hmove with hentry | hcross
    · obtain ⟨p, -, o, -, rfl⟩ := mem_overEntries_iff.mp hentry
      exact absurd rfl hsource
    · exact within_of_mem_overCrossings hcross
  · exact ⟨by simp [actStep, Transition.plain], fun _ hinput => absurd rfl hinput⟩
  · obtain ⟨p, -, rfl⟩ := List.mem_map.mp hexit
    exact ⟨by simp [exit, Transition.plain], fun _ hinput => absurd rfl hinput⟩

/-- **Behind the first hop** all rules of a run are within the bound. -/
lemma within_of_trail (hM : n.overForwarding k = .ok M) {c d : Config (Hop Unit) StackSymbol}
    {ts : List (Transition (Hop Unit) StackSymbol)} (h : M.Trail c ts d)
    (hc : c.location ≠ .start) : ∀ t ∈ ts, t.input ≠ .any → n.Within k t := by
  induction h with
  | refl => simp
  | @step c d e t ts hfires _ ih =>
      obtain ⟨ht, a, w, -, rfl, rfl⟩ := hfires
      obtain ⟨htarget, hwithin⟩ := of_fires_inside hM ht
      exact List.forall_mem_cons.mpr ⟨hwithin hc, ih htarget⟩

/-- A run starts with a rule for entering packets. -/
lemma exists_entry_of_source (hM : n.overForwarding k = .ok M)
    {t : Transition (Hop Unit) StackSymbol} (ht : t ∈ M.transitions) (hsource : t.source = .start) :
    ∃ p ∈ n.endpoints, ∃ o ∈ n.offersAt p, t = o.enter p.router () := by
  rcases (mem_transitions_forwarding_iff hM).mp ht with
    hmove | ⟨p, cs, e, a, bs, o, -, -, -, rfl⟩ | hexit
  · rcases List.mem_append.mp hmove with hentry | hcross
    · exact mem_overEntries_iff.mp hentry
    · obtain ⟨left, arrived, -, o, -, -, rfl⟩ := mem_overCrossings_iff.mp hcross
      exact absurd hsource (by simp [Offer.cross, Transition.plain])
  · exact absurd hsource (by simp [actStep, Transition.plain])
  · obtain ⟨p, -, rfl⟩ := List.mem_map.mp hexit
    exact absurd hsource (by simp [exit, Transition.plain])

/-- Every rule for entering packets is the first one of some run. -/
lemma BoundsRuns.boundsEntries (hM : n.overForwarding k = .ok M) (h : n.BoundsRuns k M) :
    n.BoundsEntries k := by
  intro p hp o ho
  have ht : o.enter p.router () ∈ M.transitions := (mem_transitions_forwarding_iff hM).mpr
    (.inl (List.mem_append_left _ (mem_overEntries_iff.mpr ⟨p, hp, o, ho, rfl⟩)))
  have hfires : M.Fires (o.enter p.router ()) ⟨.start, [.ofLabel o.label]⟩
      ⟨o.hop p.router (), [.ofLabel o.label]⟩ :=
    ⟨ht, .ofLabel o.label, [], by simp [Offer.enter, Transition.plain, Input.admits], rfl, rfl⟩
  have hwithin := h _ _ _ (.step hfires (.refl _)) _ List.mem_cons_self
    (by simp [Offer.enter, Transition.plain])
  exact within_enter_iff.mp hwithin

lemma BoundsEntries.boundsRuns (hM : n.overForwarding k = .ok M) (h : n.BoundsEntries k) :
    n.BoundsRuns k M := by
  intro s ts c htrail
  cases htrail with
  | refl => simp
  | @step _ d _ t ts hfires hrest =>
      obtain ⟨ht, a, w, -, hstart, rfl⟩ := hfires
      have hsource : t.source = .start := (Config.mk.inj hstart).1.symm
      refine List.forall_mem_cons.mpr ⟨fun _ => ?_,
        within_of_trail hM hrest (of_fires_inside hM ht).1⟩
      obtain ⟨p, hp, o, ho, rfl⟩ := exists_entry_of_source hM ht hsource
      exact within_enter_iff.mpr (h p hp o ho)

end Network

/-! ### The first hop -/

/-- **Bounds on the rules of runs.** Behind the first hop, forwarding with a bound at each hop only
applies rules that can be taken from a group before which at most `k` rules stand. The first rule of
every run can be taken from such a group exactly if all rules for entering packets can. -/
theorem overForwarding_bounds_runs_iff (n : Network) (k : Int) {M : Pda (Hop Unit) StackSymbol}
    (hM : n.overForwarding k = .ok M) :
    (∀ s t ts c, M.Trail ⟨.start, s⟩ (t :: ts) c → ∀ t' ∈ ts, t'.input ≠ .any → n.Within k t') ∧
    (n.BoundsRuns k M ↔ n.BoundsEntries k) := by
  refine ⟨fun s t ts c htrail => ?_, fun h => h.boundsEntries hM, fun h => h.boundsRuns hM⟩
  cases htrail with
  | step hfires hrest =>
      obtain ⟨ht, a, w, -, -, rfl⟩ := hfires
      exact Network.within_of_trail hM hrest (Network.of_fires_inside hM ht).1

/-- Two rules, one behind the other, are within a bound of one failure. -/
theorem overForwarding_bounds_runs_otherWay : ∃ M,
    (backedUp (labelling "x")).overForwarding 1 = .ok M ∧
      (backedUp (labelling "x")).BoundsRuns 1 M := by
  obtain ⟨M, hM⟩ : ∃ M, (backedUp (labelling "x")).overForwarding 1 = .ok M := ⟨_, rfl⟩
  have hentries : (backedUp (labelling "x")).BoundsEntries 1 := by
    unfold Network.BoundsEntries
    decide
  exact ⟨M, hM, (overForwarding_bounds_runs_iff _ 1 hM).2.mpr hentries⟩

/-- **A first hop out of bounds**: without any failure, packets enter by a rule that is for when
another one has failed. -/
theorem overForwarding_unbounded_otherWay : ∃ M,
    (backedUp (labelling "x")).overForwarding 0 = .ok M ∧
      ¬ (backedUp (labelling "x")).BoundsRuns 0 M := by
  obtain ⟨M, hM⟩ : ∃ M, (backedUp (labelling "x")).overForwarding 0 = .ok M := ⟨_, rfl⟩
  have hentries : ¬ (backedUp (labelling "x")).BoundsEntries 0 := by
    unfold Network.BoundsEntries
    decide
  exact ⟨M, hM, fun hruns => hentries (hruns.boundsEntries hM)⟩

end MplsReach
