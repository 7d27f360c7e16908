/-
The count of failures along a run with a bound on the whole way.

* `CountsAlong`: the count is what the rules applied so far cost, is within the bound, never
  decreases, and stays as it is while actions are done.
* `Network.pairwise_of_trail`, `Network.isChain_of_trail`: later hops have larger counts, and a hop
  with actions left is followed by the next action.
* `underForwarding_counts_runs`: **so it is along every run**.
-/
import Mathlib.Data.List.Chain
import MplsReach.Proofs.Realization

namespace MplsReach

/-! ### Runs cut into two -/

namespace Pda

variable {Loc Sym : Type} [DecidableEq Sym] {p : Pda Loc Sym} {c e : Config Loc Sym}
  {ts us : List (Transition Loc Sym)} {t : Transition Loc Sym}

/-- A run is at the target of a transition right behind it. -/
lemma Trail.exists_behind (h : p.Trail c (ts ++ t :: us) e) :
    ∃ d, p.Trail c (ts ++ [t]) d ∧ d.location = t.target ∧ p.Trail d us e := by
  obtain ⟨b, hbefore, hrest⟩ := trail_append_iff.mp h
  cases hrest with
  | @step _ d _ _ _ hfires hbehind =>
      have hlocation : d.location = t.target := by
        obtain ⟨-, a, w, -, -, rfl⟩ := hfires
        rfl
      exact ⟨d, trail_append_iff.mpr ⟨b, hbefore, .step hfires (.refl d)⟩, hlocation, hbehind⟩

end Pda

/-! ### The count along a run -/

/-- The count of failures along a run whose forwarding steps apply the given rules. -/
structure CountsAlong (k : Int) (ts : List (Transition (Hop Nat) StackSymbol)) (us : List Use) :
    Prop where
  /-- The count at a hop is what the rules applied so far cost: for each of them, the number of
  rules in earlier groups of its destination. -/
  eq_total : ∀ ts₁ t ts₂, ts = ts₁ ++ t :: ts₂ → ∀ p as j, t.target = .at p as j →
    j = total ((us.take (forwardingSteps (ts₁ ++ [t])).length).map (·.earlier.length))
  /-- The count is within the bound. -/
  le_bound : ∀ t ∈ ts, ∀ p as j, t.target = .at p as j → (j : Int) ≤ k
  /-- The count never decreases. -/
  ascending : (ts.map (·.target)).Pairwise fun l l' =>
    ∀ p as j p' as' j', l = .at p as j → l' = .at p' as' j' → j ≤ j'
  /-- While actions are left to do, the next one is done and the count stays as it is. -/
  constant : (ts.map (·.target)).IsChain fun l l' =>
    ∀ p a as j, l = .at p (a :: as) j → l' = .at p as j

namespace Network

variable {n : Network} {k : Int} {M : Pda (Hop Nat) StackSymbol}
  {c d : Config (Hop Nat) StackSymbol} {ts : List (Transition (Hop Nat) StackSymbol)}

/-- Later hops of a run have counts that are at least as large. -/
lemma pairwise_of_trail (hM : n.underForwarding k = .ok M) (h : M.Trail c ts d) :
    (ts.map (·.target)).Pairwise fun l l' =>
      ∀ p as j p' as' j', l = .at p as j → l' = .at p' as' j' → j ≤ j' := by
  induction h with
  | refl => exact List.Pairwise.nil
  | @step c d e t ts hfires htrail ih =>
      obtain ⟨-, a, w, -, -, rfl⟩ := hfires
      rw [List.map_cons]
      refine List.pairwise_cons.mpr ⟨fun l hl p as j p' as' j' hfirst hlater => ?_, ih⟩
      obtain ⟨t', ht', rfl⟩ := List.mem_map.mp hl
      obtain ⟨ts₁, ts₂, rfl⟩ := List.append_of_mem ht'
      obtain ⟨b, hbetween, hb, -⟩ := htrail.exists_behind
      obtain ⟨us, hus⟩ := exists_uses_of_trail hM hbetween
      have hcount := spent_add_total_eq hM hbetween (by simp [hb, hlater]) hus
      rw [hb, hlater, hfirst] at hcount
      exact Nat.le.intro hcount

/-- From a hop with actions left to do, a run does the next action. -/
lemma isChain_of_trail (hM : n.underForwarding k = .ok M) (h : M.Trail c ts d) :
    (c.location :: ts.map (·.target)).IsChain fun l l' =>
      ∀ p a as j, l = .at p (a :: as) j → l' = .at p as j := by
  induction h with
  | refl c => exact List.isChain_singleton _
  | @step c d e t ts hfires _ ih =>
      obtain ⟨ht, b, w, -, rfl, rfl⟩ := hfires
      rw [List.map_cons]
      refine List.isChain_cons_cons.mpr ⟨fun p a as j hbusy => ?_, ih⟩
      rcases transition_cases hM ht with ⟨-, hsource | ⟨q, i, hsource⟩, -⟩ |
        ⟨-, q, a', as', i, hsource, htarget, -⟩ | ⟨-, ⟨q, i, hsource, -⟩, -⟩
      · exact absurd (hsource.symm.trans hbusy) (by simp)
      · exact absurd (hsource.symm.trans hbusy) (by simp)
      · obtain ⟨rfl, hcons, rfl⟩ := Hop.at.inj (hsource.symm.trans hbusy)
        obtain ⟨-, rfl⟩ := List.cons.inj hcons
        exact htarget
      · exact absurd (hsource.symm.trans hbusy) (by simp)

/-- **The count along a run** from in front of the network, whatever rules its forwarding steps are
taken to apply. -/
lemma countsAlong_of_trail (hM : n.underForwarding k = .ok M) {s : List StackSymbol}
    (h : M.Trail ⟨.start, s⟩ ts c) {us : List Use}
    (hus : List.Forall₂ n.Applies (forwardingSteps ts) us) : CountsAlong k ts us where
  eq_total ts₁ t ts₂ hts p as j htarget := by
    subst hts
    obtain ⟨d, hupto, hd, -⟩ := h.exists_behind
    -- the rules applied up to here are the first ones of the run
    have hsteps : forwardingSteps (ts₁ ++ t :: ts₂) =
        forwardingSteps (ts₁ ++ [t]) ++ forwardingSteps ts₂ := by
      rw [forwardingSteps, forwardingSteps, forwardingSteps, ← List.filter_append,
        List.append_assoc, List.singleton_append]
    have hfirst := List.forall₂_take (forwardingSteps (ts₁ ++ [t])).length hus
    rw [hsteps, List.take_left] at hfirst
    have hcount := spent_add_total_eq hM hupto (by simp [hd, htarget]) hfirst
    rw [hd, htarget] at hcount
    exact hcount.symm.trans (Nat.zero_add _)
  le_bound t ht p as j htarget := by
    rcases transition_cases hM (h.mem_transitions t ht) with ⟨-, -, q, bs, i, hi, hle⟩ |
      ⟨-, q, b, bs, i, -, hi, hle⟩ | ⟨-, -, hfinish⟩
    · obtain ⟨-, -, rfl⟩ := Hop.at.inj (htarget.symm.trans hi)
      exact hle
    · obtain ⟨-, -, rfl⟩ := Hop.at.inj (htarget.symm.trans hi)
      exact hle
    · exact absurd (htarget.symm.trans hfinish) (by simp)
  ascending := pairwise_of_trail hM h
  constant := (isChain_of_trail hM h).tail

end Network

/-- **The count of failures is exact and bounded.** In a network of pushes, swaps and pops there is
an automaton with a bound on the whole way. Along every run from in front of the network, each
forwarding step applies a rule; the count at a hop is the number of rules in earlier groups that
stand before the rules applied so far; it never decreases, stays as it is while actions are done,
and never exceeds the bound. -/
theorem underForwarding_counts_runs (n : Network) (hn : n.Executable) (k : Int) :
    ∃ M, n.underForwarding k = .ok M ∧ ∀ s ts c, M.Trail ⟨.start, s⟩ ts c →
      (∃ us, List.Forall₂ n.Applies (forwardingSteps ts) us) ∧
      ∀ us, List.Forall₂ n.Applies (forwardingSteps ts) us → CountsAlong k ts us := by
  obtain ⟨M, hM⟩ := hn.exists_underForwarding k
  refine ⟨M, hM, fun s ts c h => ⟨?_, fun us hus => ?_⟩⟩
  · exact Network.exists_uses_of_trail hM h
  · exact Network.countsAlong_of_trail hM h hus

/-- A packet that is sent on by the second rule has spent one failure. -/
theorem underForwarding_counts_otherWay : (backedUp (labelling "x")).Executable ∧
    ∃ M ts, (backedUp (labelling "x")).underForwarding 1 = .ok M ∧
      M.Trail ⟨.start, [.bottom]⟩ ts ⟨.finish, [.label "b", .bottom]⟩ ∧
      CountsAlong 1 ts [secondUse (labelling "x")] := by
  have hexecutable : (backedUp (labelling "x")).Executable := by
    unfold Network.Executable
    decide
  obtain ⟨M, hM, hcounts⟩ := underForwarding_counts_runs _ hexecutable 1
  obtain ⟨ts, htrail, happlies⟩ := exists_journey_backedUp (.inr rfl) hM
  exact ⟨hexecutable, M, ts, hM, htrail, (hcounts _ _ _ htrail).2 _ happlies⟩

end MplsReach
