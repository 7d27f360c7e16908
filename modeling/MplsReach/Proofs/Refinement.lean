/-
Answers for a tighter bound on failures are answers for a looser one.

* `Affirmed`: the answer to a query about a network is yes.
* `Refines`: a forwarding automaton is part of another one; `Refines.affirmed` keeps the answer yes.
* `overForwarding_refined_iff`: **counting failures on the whole way refines counting them at each
  hop**, as far as there is an automaton of the second kind.
* `affirmed_monotone_iff`: **the answer yes stays yes when the bound grows**, as far as there is an
  automaton for the larger bound.
-/
import Mathlib.Data.List.TakeWhile
import MplsReach.Proofs.Realization
import MplsReach.Proofs.Renaming
import MplsReach.Proofs.Verdict

namespace MplsReach

/-! ### Answers -/

section Answers

variable {S S' : Type} [DecidableEq S] [DecidableEq S'] {g : S → S'}
  {M : Pda (Hop S) StackSymbol} {M' : Pda (Hop S') StackSymbol} {q : Query}
  {labels : List Label}

/-- A forwarding automaton is part of another one once its hops are renamed. -/
structure Refines (g : S → S') (M : Pda (Hop S) StackSymbol) (M' : Pda (Hop S') StackSymbol) :
    Prop where
  forwards : Forwards M
  forwards' : Forwards M'
  embeds : M.Embeds (Hop.mapSpent g) M'
  locations : ∀ l ∈ M.locations, l.mapSpent g ∈ M'.locations

lemma Refines.of_forwarding {moves exits : List (Transition (Hop S) StackSymbol)}
    {moves' exits' : List (Transition (Hop S') StackSymbol)} (hM : forwarding moves exits = .ok M)
    (hM' : forwarding moves' exits' = .ok M') (forwards : Forwards M) (forwards' : Forwards M')
    (hmoves : ∀ m ∈ moves, m.mapLocations (Hop.mapSpent g) ∈ moves')
    (hexits : ∀ m ∈ exits, m.mapLocations (Hop.mapSpent g) ∈ exits') : Refines g M M' := by
  have hembeds := Pda.Embeds.of_forwarding hM hM' hmoves hexits
  exact ⟨forwards, forwards', hembeds, fun _ => hembeds.mem_locations hM hM'⟩

/-- A query that is met by a run is met by the run that it is carried over to. -/
lemma Refines.met (h : Refines g M M') {a : Query.Automata S} (ha : q.automata labels M = .ok a)
    (hmet : a.Met M) : ∃ a', q.automata labels M' = .ok a' ∧ a'.Met M' := by
  obtain ⟨a', ha', hconstructing, hdestructing, hnetwork⟩ :=
    Query.exists_automata_of_mem h.forwards h.forwards' h.locations ha
  obtain ⟨c, ls, w, d, rest, hc, hrun, hls, hd, hw⟩ := hmet
  exact ⟨a', ha', c, ls.map (Hop.mapSpent g), w, d, rest, hconstructing ▸ hc, h.embeds.run hrun,
    hnetwork _ hls, hdestructing ▸ hd, hw⟩

variable [Hashable S] [Hashable S'] {verbose : Bool} {spent : S → List String}

/-- The answer to a query is yes: there are an automaton of the network and automata of the query,
and the goal of the rules that they are compiled to is reachable. -/
def Affirmed (x : Except Fault (Pda (Hop S) StackSymbol)) (verbose : Bool)
    (spent : S → List String) (q : Query) (labels : List Label) : Prop :=
  ∃ M a s, x = .ok M ∧ q.automata labels M = .ok a ∧
    compileFor verbose spent q labels M = .ok s ∧ s.GoalReachable

lemma Affirmed.exists_ok {x : Except Fault (Pda (Hop S) StackSymbol)}
    (h : Affirmed x verbose spent q labels) : ∃ M, x = .ok M := by
  obtain ⟨M, -, -, hM, -⟩ := h
  exact ⟨M, hM⟩

lemma affirmed_iff_met (hM : Forwards M) :
    Affirmed (.ok M) verbose spent q labels ↔ ∃ a, q.automata labels M = .ok a ∧ a.Met M := by
  constructor
  · rintro ⟨_, a, s, hM', ha, hs, hgoal⟩
    obtain rfl := Except.ok.inj hM'
    obtain ⟨s', hs', hdecides⟩ := exists_compileFor_decides hM ha verbose spent
    obtain rfl := Except.ok.inj (hs.symm.trans hs')
    exact ⟨a, ha, hdecides.reachable_iff.mp hgoal⟩
  · rintro ⟨a, ha, hmet⟩
    obtain ⟨s, hs, hdecides⟩ := exists_compileFor_decides hM ha verbose spent
    exact ⟨M, a, s, rfl, ha, hs, hdecides.reachable_iff.mpr hmet⟩

/-- **The answer yes** about an automaton is the answer about all that it is part of. -/
lemma Refines.affirmed (h : Refines g M M') (hyes : Affirmed (.ok M) verbose spent q labels)
    (verbose' : Bool) (spent' : S' → List String) :
    Affirmed (.ok M') verbose' spent' q labels := by
  obtain ⟨a, ha, hmet⟩ := (affirmed_iff_met h.forwards).mp hyes
  exact (affirmed_iff_met h.forwards').mpr (h.met ha hmet)

/-- Where the automata for a bound are part of those for another bound, the answer yes for the first
is the answer for the second exactly if there is an automaton for the second. -/
lemma affirmed_iff_exists {x : Except Fault (Pda (Hop S) StackSymbol)}
    {x' : Except Fault (Pda (Hop S') StackSymbol)}
    (h : ∀ M M', x = .ok M → x' = .ok M' → Refines g M M')
    (hyes : Affirmed x verbose spent q labels) (verbose' : Bool) (spent' : S' → List String) :
    Affirmed x' verbose' spent' q labels ↔ ∃ M', x' = .ok M' := by
  refine ⟨Affirmed.exists_ok, ?_⟩
  rintro ⟨M', rfl⟩
  obtain ⟨M, rfl⟩ := hyes.exists_ok
  exact (h M M' rfl rfl).affirmed hyes verbose' spent'

end Answers

/-! ### Bounds -/

/-- The same hop without the count of failures. -/
def Hop.forget : Hop Nat → Hop Unit := Hop.mapSpent fun _ => ()

namespace Network

variable {n : Network} {k k' : Int}

/-- What is counted on the whole way is at least what is counted at each hop. -/
lemma refines_over {M : Pda (Hop Nat) StackSymbol} {M' : Pda (Hop Unit) StackSymbol}
    (hM : n.underForwarding k = .ok M) (hM' : n.overForwarding k = .ok M') :
    Refines (fun _ => ()) M M' := by
  refine .of_forwarding hM hM' (forwards_underForwarding hM) (forwards_overForwarding hM')
    (fun t ht => ?_) fun t ht => ?_
  · rcases mem_underMoves_iff.mp ht with
      ⟨p, hp, o, ho, rfl⟩ | ⟨left, p, hcross, o, ho, spent, hbefore, rfl⟩
    · have ho := (List.takeWhile_sublist _).subset ho
      exact List.mem_append_left _ (mem_overEntries_iff.mpr ⟨p, hp, o, ho, rfl⟩)
    · have hhere : (o.before : Int) ≤ k := by omega
      exact List.mem_append_right _
        (mem_overCrossings_iff.mpr ⟨left, p, hcross, o, ho, hhere, rfl⟩)
  · obtain ⟨p, hp, spent, -, rfl⟩ := mem_underExits_iff.mp ht
    exact List.mem_map.mpr ⟨p, hp, rfl⟩

lemma refines_over_of_le (hk : k ≤ k') {M M' : Pda (Hop Unit) StackSymbol}
    (hM : n.overForwarding k = .ok M) (hM' : n.overForwarding k' = .ok M') : Refines id M M' := by
  refine .of_forwarding hM hM' (forwards_overForwarding hM) (forwards_overForwarding hM')
    (fun t ht => ?_) fun t ht => ?_
  · rcases List.mem_append.mp ht with ht | ht
    · obtain ⟨p, hp, o, ho, rfl⟩ := mem_overEntries_iff.mp ht
      exact List.mem_append_left _ (mem_overEntries_iff.mpr ⟨p, hp, o, ho, rfl⟩)
    · obtain ⟨left, p, hcross, o, ho, hbefore, rfl⟩ := mem_overCrossings_iff.mp ht
      exact List.mem_append_right _
        (mem_overCrossings_iff.mpr ⟨left, p, hcross, o, ho, hbefore.trans hk, rfl⟩)
  · obtain ⟨p, hp, rfl⟩ := List.mem_map.mp ht
    exact List.mem_map.mpr ⟨p, hp, rfl⟩

/-- A larger bound stops no earlier at a rule that costs too much. -/
lemma mem_takeWhile_of_le (hk : k ≤ k') {o : Offer} {os : List Offer}
    (ho : o ∈ os.takeWhile fun o => o.before ≤ k) : o ∈ os.takeWhile fun o => o.before ≤ k' := by
  have hboth : os.takeWhile (fun o => o.before ≤ k) =
      (os.takeWhile fun o => o.before ≤ k').takeWhile fun o => o.before ≤ k := by
    rw [List.takeWhile_takeWhile]
    congr 1
    funext o
    simp only [decide_eq_true_eq, decide_eq_decide]
    omega
  rw [hboth] at ho
  exact (List.takeWhile_sublist _).subset ho

lemma refines_under_of_le (hk : k ≤ k') {M M' : Pda (Hop Nat) StackSymbol}
    (hM : n.underForwarding k = .ok M) (hM' : n.underForwarding k' = .ok M') : Refines id M M' := by
  refine .of_forwarding hM hM' (forwards_underForwarding hM) (forwards_underForwarding hM')
    (fun t ht => ?_) fun t ht => ?_
  · rcases mem_underMoves_iff.mp ht with
      ⟨p, hp, o, ho, rfl⟩ | ⟨left, p, hcross, o, ho, spent, hbefore, rfl⟩
    · exact mem_underMoves_iff.mpr (.inl ⟨p, hp, o, mem_takeWhile_of_le hk ho, rfl⟩)
    · exact mem_underMoves_iff.mpr (.inr ⟨left, p, hcross, o, ho, spent, hbefore.trans hk, rfl⟩)
  · obtain ⟨p, hp, spent, hspent, rfl⟩ := mem_underExits_iff.mp ht
    exact mem_underExits_iff.mpr ⟨p, hp, spent, hspent.trans hk, rfl⟩

end Network

/-! ### A rule that is not carried out -/

/-- A rule that does nothing to packets. -/
def idle : Rule := ⟨some "j", [.noop]⟩

/-- Without failures, packets leave the router with the label `a`, whatever its second rule is. -/
lemma affirmed_backedUp (backup : Rule) (verbose : Bool) (spent : Nat → List String) :
    Affirmed ((backedUp backup).underForwarding 0) verbose spent labelledBehind [.named "a"] := by
  -- the second rule stands behind the first one, so that it is not looked at
  have hsame : (backedUp backup).underForwarding 0 = (backedUp idle).underForwarding 0 := rfl
  rw [hsame]
  let p : Endpoint := ⟨⟨"", some "r"⟩, some "j"⟩
  let busy : Hop Nat := .at p [.push (.named "a")] 0
  let done : Hop Nat := .at p [] 0
  refine (affirmed_iff_met (Network.forwards_underForwarding (n := backedUp idle) (k := 0) rfl)).mpr
    ⟨_, rfl, [], [busy, done, .finish], [.label "a", .bottom], [.named "a"], [], .refl 0, ?_, ?_,
      ?_, rfl⟩
  · refine .step (d := ⟨busy, [.bottom]⟩) ?_ (.step (d := ⟨done, [.label "a", .bottom]⟩) ?_
      (.step (d := ⟨Hop.finish, [StackSymbol.label "a", .bottom]⟩) ?_ (.refl _)))
    · exact Pda.step_of_mem (t := ((backedUp idle).underEntries 0).get ⟨0, by decide⟩) (by decide)
        rfl []
    · exact Pda.step_of_mem (t := actStep p [] 0 (.push (.named "a")) (.push (.label "a")))
        (by decide) rfl []
    · exact Pda.step_of_mem (t := exit p 0) (by decide) rfl [.bottom]
  · exact .read (q := 0) (by decide) (.read (q := 0) (by decide) (.read (q := 1) (by decide)
      (.read (q := 3) (by decide) (.refl 3))))
  · exact .read (q := 1) (by decide) (.refl 1)

lemma doable_backedUp : (backedUp (labelling "x")).Doable := by
  unfold Network.Doable
  decide

/-! ### Both ways to count -/

/-- **Counting failures on the whole way refines counting them at each hop.** Where there is an
automaton of the first kind, there is one of the second kind exactly if packets that enter the
network only meet pushes, swaps and pops. Forgetting the count carries runs over, and a query that
is answered with yes by the first kind is answered with yes by the second kind exactly if there is
an automaton of that kind. -/
theorem overForwarding_refined_iff (n : Network) (k : Int) {M : Pda (Hop Nat) StackSymbol}
    (hM : n.underForwarding k = .ok M) :
    ((∃ M', n.overForwarding k = .ok M') ↔ n.Doable) ∧
    (∀ M', n.overForwarding k = .ok M' → ∀ c ls d, M.Run c ls d →
      M'.Run (c.mapLocation Hop.forget) (ls.map Hop.forget) (d.mapLocation Hop.forget)) ∧
    ∀ q labels verbose spent spent', Affirmed (n.underForwarding k) verbose spent q labels →
      (Affirmed (n.overForwarding k) verbose spent' q labels ↔ n.Doable) := by
  have hacross : n.DoableAcross k := (Network.exists_underForwarding_iff.mp ⟨M, hM⟩).2
  have hexists : (∃ M', n.overForwarding k = .ok M') ↔ n.Doable := by
    rw [Network.exists_overForwarding_iff, and_iff_left hacross]
  refine ⟨hexists, fun M' hM' c ls d hrun => (Network.refines_over hM hM').embeds.run hrun, ?_⟩
  intro q labels verbose spent spent' hyes
  rw [← hexists]
  exact affirmed_iff_exists (fun _ _ => Network.refines_over) hyes verbose spent'

/-- With a second rule that is carried out, both ways to count give the answer yes. -/
theorem overForwarding_refined_otherWay : ∃ M,
    (backedUp (labelling "x")).underForwarding 0 = .ok M ∧
    Affirmed ((backedUp (labelling "x")).underForwarding 0) false (fun _ => []) labelledBehind
      [.named "a"] ∧
    Affirmed ((backedUp (labelling "x")).overForwarding 0) false (fun _ => []) labelledBehind
      [.named "a"] := by
  obtain ⟨M, hM⟩ : ∃ M, (backedUp (labelling "x")).underForwarding 0 = .ok M := ⟨_, rfl⟩
  obtain ⟨-, -, hanswer⟩ := overForwarding_refined_iff _ 0 hM
  have hyes := affirmed_backedUp (labelling "x") false fun _ => []
  exact ⟨M, hM, hyes, (hanswer _ _ _ _ _ hyes).mpr doable_backedUp⟩

/-- **A refinement that is missed**: on entering, all rules are looked at when failures are counted
at each hop, and one that does nothing stops the translation. -/
theorem overForwarding_unrefined_idle :
    Affirmed ((backedUp idle).underForwarding 0) false (fun _ => []) labelledBehind [.named "a"] ∧
    ¬ Affirmed ((backedUp idle).overForwarding 0) false (fun _ => []) labelledBehind
      [.named "a"] := by
  refine ⟨affirmed_backedUp idle false fun _ => [], ?_⟩
  intro hyes
  obtain ⟨M, hM⟩ := hyes.exists_ok
  have hstop : (backedUp idle).overForwarding 0 = .error .missingPart := rfl
  exact absurd (hstop.symm.trans hM) (by simp)

/-! ### Larger bounds -/

/-- **The answer yes stays yes when the bound grows**, exactly if there is an automaton for the
larger bound. At each hop this asks that packets behind links only meet pushes, swaps and pops
within the larger bound, which is no condition if links lead to endpoints. On the whole way it asks
the same of packets that enter the network. -/
theorem affirmed_monotone_iff (n : Network) {k k' : Int} (hk : k ≤ k') (q : Query)
    (labels : List Label) (verbose : Bool) :
    (∀ spent, Affirmed (n.overForwarding k) verbose spent q labels →
      (Affirmed (n.overForwarding k') verbose spent q labels ↔ n.DoableAcross k') ∧
      (n.Grounded → Affirmed (n.overForwarding k') verbose spent q labels)) ∧
    ∀ spent, Affirmed (n.underForwarding k) verbose spent q labels →
      (Affirmed (n.underForwarding k') verbose spent q labels ↔
        n.DoableWithin k' ∧ n.DoableAcross k') := by
  refine ⟨fun spent hyes => ?_, fun spent hyes => ?_⟩
  · have hdoable : n.Doable := (Network.exists_overForwarding_iff.mp hyes.exists_ok).1
    have hanswer : Affirmed (n.overForwarding k') verbose spent q labels ↔ n.DoableAcross k' := by
      rw [affirmed_iff_exists (fun _ _ => Network.refines_over_of_le hk) hyes verbose spent,
        Network.exists_overForwarding_iff, and_iff_right hdoable]
    exact ⟨hanswer, fun hn => hanswer.mpr (hn.doableAcross hdoable k')⟩
  · rw [affirmed_iff_exists (fun _ _ => Network.refines_under_of_le hk) hyes verbose spent,
      Network.exists_underForwarding_iff]

/-- With a second rule that is carried out, the answer stays yes when one failure is allowed. -/
theorem affirmed_monotone_otherWay : (backedUp (labelling "x")).Grounded ∧
    (Affirmed ((backedUp (labelling "x")).overForwarding 0) false (fun _ => []) labelledBehind
        [.named "a"] ∧
      Affirmed ((backedUp (labelling "x")).overForwarding 1) false (fun _ => []) labelledBehind
        [.named "a"]) ∧
    Affirmed ((backedUp (labelling "x")).underForwarding 0) false (fun _ => []) labelledBehind
        [.named "a"] ∧
      Affirmed ((backedUp (labelling "x")).underForwarding 1) false (fun _ => []) labelledBehind
        [.named "a"] := by
  have hgrounded : (backedUp (labelling "x")).Grounded := ⟨by decide, by decide⟩
  have hunder := affirmed_backedUp (labelling "x") false fun _ => []
  have hover : Affirmed ((backedUp (labelling "x")).overForwarding 0) false (fun _ => [])
      labelledBehind [.named "a"] :=
    (affirmed_iff_exists (fun _ _ => Network.refines_over) hunder false fun _ => []).mpr
      (hgrounded.exists_overForwarding_iff.mpr doable_backedUp)
  obtain ⟨hovers, hunders⟩ := affirmed_monotone_iff (backedUp (labelling "x"))
    (show (0 : Int) ≤ 1 by decide) labelledBehind [.named "a"] false
  have hwithin : (backedUp (labelling "x")).DoableWithin 1 := by
    unfold Network.DoableWithin
    decide
  refine ⟨hgrounded, ⟨hover, (hovers _ hover).2 hgrounded⟩, hunder, (hunders _ hunder).mpr ?_⟩
  exact ⟨hwithin, hgrounded.doableAcross doable_backedUp 1⟩

/-- **An answer that is lost**: with one failure allowed on the whole way, a second rule that does
nothing is looked at and stops the translation. -/
theorem affirmed_not_monotone_idle :
    Affirmed ((backedUp idle).underForwarding 0) false (fun _ => []) labelledBehind [.named "a"] ∧
    ¬ Affirmed ((backedUp idle).underForwarding 1) false (fun _ => []) labelledBehind
      [.named "a"] := by
  refine ⟨affirmed_backedUp idle false fun _ => [], ?_⟩
  intro hyes
  obtain ⟨M, hM⟩ := hyes.exists_ok
  have hstop : (backedUp idle).underForwarding 1 = .error .missingPart := rfl
  exact absurd (hstop.symm.trans hM) (by simp)

end MplsReach
