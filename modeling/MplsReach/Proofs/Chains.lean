/-
Chains of actions, and the networks that there are automata for.

* `Performs`: an automaton has given moves, and from each hop that they lead to it does the actions
  of the hop one after the other, and nothing else on the way.
* `performs_of_forwarding`: every automaton of moves and exits does.
* `eq_missingPart_of_forwarding`: there is one way to fail.
* `forwarding_of_read_iff`: **for networks that are read, when there is an automaton of either kind,
  and what its chains do.** An action that does nothing is never carried out.
-/
import MplsReach.Proofs.Realization
import MplsReach.Proofs.Reread

namespace MplsReach

section Chains

variable {Spent : Type} {moves exits : List (Transition (Hop Spent) StackSymbol)}
  {M : Pda (Hop Spent) StackSymbol} {p : Endpoint} {a : Action} {as cs : List Action} {e : Spent}
  {f : Fault}

/-- An automaton has moves, and does the actions of the hops that they lead to: at a hop with
actions left, its only steps do the first one, and down the whole chain it does all of them in their
order. -/
structure Performs (moves : List (Transition (Hop Spent) StackSymbol))
    (M : Pda (Hop Spent) StackSymbol) : Prop where
  mem : ∀ m ∈ moves, m ∈ M.transitions
  step_iff : ∀ m ∈ moves, ∀ p cs e, m.target = .at p cs e → ∀ a as, a :: as <:+ cs → ∀ u c,
    M.Step ⟨.at p (a :: as) e, u⟩ c ↔ ∃ v, a.Turns u v ∧ c = ⟨.at p as e, v⟩
  run_iff : ∀ m ∈ moves, ∀ p as e, m.target = .at p as e → ∀ u v,
    M.Run ⟨.at p as e, u⟩ (Hop.unwind p e as).tail ⟨.at p [] e, v⟩ ↔ Action.TurnAll as u v

/-- The hops of a chain start with the first one. -/
lemma Hop.unwind_eq_cons (p : Endpoint) (e : Spent) (as : List Action) :
    Hop.unwind p e as = .at p as e :: (Hop.unwind p e as).tail := by
  cases as <;> rfl

/-- The first action of a hop is done, unless it is none of push, swap and pop. -/
lemma eq_missingPart_of_act {h : Hop Spent} (hf : h.act = .error f) :
    f = .missingPart := by
  rcases h with _ | _ | ⟨p, _ | ⟨a, as⟩, e⟩
  · exact absurd hf (by simp [Hop.act])
  · exact absurd hf (by simp [Hop.act])
  · exact absurd hf (by simp [Hop.act])
  · rcases eq_error_or_of_bind_eq_error hf with ha | ⟨o, -, hf⟩
    · cases a <;> simp_all [Action.op]
    · exact absurd hf (by simp [pure, Except.pure])

variable [DecidableEq Spent]

lemma step_busy_iff (hM : forwarding moves exits = .ok M) (hm : Moving moves exits)
    (hcs : ∃ m ∈ moves, m.target = .at p cs e) (has : a :: as <:+ cs) {u : List StackSymbol}
    {c : Config (Hop Spent) StackSymbol} :
    M.Step ⟨.at p (a :: as) e, u⟩ c ↔ ∃ v, a.Turns u v ∧ c = ⟨.at p as e, v⟩ := by
  constructor
  · intro h
    obtain ⟨v, hv, rfl⟩ := step_busy hM hm h
    exact ⟨v, Action.onStack_eq_some_iff_turns.mp hv, rfl⟩
  · rintro ⟨v, hv, rfl⟩
    have hstack := Action.onStack_eq_some_iff_turns.mpr hv
    exact (step_forwarding_iff hM hm).mpr
      (.inr (.inl ⟨p, cs, e, a, as, u, v, hcs, has, hstack, rfl, rfl⟩))

/-- Down a chain, the actions are done one after the other. -/
lemma run_chain_iff (hM : forwarding moves exits = .ok M) (hm : Moving moves exits)
    (hcs : ∃ m ∈ moves, m.target = .at p cs e) (has : as <:+ cs) {u v : List StackSymbol} :
    M.Run ⟨.at p as e, u⟩ (Hop.unwind p e as).tail ⟨.at p [] e, v⟩ ↔ Action.TurnAll as u v := by
  induction as generalizing u with
  | nil =>
      constructor
      · intro h
        cases h
        exact .nil _
      · intro h
        cases h
        exact .refl _
  | cons a as ih =>
      have hsuffix : as <:+ cs := (List.suffix_cons a as).trans has
      have htail : (Hop.unwind p e (a :: as)).tail = .at p as e :: (Hop.unwind p e as).tail :=
        Hop.unwind_eq_cons p e as
      rw [htail]
      constructor
      · intro h
        generalize hls : .at p as e :: (Hop.unwind p e as).tail = ls at h
        cases h with
        | step hstep hrun =>
            obtain ⟨w, hw, rfl⟩ := (step_busy_iff hM hm hcs has).mp hstep
            obtain ⟨-, rfl⟩ := List.cons.inj hls
            exact .cons hw ((ih hsuffix).mp hrun)
      · intro h
        cases h with
        | cons hw hall =>
            exact .step ((step_busy_iff hM hm hcs has).mpr ⟨_, hw, rfl⟩) ((ih hsuffix).mpr hall)

lemma performs_of_forwarding (hM : forwarding moves exits = .ok M) (hm : Moving moves exits) :
    Performs moves M where
  mem _ hmem := (mem_transitions_forwarding_iff hM).mpr (.inl hmem)
  step_iff m hmem _ _ _ htarget _ _ has _ _ := step_busy_iff hM hm ⟨m, hmem, htarget⟩ has
  run_iff m hmem _ as _ htarget _ _ :=
    run_chain_iff hM hm ⟨m, hmem, htarget⟩ (List.suffix_refl as)

/-- There is no automaton only where an action is not carried out. -/
lemma eq_missingPart_of_forwarding (h : forwarding moves exits = .error f) :
    f = .missingPart := by
  rcases eq_error_or_of_bind_eq_error h with hchains | ⟨acts, -, h⟩
  · rcases eq_error_or_of_bind_eq_error hchains with hacts | ⟨ts, -, h⟩
    · obtain ⟨hop, -, hact⟩ := exists_of_mapM_eq_error hacts
      exact eq_missingPart_of_act hact
    · exact absurd h (by simp [pure, Except.pure])
  · exact absurd h (by simp [pure, Except.pure])

end Chains

/-! ### Networks that are read -/

/-- **Automata of networks that are read.** With a bound at each hop, there is an automaton exactly
if packets that arrive anywhere meet pushes, swaps and pops only; with a bound on the whole way,
exactly if those within the bound do. Otherwise there is none, because of an action that is not
carried out. Either automaton enters the network and crosses links to hops where it does the actions
of the rules, one after the other. -/
theorem forwarding_of_read_iff {topology routing : String} {n : Network}
    (h : Network.read topology routing = .ok n) (k : Int) :
    ((∃ M, n.overForwarding k = .ok M) ↔ n.Doable) ∧
    ((∃ M, n.underForwarding k = .ok M) ↔ n.DoableWithin k ∧ n.DoableAcross k) ∧
    (∀ f, n.overForwarding k = .error f ∨ n.underForwarding k = .error f → f = .missingPart) ∧
    (∀ M, n.overForwarding k = .ok M → Performs (n.overEntries ++ n.overCrossings k) M) ∧
    ∀ M, n.underForwarding k = .ok M →
      Performs (n.underEntries k ++ (List.range (k + 1).toNat).flatMap (n.underCrossings k)) M := by
  refine ⟨(Network.grounded_of_read h).exists_overForwarding_iff,
    Network.exists_underForwarding_iff, fun f hf => ?_, fun M hM => ?_, fun M hM => ?_⟩
  · exact hf.elim eq_missingPart_of_forwarding eq_missingPart_of_forwarding
  · exact performs_of_forwarding hM Network.moving_over
  · exact performs_of_forwarding hM Network.moving_under

/-- A router with two interfaces. -/
def standbyTopology : String := "<network><routers><router name=\"r\"><interfaces>
<interface name=\"i\"/><interface name=\"j\"/></interfaces></router></routers>
<links></links></network>"

/-- Two labels take the place of one, and stand by is a rule that does nothing. -/
def standbyRouting : String := "<routes><routings><routing for=\"r\"><destinations>
<destination from=\"i\" label=\"a\"><te-groups>
<te-group><routes><route to=\"j\"><actions><action type=\"swap\" arg=\"b\"/>
<action type=\"push\" arg=\"c\"/></actions></route></routes></te-group>
<te-group><routes><route to=\"j\"><actions><action/></actions></route></routes></te-group>
</te-groups></destination></destinations></routing></routings></routes>"

/-- The network of these documents. -/
def standby : Network :=
  let router : Router := ⟨⟨"", some "r"⟩, [⟨some "i", false⟩, ⟨some "j", false⟩]⟩
  ⟨[router], [], [⟨router, [⟨some "i", .named "a",
    [[⟨some "j", [.swap (.named "b"), .push (.named "c")]⟩], [⟨some "j", [.noop]⟩]]⟩]⟩]⟩

set_option maxRecDepth 10000 in
lemma read_standby : Network.read standbyTopology standbyRouting = .ok standby := by
  simp only [Network.read, readTopology, readRouting,
    show Xml.Node.read standbyTopology = _ from Xml.Node.read_ofList _,
    show Xml.Node.read standbyRouting = _ from Xml.Node.read_ofList _]
  decide +kernel

/-- As long as the rule that stands by is out of reach, the chain of the other one is done. -/
theorem forwarding_of_read_standby :
    Network.read standbyTopology standbyRouting = .ok standby ∧
    ∃ M, standby.underForwarding 0 = .ok M ∧
      M.Run ⟨.at ⟨⟨"", some "r"⟩, some "j"⟩ [.swap (.named "b"), .push (.named "c")] 0,
          [.label "a", .bottom]⟩
        [.at ⟨⟨"", some "r"⟩, some "j"⟩ [.push (.named "c")] 0,
          .at ⟨⟨"", some "r"⟩, some "j"⟩ [] 0]
        ⟨.at ⟨⟨"", some "r"⟩, some "j"⟩ [] 0, [.label "c", .label "b", .bottom]⟩ := by
  obtain ⟨-, -, -, -, hperforms⟩ := forwarding_of_read_iff read_standby 0
  obtain ⟨M, hM⟩ : ∃ M, standby.underForwarding 0 = .ok M := ⟨_, rfl⟩
  refine ⟨read_standby, M, hM, ?_⟩
  refine ((hperforms M hM).run_iff _ (.head _) _ _ _ rfl _ _).mpr ?_
  exact .cons (.swap _ _ _) (.cons (.push _ _ _) (.nil _))

/-- A rule that does nothing is enough for there to be no automaton. -/
theorem not_forwarding_standby :
    Network.read standbyTopology standbyRouting = .ok standby ∧
    (∀ as ∈ standby.actionLists, ∀ a ∈ as, a ≠ .unknown) ∧
    standby.overForwarding 0 = .error .missingPart ∧
    standby.underForwarding 1 = .error .missingPart :=
  ⟨read_standby, by decide, rfl, rfl⟩

end MplsReach
