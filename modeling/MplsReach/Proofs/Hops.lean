/-
One hop of a packet, from where it left one router to where it leaves the next one.

* `Action.Turns`, `Action.TurnAll`: pushes, swaps and pops on a stack, case by case.
* `Network.Executable`: all actions of a network are pushes, swaps and pops, so that both kinds of
  forwarding have an automaton.
* `exists_single_run_iff`: a run between two endpoints that passes no other one is one move, and the
  actions of the hop that it leads to.
* `Network.Hops`: a link is crossed and a rule that stands behind at most `k` others is applied.
* `overForwarding_hop_iff`: **between two endpoints, forwarding with a bound at each hop does just
  that.**
-/
import MplsReach.Proofs.Failures

namespace MplsReach

/-! ### Actions, case by case -/

/-- What an action does to a stack: a push puts a label above the top, a swap puts one in its place,
and a pop takes it away. There is always a top. -/
inductive Action.Turns : Action → List StackSymbol → List StackSymbol → Prop where
  | push (l : Label) (s : StackSymbol) (w : List StackSymbol) :
      Turns (.push l) (s :: w) (.ofLabel l :: s :: w)
  | swap (l : Label) (s : StackSymbol) (w : List StackSymbol) :
      Turns (.swap l) (s :: w) (.ofLabel l :: w)
  | pop (s : StackSymbol) (w : List StackSymbol) : Turns .pop (s :: w) w

/-- What actions do to a stack, in order. -/
inductive Action.TurnAll : List Action → List StackSymbol → List StackSymbol → Prop where
  | nil (w : List StackSymbol) : TurnAll [] w w
  | cons {a : Action} {as : List Action} {u v w : List StackSymbol} :
      a.Turns u v → TurnAll as v w → TurnAll (a :: as) u w

lemma Action.onStack_eq_some_iff_turns {a : Action} {u v : List StackSymbol} :
    a.onStack u = some v ↔ a.Turns u v := by
  constructor
  · intro h
    obtain ⟨o, s, w, ho, rfl, rfl⟩ := Action.onStack_eq_some_iff.mp h
    cases a with
    | push l =>
        obtain rfl := Except.ok.inj ho
        exact .push l s w
    | swap l =>
        obtain rfl := Except.ok.inj ho
        exact .swap l s w
    | pop =>
        obtain rfl := Except.ok.inj ho
        exact .pop s w
    | noop => cases ho
    | unknown => cases ho
  · rintro (⟨l, s, w⟩ | ⟨l, s, w⟩ | ⟨s, w⟩) <;> rfl

lemma Action.allOnStack_eq_some_iff {as : List Action} {u v : List StackSymbol} :
    Action.allOnStack as u = some v ↔ Action.TurnAll as u v := by
  constructor
  · intro h
    induction as generalizing u with
    | nil =>
        obtain rfl := Option.some.inj h
        exact .nil u
    | cons a as ih =>
        obtain ⟨w, hw, h⟩ := Option.bind_eq_some_iff.mp h
        exact .cons (Action.onStack_eq_some_iff_turns.mp hw) (ih h)
  · intro h
    induction h with
    | nil => rfl
    | cons ha _ ih =>
        exact Option.bind_eq_some_iff.mpr ⟨_, Action.onStack_eq_some_iff_turns.mpr ha, ih⟩

/-! ### Networks whose actions are carried out -/

/-- All actions of rules are pushes, swaps and pops. -/
def Network.Executable (n : Network) : Prop :=
  ∀ t ∈ n.tables, ∀ d ∈ t.destinations, ∀ r ∈ d.rules, ∀ a ∈ r.actions, a ≠ .noop ∧ a ≠ .unknown

namespace Network

variable {n : Network}

/-- Rules for arriving packets are rules of the network. -/
lemma Executable.carriedOut (hn : n.Executable) {p : Endpoint} {o : Offer} (ho : o ∈ n.offersAt p) :
    ∀ a ∈ o.rule.actions, a ≠ .noop ∧ a ≠ .unknown := by
  obtain ⟨d, hd, i, g, r, hg, hr, rfl⟩ := mem_offersAt_iff.mp ho
  obtain ⟨t, ht, -, hdt, -⟩ := mem_destinationsAt_iff.mp hd
  exact hn t ht d hdt r (Destination.mem_rules hg hr)

lemma Executable.exists_overForwarding (hn : n.Executable) (k : Int) :
    ∃ M, n.overForwarding k = .ok M :=
  exists_overForwarding_iff.mpr ⟨fun _ _ _ ho => hn.carriedOut ho,
    fun _ _ _ _ ho _ => hn.carriedOut ho⟩

end Network

/-! ### Runs between two endpoints -/

/-- A run ends at the location that it enters last. -/
lemma Pda.Run.getLast_eq {Loc Sym : Type} [DecidableEq Sym] {p : Pda Loc Sym}
    {c d : Config Loc Sym} {ls : List Loc} (h : p.Run c ls d) :
    (c.location :: ls).getLast (List.cons_ne_nil _ _) = d.location := by
  induction h with
  | refl => rfl
  | step _ _ ih => rwa [List.getLast_cons_cons]

section Single

variable {Spent : Type}

lemma passed_eq_nil_iff {ls : List (Hop Spent)} :
    passed ls = [] ↔ ∀ p e, .at p [] e ∉ ls := by
  rw [passed, List.filterMap_eq_nil_iff]
  constructor
  · intro h p e hmem
    exact absurd (h _ hmem) (by simp [Hop.done?])
  · intro h l hl
    rcases l with _ | _ | ⟨p, _ | ⟨a, as⟩, e⟩
    · rfl
    · rfl
    · exact absurd hl (h p e)
    · rfl

variable [DecidableEq Spent] {moves exits : List (Transition (Hop Spent) StackSymbol)}
  {M : Pda (Hop Spent) StackSymbol} {p q : Endpoint} {e f : Spent} {u v : List StackSymbol}

/-- While a run passes no endpoint, it does the actions of the hop that it is at. -/
lemma eq_of_run_unpassed (hM : forwarding moves exits = .ok M) (hm : Moving moves exits)
    {as : List Action} {ms ls : List (Hop Spent)}
    (h : M.Run ⟨.at p as e, u⟩ ms ⟨.at q [] f, v⟩)
    (hls : .at p as e :: ms = ls ++ [.at q [] f]) (hpassed : ∀ p' e', .at p' [] e' ∉ ls) :
    p = q ∧ e = f ∧ Action.allOnStack as u = some v := by
  induction as generalizing u ms ls with
  | nil =>
      -- the endpoint is passed at once, so it is the last one
      cases ls with
      | cons l ls =>
          obtain ⟨rfl, -⟩ := List.cons.inj hls
          exact absurd List.mem_cons_self (hpassed p e)
      | nil =>
          obtain ⟨hat, rfl⟩ := List.cons.inj hls
          obtain ⟨rfl, -, rfl⟩ := Hop.at.inj hat
          cases h
          exact ⟨rfl, rfl, rfl⟩
  | cons a as ih =>
      cases ls with
      | nil =>
          obtain ⟨hat, -⟩ := List.cons.inj hls
          exact absurd (Hop.at.inj hat).2.1 (List.cons_ne_nil a as)
      | cons l ls =>
          rw [List.cons_append] at hls
          obtain ⟨rfl, hms⟩ := List.cons.inj hls
          have hrest : ∀ p' e', .at p' [] e' ∉ ls := fun p' e' hmem =>
            hpassed p' e' (List.mem_cons_of_mem _ hmem)
          cases h with
          | step hstep hrun =>
              obtain ⟨w, hw, rfl⟩ := step_busy hM hm hstep
              obtain ⟨rfl, rfl, hall⟩ := ih hrun hms hrest
              exact ⟨rfl, rfl, Option.bind_eq_some_iff.mpr ⟨w, hw, hall⟩⟩

/-- **Runs between two endpoints** that pass no other one: one move to a hop, and its actions. -/
lemma exists_single_run_iff (hM : forwarding moves exits = .ok M) (hm : Moving moves exits) :
    (∃ ls, M.Run ⟨.at p [] e, u⟩ (ls ++ [.at q [] f]) ⟨.at q [] f, v⟩ ∧
      ∀ p' e', .at p' [] e' ∉ ls) ↔
      ∃ t ∈ moves, ∃ a as, t.source = .at p [] e ∧ t.target = .at q as f ∧ t.input = .on a ∧
        u.head? = some a ∧ Action.allOnStack as u = some v := by
  constructor
  · rintro ⟨ls, hrun, hpassed⟩
    generalize hms : ls ++ [.at q [] f] = ms at hrun
    cases hrun with
    | refl => simp at hms
    | step hstep hrun =>
        rcases step_done hM hm hstep with ⟨t, ht, a, w, hsource, ha, rfl, rfl⟩ | ⟨-, -, rfl⟩
        · obtain ⟨q', as, f', htarget⟩ := hm.target t ht
          rw [htarget] at hrun hms
          obtain ⟨rfl, rfl, hall⟩ := eq_of_run_unpassed hM hm hrun hms.symm hpassed
          exact ⟨t, ht, a, as, hsource, htarget, ha, rfl, hall⟩
        · cases hrun with
          | step hstep' => exact absurd hstep' (not_step_finish hM hm)
  · rintro ⟨t, ht, a, as, hsource, htarget, ha, hu, hall⟩
    obtain ⟨w, rfl⟩ := List.head?_eq_some_iff.mp hu
    obtain ⟨ms, hrun, hpassed⟩ :=
      exists_run_of_allOnStack hM hm ⟨t, ht, htarget⟩ (List.suffix_refl as) hall
    have hstep : M.Step ⟨.at p [] e, a :: w⟩ ⟨.at q as f, a :: w⟩ :=
      (step_forwarding_iff hM hm).mpr (.inl ⟨t, ht, a, w, ha, by rw [hsource], by rw [htarget]⟩)
    -- the one endpoint that is passed is the one at the end
    have hlast := List.dropLast_append_getLast (List.cons_ne_nil (.at q as f) ms)
    rw [hrun.getLast_eq] at hlast
    refine ⟨(.at q as f :: ms).dropLast, ?_, ?_⟩
    · rw [hlast]
      exact .step hstep hrun
    · rw [← passed_eq_nil_iff]
      rw [← hlast, passed, List.filterMap_append] at hpassed
      have hlength := congrArg List.length hpassed
      rw [List.length_append] at hlength
      exact List.eq_nil_of_length_eq_zero (Nat.succ.inj hlength)

end Single

/-! ### Hops of a network -/

/-- A packet that left by an endpoint `p` leaves by `q` next: `p` is one end of a link, the other
end is an interface of the router of `q`, and the router has a destination for that interface and
the label on top of the stack. A group of this destination that at most `k` rules of earlier groups
stand before has a rule to `q`, and the actions of the rule turn the one stack into the other. -/
def Network.Hops (n : Network) (k : Int) (p q : Endpoint) (u v : List StackSymbol) : Prop :=
  ∃ l ∈ n.links, ∃ j, (l.source = p ∧ l.target = ⟨q.router, j⟩ ∨
      l.target = p ∧ l.source = ⟨q.router, j⟩) ∧
    ∃ t ∈ n.tables, t.router.id = q.router ∧
    ∃ d ∈ t.destinations, d.source = j ∧ u.head? = some (.ofLabel d.label) ∧
    ∃ i g, d.groups[i]? = some g ∧ ((d.groups.take i).flatten.length : Int) ≤ k ∧
    ∃ r ∈ g, r.target = q.interface ∧ Action.TurnAll r.actions u v

namespace Network

variable {n : Network} {k : Int}

lemma mem_crossings_iff {p q : Endpoint} :
    (p, q) ∈ n.crossings ↔
      ∃ l ∈ n.links, l.source = p ∧ l.target = q ∨ l.target = p ∧ l.source = q := by
  simp [crossings, eq_comm]

/-- The moves of the automaton from one endpoint to the next are the hops of the network. -/
lemma exists_overMove_iff {p q : Endpoint} {u v : List StackSymbol} :
    (∃ t ∈ n.overEntries ++ n.overCrossings k, ∃ a as, t.source = .at p [] () ∧
      t.target = .at q as () ∧ t.input = .on a ∧ u.head? = some a ∧
        Action.allOnStack as u = some v) ↔ n.Hops k p q u v := by
  constructor
  · rintro ⟨t, ht, a, as, hsource, htarget, ha, hu, hall⟩
    rcases List.mem_append.mp ht with ht | ht
    · obtain ⟨p', -, o, -, rfl⟩ := mem_overEntries_iff.mp ht
      cases hsource
    · obtain ⟨left, arrived, hcross, o, ho, hbefore, rfl⟩ := mem_overCrossings_iff.mp ht
      obtain ⟨rfl, -, -⟩ := Hop.at.inj hsource
      obtain ⟨rfl, rfl, -⟩ := Hop.at.inj htarget
      obtain rfl := Input.on.inj ha
      obtain ⟨d, hd, i, g, r, hg, hr, rfl⟩ := mem_offersAt_iff.mp ho
      obtain ⟨t, ht, hrouter, hdt, hdsource⟩ := mem_destinationsAt_iff.mp hd
      obtain ⟨l, hl, hends⟩ := mem_crossings_iff.mp hcross
      exact ⟨l, hl, arrived.interface, hends, t, ht, hrouter, d, hdt, hdsource, hu, i, g, hg,
        hbefore, r, hr, rfl, Action.allOnStack_eq_some_iff.mp hall⟩
  · obtain ⟨router, interface⟩ := q
    rintro ⟨l, hl, j, hends, t, ht, hrouter, d, hdt, rfl, hu, i, g, hg, hbefore, r, hr, rfl, hturn⟩
    have hd : d ∈ n.destinationsAt ⟨router, d.source⟩ :=
      mem_destinationsAt_iff.mpr ⟨t, ht, hrouter, hdt, rfl⟩
    have ho := mem_offersAt_iff.mpr ⟨d, hd, i, g, r, hg, hr, rfl⟩
    have hcross := mem_crossings_iff.mpr ⟨l, hl, hends⟩
    have hmove := mem_overCrossings_iff.mpr ⟨p, _, hcross, _, ho, hbefore, rfl⟩
    exact ⟨_, List.mem_append_right _ hmove, _, r.actions, rfl, rfl, rfl, hu,
      Action.allOnStack_eq_some_iff.mpr hturn⟩

end Network

/-- **Forwarding, hop by hop.** In a network of pushes, swaps and pops there is an automaton with a
bound at each hop, and its runs from one endpoint to the next, with no other endpoint passed in
between, are just the hops of the network. -/
theorem overForwarding_hop_iff (n : Network) (hn : n.Executable) (k : Int) :
    ∃ M, n.overForwarding k = .ok M ∧ ∀ (p q : Endpoint) (u v : List StackSymbol),
      (∃ ls, M.Run ⟨.at p [] (), u⟩ (ls ++ [.at q [] ()]) ⟨.at q [] (), v⟩ ∧
        ∀ p' e', .at p' [] e' ∉ ls) ↔ n.Hops k p q u v := by
  obtain ⟨M, hM⟩ := hn.exists_overForwarding k
  refine ⟨M, hM, fun p q u v => ?_⟩
  rw [exists_single_run_iff hM Network.moving_over]
  exact Network.exists_overMove_iff

/-- The way around the detour: from the first router to the second one, which swaps the label. -/
theorem overForwarding_hop_oneDetour : oneDetour.Executable ∧
    ∃ M, oneDetour.overForwarding 1 = .ok M ∧ ∃ ls,
      M.Run ⟨.at ⟨⟨"", some "A"⟩, some "b"⟩ [] (), [.label "L", .bottom]⟩
        (ls ++ [.at ⟨⟨"", some "B"⟩, some "c"⟩ [] ()])
        ⟨.at ⟨⟨"", some "B"⟩, some "c"⟩ [] (), [.label "K", .bottom]⟩ := by
  have hexecutable : oneDetour.Executable := by
    unfold Network.Executable
    decide
  obtain ⟨M, hM, hhops⟩ := overForwarding_hop_iff oneDetour hexecutable 1
  refine ⟨hexecutable, M, hM, ?_⟩
  have hhop : oneDetour.Hops 1 ⟨⟨"", some "A"⟩, some "b"⟩ ⟨⟨"", some "B"⟩, some "c"⟩
      [.label "L", .bottom] [.label "K", .bottom] :=
    ⟨_, .head _, some "a", .inl ⟨rfl, rfl⟩, _, .tail _ (.head _), rfl, _, .head _, rfl, rfl,
      1, _, rfl, by decide, _, .head _, rfl, .cons (.swap (.named "K") _ _) (.nil _)⟩
  obtain ⟨ls, hrun, -⟩ := (hhops _ _ _ _).mpr hhop
  exact ⟨ls, hrun⟩

end MplsReach
