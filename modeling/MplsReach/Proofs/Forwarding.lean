/-
The transitions of forwarding automata.

* `mem_chains_iff`: the chains of hops do every action of every hop, one after the other.
* `exists_chains_iff`: there are chains exactly if all actions can be carried out.
* `mem_transitions_forwarding_iff`: a forwarding automaton has its moves, chains and exits.
* `Network.mem_offersAt_iff`: the rules for arriving packets, each behind those of earlier groups.
* `Network.mem_underMoves_iff`, `Network.mem_underExits_iff`: the ways into, through and out of a
  network with a bound on the whole way.
* `Forwards`: what observers and rules ask of a forwarding automaton; both kinds of forwarding
  provide it.
-/
import MplsReach.Forwarding.Over
import MplsReach.Forwarding.Under
import MplsReach.Proofs.Results
import MplsReach.Proofs.Runs

namespace MplsReach

variable {Spent : Type}

/-! ### Chains of actions -/

/-- The transition that does an action at an endpoint and leaves others to do. -/
def actStep (p : Endpoint) (as : List Action) (e : Spent) (a : Action) (o : Op StackSymbol) :
    Transition (Hop Spent) StackSymbol :=
  { Transition.plain (.at p (a :: as) e) (.at p as e) .any o with guard := some holds }

/-- The actions that are left on the way through a hop are the ends of its actions. -/
lemma Hop.mem_unwind_iff {p : Endpoint} {e : Spent} {as : List Action} {h : Hop Spent} :
    h ∈ Hop.unwind p e as ↔ ∃ bs, bs <:+ as ∧ h = .at p bs e := by
  induction as with
  | nil => simp [Hop.unwind]
  | cons a as ih => simp [Hop.unwind, ih, List.suffix_cons_iff, or_and_right, exists_or]

/-- What the first action of a hop is done by. -/
lemma Hop.act_eq_ok_some_iff {h : Hop Spent} {t : Transition (Hop Spent) StackSymbol} :
    h.act = .ok (some t) ↔
      ∃ p a as e o, h = .at p (a :: as) e ∧ a.op = .ok o ∧ t = actStep p as e a o := by
  constructor
  · intro ht
    match h, ht with
    | .at p (a :: as) e, ht =>
      obtain ⟨o, ho, ht⟩ := exists_of_bind_eq_ok ht
      exact ⟨p, a, as, e, o, rfl, ho, (Option.some.inj (Except.ok.inj ht)).symm⟩
  · rintro ⟨p, a, as, e, o, rfl, ho, rfl⟩
    rw [Hop.act, ho]
    rfl

/-- The first action of a hop is done unless it cannot be carried out. -/
lemma Hop.exists_act_iff {h : Hop Spent} :
    (∃ t, h.act = .ok t) ↔ ∀ p a as e, h = .at p (a :: as) e → ∃ o, a.op = .ok o := by
  constructor
  · rintro ⟨t, ht⟩ p a as e rfl
    obtain ⟨o, ho, -⟩ := exists_of_bind_eq_ok ht
    exact ⟨o, ho⟩
  · intro hops
    match h, hops with
    | .start, _ => exact ⟨none, rfl⟩
    | .finish, _ => exact ⟨none, rfl⟩
    | .at p [] e, _ => exact ⟨none, rfl⟩
    | .at p (a :: as) e, hops =>
      obtain ⟨o, ho⟩ := hops p a as e rfl
      exact ⟨some (actStep p as e a o), Hop.act_eq_ok_some_iff.mpr ⟨p, a, as, e, o, rfl, ho, rfl⟩⟩

/-- What is on the way through some hop. -/
lemma mem_flatMap_unwound_iff {hops : List (Hop Spent)} {p : Endpoint} {bs : List Action}
    {e : Spent} :
    .at p bs e ∈ hops.flatMap Hop.unwound ↔ ∃ as, .at p as e ∈ hops ∧ bs <:+ as := by
  rw [List.mem_flatMap]
  constructor
  · rintro ⟨h, hh, hmem⟩
    match h, hh, hmem with
    | .at p' as e', hh, hmem =>
      obtain ⟨bs', hbs, heq⟩ := Hop.mem_unwind_iff.mp hmem
      obtain ⟨rfl, rfl, rfl⟩ := Hop.at.inj heq
      exact ⟨as, hh, hbs⟩
    | .start, _, hmem => simp [Hop.unwound] at hmem
    | .finish, _, hmem => simp [Hop.unwound] at hmem
  · rintro ⟨as, has, hbs⟩
    exact ⟨_, has, Hop.mem_unwind_iff.mpr ⟨bs, hbs, rfl⟩⟩

variable [DecidableEq Spent]

/-- **The chains of hops** do every action of every hop, one after the other. -/
lemma mem_chains_iff {hops : List (Hop Spent)} {ts : List (Transition (Hop Spent) StackSymbol)}
    (h : chains hops = .ok ts) {t : Transition (Hop Spent) StackSymbol} :
    t ∈ ts ↔ ∃ p cs e a bs o,
      .at p cs e ∈ hops ∧ a :: bs <:+ cs ∧ a.op = .ok o ∧ t = actStep p bs e a o := by
  obtain ⟨us, hus, hts⟩ := exists_of_bind_eq_ok h
  obtain rfl := Except.ok.inj hts
  have hmem : t ∈ us.filterMap id ↔ some t ∈ us := by simp
  rw [hmem, mem_of_mapM_eq_ok hus]
  simp only [Text.mem_distinct, Hop.act_eq_ok_some_iff]
  constructor
  · rintro ⟨_, hhop, p, a, bs, e, o, rfl, ho, rfl⟩
    obtain ⟨cs, hcs, hbs⟩ := mem_flatMap_unwound_iff.mp hhop
    exact ⟨p, cs, e, a, bs, o, hcs, hbs, ho, rfl⟩
  · rintro ⟨p, cs, e, a, bs, o, hcs, hbs, ho, rfl⟩
    exact ⟨_, mem_flatMap_unwound_iff.mpr ⟨cs, hcs, hbs⟩, p, a, bs, e, o, rfl, ho, rfl⟩

/-- There are chains exactly if all actions can be carried out. -/
lemma exists_chains_iff {hops : List (Hop Spent)} :
    (∃ ts, chains hops = .ok ts) ↔
      ∀ p cs e, .at p cs e ∈ hops → ∀ a ∈ cs, ∃ o, a.op = .ok o := by
  have hmap : (∃ ts, chains hops = .ok ts) ↔
      ∃ us, (Text.distinct (hops.flatMap Hop.unwound)).mapM Hop.act = .ok us := by
    constructor
    · rintro ⟨ts, h⟩
      obtain ⟨us, hus, -⟩ := exists_of_bind_eq_ok h
      exact ⟨us, hus⟩
    · rintro ⟨us, hus⟩
      exact ⟨us.filterMap id, by rw [chains, hus]; rfl⟩
  rw [hmap, exists_mapM_iff]
  simp only [Text.mem_distinct, Hop.exists_act_iff]
  constructor
  · intro h p cs e hcs a ha
    obtain ⟨bs, as, rfl⟩ := List.append_of_mem ha
    exact h _ (mem_flatMap_unwound_iff.mpr ⟨_, hcs, List.suffix_append bs _⟩) p a as e rfl
  · rintro h _ hhop p a as e rfl
    obtain ⟨cs, hcs, has⟩ := mem_flatMap_unwound_iff.mp hhop
    exact h p cs e hcs a (has.subset List.mem_cons_self)

/-! ### The automaton -/

variable {moves exits : List (Transition (Hop Spent) StackSymbol)}
  {M : Pda (Hop Spent) StackSymbol}

/-- A forwarding automaton is spanned by its moves, chains and exits. -/
lemma forwarding_eq_ok_iff :
    forwarding moves exits = .ok M ↔ ∃ acts, chains (moves.map (·.target)) = .ok acts ∧
      M = .ofTransitions [.start, .finish] [] [] .start .finish (moves ++ acts ++ exits) := by
  constructor
  · intro h
    obtain ⟨acts, hacts, hM⟩ := exists_of_bind_eq_ok h
    exact ⟨acts, hacts, (Except.ok.inj hM).symm⟩
  · rintro ⟨acts, hacts, rfl⟩
    rw [forwarding, hacts]
    rfl

/-- **The transitions of a forwarding automaton.** -/
lemma mem_transitions_forwarding_iff (h : forwarding moves exits = .ok M)
    {t : Transition (Hop Spent) StackSymbol} :
    t ∈ M.transitions ↔ t ∈ moves ∨
      (∃ p cs e a bs o, (∃ m ∈ moves, m.target = .at p cs e) ∧ a :: bs <:+ cs ∧ a.op = .ok o ∧
        t = actStep p bs e a o) ∨
      t ∈ exits := by
  obtain ⟨acts, hacts, rfl⟩ := forwarding_eq_ok_iff.mp h
  simp only [Pda.ofTransitions, List.mem_append, or_assoc, mem_chains_iff hacts, List.mem_map]

/-- There is a forwarding automaton exactly if the actions of all moves can be carried out. -/
lemma exists_forwarding_iff :
    (∃ M, forwarding moves exits = .ok M) ↔
      ∀ m ∈ moves, ∀ p cs e, m.target = .at p cs e → ∀ a ∈ cs, ∃ o, a.op = .ok o := by
  have hchains : (∃ M, forwarding moves exits = .ok M) ↔
      ∃ acts, chains (moves.map (·.target)) = .ok acts := by
    simp only [forwarding_eq_ok_iff]
    exact ⟨fun ⟨_, acts, h, _⟩ => ⟨acts, h⟩, fun ⟨acts, h⟩ => ⟨_, acts, h, rfl⟩⟩
  rw [hchains, exists_chains_iff]
  constructor
  · intro h m hm p cs e hcs
    exact h p cs e (List.mem_map.mpr ⟨m, hm, hcs⟩)
  · intro h p cs e hcs
    obtain ⟨m, hm, hcs⟩ := List.mem_map.mp hcs
    exact h m hm p cs e hcs

/-- Only which moves and exits there are matters, not their order. -/
lemma exists_forwarding_of_mem_iff {moves' exits' : List (Transition (Hop Spent) StackSymbol)}
    (hmoves : ∀ t, t ∈ moves' ↔ t ∈ moves) (hexits : ∀ t, t ∈ exits' ↔ t ∈ exits)
    (hM : forwarding moves exits = .ok M) :
    ∃ M', forwarding moves' exits' = .ok M' ∧ ∀ t, t ∈ M'.transitions ↔ t ∈ M.transitions := by
  obtain ⟨M', hM'⟩ : ∃ M', forwarding moves' exits' = .ok M' :=
    exists_forwarding_iff.mpr fun m hm => exists_forwarding_iff.mp ⟨M, hM⟩ m ((hmoves m).mp hm)
  refine ⟨M', hM', fun t => ?_⟩
  simp only [mem_transitions_forwarding_iff hM', mem_transitions_forwarding_iff hM, hmoves, hexits]

/-- An automaton from before a network to behind it, whose transitions join its own locations, name
its own symbols and fire on one top or on every top. -/
structure Forwards (M : Pda (Hop Spent) StackSymbol) : Prop where
  plain : M.Plain
  wellFormed : M.WellFormed
  initial_eq : M.initial = .start
  final_eq : M.final = .finish
  initial_mem : M.initial ∈ M.locations

lemma forwards_of_eq_ok (h : forwarding moves exits = .ok M)
    (hmoves : ∀ m ∈ moves, ∀ as, m.input ≠ .among as)
    (hexits : ∀ m ∈ exits, ∀ as, m.input ≠ .among as) : Forwards M := by
  have hplain : M.Plain := by
    intro t ht as
    rcases (mem_transitions_forwarding_iff h).mp ht with
      hm | ⟨p, cs, e, a, bs, o, -, -, -, rfl⟩ | hm
    · exact hmoves t hm as
    · simp [actStep, Transition.plain]
    · exact hexits t hm as
  obtain ⟨acts, -, rfl⟩ := forwarding_eq_ok_iff.mp h
  exact ⟨hplain, Pda.wellFormed_ofTransitions, rfl, rfl,
    Pda.mem_locations_ofTransitions List.mem_cons_self⟩

/-! ### Rules for arriving packets -/

lemma Destination.mem_offersBehind_iff {d : Destination} {m : Nat} {gs : List Group} {o : Offer} :
    o ∈ d.offersBehind m gs ↔ ∃ i g r, gs[i]? = some g ∧ r ∈ g ∧
      o = ⟨d.source, d.label, r, m + (gs.take i).flatten.length⟩ := by
  induction gs generalizing m with
  | nil => simp [Destination.offersBehind]
  | cons g gs ih =>
      rw [Destination.offersBehind, List.mem_append, List.mem_map, ih]
      constructor
      · rintro (⟨r, hr, rfl⟩ | ⟨i, g', r, hi, hr, rfl⟩)
        · exact ⟨0, g, r, rfl, hr, by simp⟩
        · exact ⟨i + 1, g', r, hi, hr, by simp [Nat.add_assoc]⟩
      · rintro ⟨i, g', r, hi, hr, rfl⟩
        cases i with
        | zero =>
            obtain rfl := Option.some.inj hi
            exact .inl ⟨r, hr, by simp⟩
        | succ i => exact .inr ⟨i, g', r, hi, hr, by simp [Nat.add_assoc]⟩

/-- The rules of a destination stand behind all rules of earlier groups. -/
lemma Destination.mem_offers_iff {d : Destination} {o : Offer} :
    o ∈ d.offers ↔ ∃ i g r, d.groups[i]? = some g ∧ r ∈ g ∧
      o = ⟨d.source, d.label, r, (d.groups.take i).flatten.length⟩ := by
  simp only [Destination.offers, Destination.mem_offersBehind_iff, Nat.zero_add]

namespace Network

variable {n : Network} {k : Int}

lemma mem_offersAt_iff {p : Endpoint} {o : Offer} :
    o ∈ n.offersAt p ↔ ∃ d ∈ n.destinationsAt p, ∃ i g r, d.groups[i]? = some g ∧ r ∈ g ∧
      o = ⟨d.source, d.label, r, (d.groups.take i).flatten.length⟩ := by
  simp only [offersAt, List.mem_flatMap, Destination.mem_offers_iff]

lemma mem_overEntries_iff {t : Transition (Hop Unit) StackSymbol} :
    t ∈ n.overEntries ↔ ∃ p ∈ n.endpoints, ∃ o ∈ n.offersAt p, t = o.enter p.router () := by
  simp [overEntries, eq_comm]

lemma mem_overCrossings_iff {t : Transition (Hop Unit) StackSymbol} :
    t ∈ n.overCrossings k ↔ ∃ left arrived, (left, arrived) ∈ n.crossings ∧
      ∃ o ∈ n.offersAt arrived, o.before ≤ k ∧ t = o.cross (.at left [] ()) arrived.router () := by
  simp only [overCrossings, List.mem_flatMap, Prod.exists, List.mem_map, List.mem_filter,
    decide_eq_true_eq, and_assoc, @eq_comm _ t]

/-- The ways into the network and over its links with a bound on the whole way. What was spent
before a crossing is within the bound as well. -/
lemma mem_underMoves_iff {t : Transition (Hop Nat) StackSymbol} :
    t ∈ n.underEntries k ++ (List.range (k + 1).toNat).flatMap (n.underCrossings k) ↔
      (∃ p ∈ n.endpoints, ∃ o ∈ (n.offersAt p).takeWhile fun o => o.before ≤ k,
        t = o.enter p.router o.before) ∨
      ∃ left arrived, (left, arrived) ∈ n.crossings ∧
        ∃ o ∈ n.offersAt arrived, ∃ spent : Nat, ↑(o.before + spent) ≤ k ∧
          t = o.cross (.at left [] spent) arrived.router (spent + o.before) := by
  rw [List.mem_append]
  refine or_congr (by simp [underEntries, eq_comm]) ?_
  simp only [underCrossings, List.mem_flatMap, List.mem_range, Prod.exists, List.mem_map,
    List.mem_filter, decide_eq_true_eq]
  constructor
  · rintro ⟨spent, -, left, arrived, hcross, o, ⟨ho, hbefore⟩, rfl⟩
    exact ⟨left, arrived, hcross, o, ho, spent, hbefore, rfl⟩
  · rintro ⟨left, arrived, hcross, o, ho, spent, hbefore, rfl⟩
    exact ⟨spent, by omega, left, arrived, hcross, o, ⟨ho, hbefore⟩, rfl⟩

/-- The ways out of the network with a bound on the whole way. -/
lemma mem_underExits_iff {t : Transition (Hop Nat) StackSymbol} :
    (t ∈ (List.range (k + 1).toNat).flatMap fun spent => n.endpoints.map (exit · spent)) ↔
      ∃ p ∈ n.endpoints, ∃ spent : Nat, spent ≤ k ∧ t = exit p spent := by
  simp only [List.mem_flatMap, List.mem_range, List.mem_map]
  constructor
  · rintro ⟨spent, hspent, p, hp, rfl⟩
    exact ⟨p, hp, spent, by omega, rfl⟩
  · rintro ⟨p, hp, spent, hspent, rfl⟩
    exact ⟨spent, by omega, p, hp, rfl⟩

/-- Forwarding with a bound at each hop goes from before the network to behind it. -/
lemma forwards_overForwarding {M : Pda (Hop Unit) StackSymbol} (h : n.overForwarding k = .ok M) :
    Forwards M := by
  refine forwards_of_eq_ok h (fun m hm as => ?_) (fun m hm as => ?_)
  · rcases List.mem_append.mp hm with hm | hm
    · obtain ⟨p, -, o, -, rfl⟩ := mem_overEntries_iff.mp hm
      simp [Offer.enter, Transition.plain]
    · obtain ⟨l, r, -, o, -, -, rfl⟩ := mem_overCrossings_iff.mp hm
      simp [Offer.cross, Transition.plain]
  · obtain ⟨p, -, rfl⟩ := List.mem_map.mp hm
    simp [exit, Transition.plain]

/-- Forwarding with a bound on the whole way goes from before the network to behind it. -/
lemma forwards_underForwarding {M : Pda (Hop Nat) StackSymbol} (h : n.underForwarding k = .ok M) :
    Forwards M := by
  refine forwards_of_eq_ok h (fun m hm as => ?_) (fun m hm as => ?_)
  · rcases mem_underMoves_iff.mp hm with ⟨p, -, o, -, rfl⟩ | ⟨l, r, -, o, -, spent, -, rfl⟩
    · simp [Offer.enter, Transition.plain]
    · simp [Offer.cross, Transition.plain]
  · obtain ⟨p, -, spent, -, rfl⟩ := mem_underExits_iff.mp hm
    simp [exit, Transition.plain]

end Network

end MplsReach
