/-
What the rules for a query say about a network.

* `Query.Automata.Met`: a header in front of the network, a run through it and a header behind it
  that the automata of a query accept.
* `RuleSystem.Decides`: the goal of rules is reachable exactly if a query is met.
* `whole_reaches_iff_met`: a run of the three parts is a run of each of them, one behind the other.
* `compileFor_decides`: **the rules for a query decide it**, for both kinds of forwarding.
-/
import MplsReach.Analysis.Compile
import MplsReach.Proofs.Concat
import MplsReach.Proofs.Drawing
import MplsReach.Proofs.Forwarding
import MplsReach.Proofs.Header
import MplsReach.Proofs.Paths
import MplsReach.Proofs.Product
import MplsReach.Proofs.Tops

namespace MplsReach

/-! ### Comments -/

section Annotated

variable {Loc Sym : Type} [DecidableEq Sym] {p : Pda Loc Sym} (n : Naming Loc Sym)

/-- Comments change no step. -/
lemma step_annotated_iff {c d : Config Loc Sym} : (p.annotated n).Step c d ↔ p.Step c d := by
  simp only [Pda.step_iff, Pda.annotated, List.mem_map, exists_exists_and_eq_and]

lemma reaches_annotated_iff {c d : Config Loc Sym} :
    (p.annotated n).Reaches c d ↔ p.Reaches c d := by
  have hstep : (p.annotated n).Step = p.Step := by
    funext c d
    exact propext (step_annotated_iff n)
  rw [Pda.reaches_iff, Pda.reaches_iff, hstep]

lemma Pda.WellFormed.annotated (hp : p.WellFormed) : (p.annotated n).WellFormed := by
  refine ⟨fun t ht => ?_, fun t ht => ?_, fun t ht => ?_⟩ <;>
    obtain ⟨t', ht', rfl⟩ := List.mem_map.mp ht
  · exact hp.source_mem t' ht'
  · exact hp.target_mem t' ht'
  · exact hp.symbols_mem t' ht'

end Annotated

/-! ### The three parts -/

variable {Spent : Type} [DecidableEq Spent] {M : Pda (Hop Spent) StackSymbol}
  {a : Query.Automata Spent}

/-- A query is met: a header that may stand in front of the network, a run through the network whose
locations make an accepted path, and behind it an accepted header above a bottom of the stack. -/
def Query.Automata.Met (a : Query.Automata Spent) (M : Pda (Hop Spent) StackSymbol) : Prop :=
  ∃ c ls w d rest, a.constructing.Accepts c ∧
    M.Run ⟨.start, (c.map .ofLabel).reverse ++ [.bottom]⟩ ls ⟨.finish, w⟩ ∧
    a.network.Accepts (.start :: ls) ∧
    a.destructing.Accepts d ∧ w = d.map .ofLabel ++ .bottom :: rest

/-- Rules that start from the bottom of the stack, in front of the header in front of the network,
and whose goal, the bottom of the stack behind the header behind the network, is reachable exactly
if the query is met. -/
structure RuleSystem.Decides (s : RuleSystem (Place Spent) StackSymbol)
    (a : Query.Automata Spent) (M : Pda (Hop Spent) StackSymbol) : Prop where
  start_eq : s.start = (.inl (.inl .start), .bottom)
  goal_eq : s.goal = (.inr a.destructing.final, .bottom)
  reachable_iff : s.GoalReachable ↔ a.Met M

/-- The path of a query through a forwarding automaton is entered in front of the network. -/
lemma Query.entered_network {q : Query} {labels : List Label} (hM : Forwards M)
    (h : q.automata labels M = .ok a) : a.network.Entered .start := by
  obtain ⟨_, _, -, hnetwork, -⟩ := Query.exists_of_automata_eq_ok h
  rw [hM.initial_eq, hM.final_eq] at hnetwork
  refine Alphabet.entered_automatonBetween (Alphabet.closed_hops _) ?_ (by simp) hnetwork
  rintro l hl rfl
  simp [Hop.routerName?] at hl

lemma plain_front (hM : Forwards M) (takeOver : Bool) : ((a.parts M).front takeOver).Plain :=
  Pda.plain_concat Nfa.plain_builder (Pda.plain_product hM.plain)

lemma wellFormed_whole (hM : Forwards M) (takeOver : Bool) :
    ((a.parts M).whole takeOver).WellFormed := by
  have hfront : ((a.parts M).front takeOver).WellFormed :=
    Pda.wellFormed_concat Nfa.plain_builder (Pda.plain_product hM.plain)
      Pda.wellFormed_ofTransitions Pda.wellFormed_ofTransitions
      (Pda.mem_locations_ofTransitions (List.mem_cons_of_mem _ List.mem_cons_self))
      (Pda.mem_locations_ofTransitions List.mem_cons_self)
  have hfinal : (a.parts M).network.final ∈ (a.parts M).network.locations :=
    Pda.mem_locations_ofTransitions (List.mem_cons_of_mem _ List.mem_cons_self)
  refine Pda.wellFormed_concat (plain_front hM takeOver) Nfa.plain_remover hfront
    Pda.wellFormed_ofTransitions ?_ (Pda.mem_locations_ofTransitions List.mem_cons_self)
  exact List.mem_append_right _ (List.mem_map_of_mem hfinal)

/-- The first header is built from the bottom of the stack. -/
lemma build_reaches_iff {C : Nfa ℕ Label} {u : List StackSymbol} :
    (C.mapSymbols .ofLabel).builder.Reaches ⟨.start, [.bottom]⟩ ⟨.finish, u⟩ ↔
      ∃ c, C.Accepts c ∧ u = (c.map .ofLabel).reverse ++ [.bottom] := by
  rw [Nfa.builder_reaches_finish_iff, Nfa.exists_accepts_mapSymbols_iff]

/-- The network is run through along an accepted path. -/
lemma network_reaches_iff (hM : Forwards M) (ha : a.network.Entered .start)
    {u v : List StackSymbol} (hv : v ≠ []) :
    (a.parts M).network.Reaches ⟨(none, a.network.initial), u⟩
      ⟨(some M.final, a.network.final), v⟩ ↔
      ∃ ls, M.Run ⟨.start, u⟩ ls ⟨.finish, v⟩ ∧ a.network.Accepts (.start :: ls) := by
  have h := Pda.product_reaches_iff (m := M.final) (r := a.network.final) (u := u) hM.plain
    hM.wellFormed hM.initial_mem (hM.initial_eq ▸ ha) hv
  rw [hM.initial_eq, hM.final_eq] at h
  rw [Query.Automata.parts, hM.final_eq]
  exact h

/-- The last header is taken off the stack. -/
lemma destroy_reaches_iff {D : Nfa ℕ Label} {v u : List StackSymbol} (hu : u ≠ []) :
    (D.mapSymbols .ofLabel).remover.Reaches ⟨D.initial, v⟩ ⟨D.final, u⟩ ↔
      ∃ d, D.Accepts d ∧ v = d.map .ofLabel ++ u := by
  rw [Nfa.remover_mapSymbols_iff]
  simp only [hu, false_implies, and_true]

/-- **A run of the three parts** is a run of each of them, one behind the other. -/
lemma whole_reaches_iff_met (hM : Forwards M) (ha : a.network.Entered .start) (takeOver : Bool) :
    (∃ w, ((a.parts M).whole takeOver).Reaches ⟨.inl (.inl .start), [.bottom]⟩
      ⟨.inr a.destructing.final, .bottom :: w⟩) ↔ a.Met M := by
  constructor
  · rintro ⟨w, h⟩
    obtain ⟨v, hv, hfront, hdestroy⟩ :=
      (Pda.concat_reaches_iff (plain_front hM takeOver) Nfa.plain_remover).mp h
    obtain ⟨u, -, hbuild, hnet⟩ :=
      (Pda.concat_reaches_iff Nfa.plain_builder (Pda.plain_product hM.plain)).mp hfront
    obtain ⟨c, hc, rfl⟩ := build_reaches_iff.mp hbuild
    obtain ⟨ls, hrun, hls⟩ := (network_reaches_iff hM ha hv).mp hnet
    obtain ⟨d, hd, hvd⟩ := (destroy_reaches_iff (List.cons_ne_nil _ _)).mp hdestroy
    exact ⟨c, ls, v, d, w, hc, hrun, hls, hd, hvd⟩
  · rintro ⟨c, ls, v, d, w, hc, hrun, hls, hd, hvd⟩
    have hv : v ≠ [] := by simp [hvd]
    have hbuild : (a.parts M).build.Reaches ⟨.start, [.bottom]⟩ ⟨.finish, _⟩ :=
      build_reaches_iff.mpr ⟨c, hc, rfl⟩
    have hnet := (network_reaches_iff hM ha hv).mpr ⟨ls, hrun, hls⟩
    have hdestroy : (a.parts M).destroy.Reaches ⟨a.destructing.initial, v⟩
        ⟨a.destructing.final, .bottom :: w⟩ :=
      (destroy_reaches_iff (List.cons_ne_nil _ _)).mpr ⟨d, hd, hvd⟩
    have hfront : ((a.parts M).front takeOver).Reaches ⟨.inl .start, [.bottom]⟩
        ⟨((a.parts M).front takeOver).final, v⟩ :=
      (Pda.concat_reaches_iff Nfa.plain_builder (Pda.plain_product hM.plain)).mpr
        ⟨_, by simp, hbuild, hnet⟩
    exact ⟨w, (Pda.concat_reaches_iff (plain_front hM takeOver) Nfa.plain_remover).mpr
      ⟨v, hv, hfront, hdestroy⟩⟩

/-! ### The rules -/

/-- The whole starts and ends with the bottom of the stack. -/
lemma specials_whole (takeOver : Bool) :
    ((a.parts M).whole takeOver).special? "start" = some .bottom ∧
      ((a.parts M).whole takeOver).special? "end" = some .bottom := by
  have hspecials : ∀ kept kept' : Option Side,
      let specials : List (String × StackSymbol) :=
        Pda.joinSpecials kept (Pda.joinSpecials kept' [("start", .bottom)] []) [("end", .bottom)]
      (specials.find? (·.1 = "start")).map (·.2) = some .bottom ∧
        (specials.find? (·.1 = "end")).map (·.2) = some .bottom := by
    rintro (_ | _ | _) (_ | _ | _) <;> decide
  exact hspecials _ _

variable [Hashable Spent]

/-- The rules for an automaton whose stack starts from the bottom lead where it leads. -/
lemma goalReachable_compile_iff {Loc : Type} [DecidableEq Loc] [Hashable Loc]
    {p : Pda Loc StackSymbol} (hp : p.WellFormed) (hs : .bottom ∈ p.symbols) :
    (p.compile .bottom .bottom).GoalReachable ↔
      ∃ w, p.Reaches ⟨p.initial, [.bottom]⟩ ⟨p.final, .bottom :: w⟩ :=
  exists_congr fun _ => (reaches_iff_compile_reaches hp hs).symm

lemma rulesOf_decides (hM : Forwards M) (ha : a.network.Entered .start) (verbose : Bool)
    (spent : Spent → List String) (takeOver : Bool) :
    ∃ s, rulesOf verbose spent ((a.parts M).whole takeOver) = .ok s ∧ s.Decides a M := by
  have hw := wellFormed_whole (a := a) hM takeOver
  have hbottom : .bottom ∈ ((a.parts M).whole takeOver).symbols := by
    have hbuild : .bottom ∈ (a.parts M).build.symbols := Pda.mem_symbols_ofTransitions (by simp)
    simp [Parts.whole, Parts.front, Pda.join, Pda.concat, hbuild]
  have hmet := whole_reaches_iff_met hM ha takeOver
  have hrules : rulesOf verbose spent ((a.parts M).whole takeOver) =
      .ok ((if verbose then ((a.parts M).whole takeOver).annotated (placeNaming spent)
        else (a.parts M).whole takeOver).compile .bottom .bottom) := by
    rw [rulesOf, (specials_whole takeOver).1, (specials_whole takeOver).2]
    rfl
  refine ⟨_, hrules, ?_⟩
  cases verbose with
  | false => exact ⟨rfl, rfl, (goalReachable_compile_iff hw hbottom).trans hmet⟩
  | true =>
      have hgoal := goalReachable_compile_iff (hw.annotated (placeNaming spent)) hbottom
      simp only [reaches_annotated_iff] at hgoal
      exact ⟨rfl, rfl, hgoal.trans hmet⟩

/-- There are rules for every query that has automata, and they decide it. -/
lemma exists_compileFor_decides (hM : Forwards M) {q : Query} {labels : List Label}
    (ha : q.automata labels M = .ok a) (verbose : Bool) (spent : Spent → List String) :
    ∃ s, compileFor verbose spent q labels M = .ok s ∧ s.Decides a M := by
  have hcompile : compileFor verbose spent q labels M =
      rulesOf verbose spent ((a.parts M).whole true) := by
    rw [compileFor, ha]
    rfl
  rw [hcompile]
  exact rulesOf_decides hM (Query.entered_network hM ha) verbose spent true

/-- **The rules for a query decide it.** For every network, every bound on failures and both kinds
of forwarding, a query that has automata is compiled to rules whose goal is reachable exactly if
there are a header that may stand in front of the network, a run through it along an accepted path,
and an accepted header behind it. -/
theorem compileFor_decides (n : Network) (k : Int) (q : Query) (labels : List Label)
    (verbose : Bool) :
    (∀ (spent : Unit → List String) M a, n.overForwarding k = .ok M →
      q.automata labels M = .ok a →
        ∃ s, compileFor verbose spent q labels M = .ok s ∧ s.Decides a M) ∧
    (∀ (spent : Nat → List String) M a, n.underForwarding k = .ok M →
      q.automata labels M = .ok a →
        ∃ s, compileFor verbose spent q labels M = .ok s ∧ s.Decides a M) :=
  ⟨fun spent _ _ hM ha =>
      exists_compileFor_decides (Network.forwards_overForwarding hM) ha verbose spent,
    fun spent _ _ hM ha =>
      exists_compileFor_decides (Network.forwards_underForwarding hM) ha verbose spent⟩

/-- A router that pushes a label on packets without one. -/
def pushingRouter : Network :=
  let r : Router := ⟨⟨"", some "r"⟩, [⟨some "i", false⟩]⟩
  ⟨[r], [], [⟨r, [⟨some "i", .absent .empty, [[⟨some "i", [.push (.named "a")]⟩]]⟩]⟩]⟩

/-- From an empty header, through the router `r`, to the header `a`. -/
def labelledBehind : Query :=
  let word (s : String) : Query.Atom := .simple (.simple ⟨.word, s, 1, 1⟩)
  ⟨none, word "r", some (word "a")⟩

/-- Packets leave the router with the label, by the rules. -/
theorem compileFor_decides_labelledBehind : ∃ M a s, pushingRouter.overForwarding 0 = .ok M ∧
    labelledBehind.automata [.named "a"] M = .ok a ∧
    compileFor false (fun _ => []) labelledBehind [.named "a"] M = .ok s ∧ s.GoalReachable := by
  obtain ⟨s, hs, hdecides⟩ := (compileFor_decides pushingRouter 0 labelledBehind [.named "a"]
    false).1 (fun _ => []) _ _ rfl rfl
  refine ⟨_, _, s, rfl, rfl, hs, hdecides.reachable_iff.mpr ?_⟩
  let p : Endpoint := ⟨⟨"", some "r"⟩, some "i"⟩
  let busy : Hop Unit := .at p [.push (.named "a")] ()
  let done : Hop Unit := .at p [] ()
  refine ⟨[], [busy, done, .finish], [.label "a", .bottom], [.named "a"], [], .refl 0, ?_, ?_, ?_,
    rfl⟩
  · refine .step (d := ⟨busy, [.bottom]⟩) ?_ (.step (d := ⟨done, [.label "a", .bottom]⟩) ?_
      (.step (d := ⟨Hop.finish, [StackSymbol.label "a", .bottom]⟩) ?_ (.refl _)))
    · exact Pda.step_of_mem (t := pushingRouter.overEntries.get ⟨0, by decide⟩) (by decide) rfl []
    · exact Pda.step_of_mem (t := actStep p [] () (.push (.named "a")) (.push (.label "a")))
        (by decide) rfl []
    · exact Pda.step_of_mem (t := exit p ()) (by decide) rfl [.bottom]
  · exact .read (q := 0) (by decide) (.read (q := 0) (by decide) (.read (q := 1) (by decide)
      (.read (q := 3) (by decide) (.refl 3))))
  · exact .read (q := 1) (by decide) (.refl 1)

end MplsReach
