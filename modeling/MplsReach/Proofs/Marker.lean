/-
The marker on top of a header that is being built.

* `Built.MarkerOn`: while a builder is between its ends, the marker stands on top of the stack and
  nowhere else; at its ends there is none.
* `MarkerInBuilder`: the same for the three parts of a query, where there is none in the network and
  behind it.
* `MarkerInBuilder.step`: a step of the three parts keeps this, whichever part it is in and where it
  leads from one part to the next.
* `marker_stays_in_builder`: **the marker never leaves the builder**, for both kinds of forwarding.
-/
import MplsReach.Proofs.Bottom

namespace MplsReach

/-! ### Parts that leave the marker alone -/

/-- A step brings in no symbol that the automaton does not bring in. -/
lemma Pda.Step.notMem_stack {Loc Sym : Type} [DecidableEq Sym] {p : Pda Loc Sym} {a : Sym}
    {c d : Config Loc Sym} (h : p.Step c d) (hp : ¬ p.Brings a) (hc : a ∉ c.stack) :
    a ∉ d.stack := by
  intro hd
  rcases h.reaches.mem_stack hd with hmem | hbrings
  · exact hc hmem
  · exact hp hbrings

/-- An automaton that brings in labels only does not bring in the marker. -/
lemma not_brings_marker {Loc : Type} {p : Pda Loc StackSymbol}
    (h : ∀ s, p.Brings s → ∃ l : Label, s = .ofLabel l) : ¬ p.Brings .marker := by
  intro hmarker
  obtain ⟨l, hl⟩ := h _ hmarker
  exact StackSymbol.marker_ne_ofLabel l hl

/-! ### The builder -/

/-- What stands on the stack of a builder: between its ends the marker on top and nowhere else, at
its ends no marker. -/
def Built.MarkerOn {ν : Type} (u : List StackSymbol) : Built ν → Prop
  | .at _ => ∃ w, u = .marker :: w ∧ .marker ∉ w
  | .start | .finish => .marker ∉ u

/-- A step of a builder keeps the marker on top: the symbol of an edge is put below it, and only at
the last location it is taken off. -/
lemma Built.MarkerOn.step {ν : Type} [DecidableEq ν] {n : Nfa ν StackSymbol}
    (hn : ∀ e ∈ n.edges, e.symbol ≠ some .marker) {c d : Config (Built ν) StackSymbol}
    (hc : c.location.MarkerOn c.stack) (h : n.builder.Step c d) : d.location.MarkerOn d.stack := by
  obtain ⟨t, ht, x, v, hx, rfl, rfl⟩ := Pda.step_iff.mp h
  rcases Nfa.mem_transitions_builder.mp ht with ⟨⟨p, s, q⟩, he, rfl⟩ | rfl | rfl
  · cases s with
    | none => exact hc
    | some s =>
        obtain ⟨w, hstack, hw⟩ := hc
        obtain ⟨rfl, rfl⟩ := List.cons.inj hstack
        have hs : .marker ≠ s := fun heq => hn _ he (congrArg some heq.symm)
        exact ⟨s :: v, rfl, List.not_mem_cons_of_ne_of_not_mem hs hw⟩
  · -- the marker comes on top of what was there before
    exact ⟨x :: v, rfl, hc⟩
  · obtain ⟨w, hstack, hw⟩ := hc
    obtain ⟨rfl, rfl⟩ := List.cons.inj hstack
    exact hw

/-! ### The three parts -/

variable {Spent : Type}

/-- Where the marker stands: between the ends of the builder on top of the stack and nowhere else,
at its ends, in the network and behind it nowhere. -/
def MarkerInBuilder (c : Config (Place Spent) StackSymbol) : Prop :=
  match c.location with
  | .inl (.inl b) => b.MarkerOn c.stack
  | .inl (.inr _) | .inr _ => .marker ∉ c.stack

variable [DecidableEq Spent] {M : Pda (Hop Spent) StackSymbol} {a : Query.Automata Spent}

/-- The headers in front of the network are of labels, and the marker is none. -/
lemma symbol_constructing_ne_marker (C : Nfa ℕ Label) :
    ∀ e ∈ (C.mapSymbols StackSymbol.ofLabel).edges, e.symbol ≠ some .marker := by
  intro e he hmarker
  obtain ⟨e', -, rfl⟩ := List.mem_map.mp he
  obtain ⟨l, -, hl⟩ := Option.map_eq_some_iff.mp hmarker
  exact StackSymbol.marker_ne_ofLabel l hl.symm

/-- **A step of the three parts** keeps the marker in the builder. -/
lemma MarkerInBuilder.step (hM : Forwards M) (hmarker : ¬ M.Brings .marker) {takeOver : Bool}
    {c d : Config (Place Spent) StackSymbol} (hc : MarkerInBuilder c)
    (h : ((a.parts M).whole takeOver).Step c d) : MarkerInBuilder d := by
  rcases (Pda.step_concat_iff (plain_front hM takeOver) Nfa.plain_remover).mp h with
    ⟨c', d', hfront, rfl, rfl⟩ | ⟨c', d', hdestroy, rfl, rfl⟩ | ⟨u, -, rfl, rfl⟩
  · rcases (Pda.step_concat_iff Nfa.plain_builder (Pda.plain_product hM.plain)).mp hfront with
      ⟨c', d', hbuild, rfl, rfl⟩ | ⟨c', d', hnet, rfl, rfl⟩ | ⟨u, -, rfl, rfl⟩
    · exact Built.MarkerOn.step (symbol_constructing_ne_marker a.constructing) hc hbuild
    · have hnetwork : ¬ (a.parts M).network.Brings .marker := fun hbrings =>
        hmarker (Pda.brings_of_product hbrings)
      exact hnet.notMem_stack hnetwork hc
    · -- the builder is left at its end, where the marker is off the stack
      exact hc
  · exact hdestroy.notMem_stack Nfa.not_brings_remover hc
  · exact hc

/-- A run of the three parts from the bottom of the stack keeps the marker in the builder. -/
lemma markerInBuilder_of_reaches (hM : Forwards M) (hmarker : ¬ M.Brings .marker)
    {takeOver : Bool} {c : Config (Place Spent) StackSymbol}
    (h : ((a.parts M).whole takeOver).Reaches ⟨.inl (.inl .start), [.bottom]⟩ c) :
    MarkerInBuilder c := by
  induction h with
  | refl =>
      have hbottom : .marker ∉ [StackSymbol.bottom] := by decide
      exact hbottom
  | tail _ hstep ih => exact ih.step hM hmarker hstep

/-- **The marker never leaves the builder.** For every network, every bound on failures and both
kinds of forwarding, whatever automata stand for the headers and the path: in every configuration
that the three parts reach from the bottom of the stack, the marker stands on top of the stack and
nowhere else if the location is one between the ends of the builder, and nowhere at the ends of the
builder, in the network and behind it. -/
theorem marker_stays_in_builder (n : Network) (k : Int) (takeOver : Bool) :
    (∀ M, n.overForwarding k = .ok M → ∀ (a : Query.Automata Unit) c,
      ((a.parts M).whole takeOver).Reaches ⟨((a.parts M).whole takeOver).initial, [.bottom]⟩ c →
        MarkerInBuilder c) ∧
    (∀ M, n.underForwarding k = .ok M → ∀ (a : Query.Automata Nat) c,
      ((a.parts M).whole takeOver).Reaches ⟨((a.parts M).whole takeOver).initial, [.bottom]⟩ c →
        MarkerInBuilder c) := by
  constructor
  · intro M hM a c h
    have hlabels : ∀ s, M.Brings s → ∃ l : Label, s = .ofLabel l := fun s hs =>
      (Network.exists_of_brings_over hM hs).imp fun _ => And.right
    exact markerInBuilder_of_reaches (Network.forwards_overForwarding hM)
      (not_brings_marker hlabels) h
  · intro M hM a c h
    have hlabels : ∀ s, M.Brings s → ∃ l : Label, s = .ofLabel l := fun s hs =>
      (Network.exists_of_brings_under hM hs).imp fun _ => And.right
    exact markerInBuilder_of_reaches (Network.forwards_underForwarding hM)
      (not_brings_marker hlabels) h

/-- While a header of the label `a` is built, that label is put below the marker. -/
theorem marker_stays_in_builder_oneLabel : ∃ M a,
    pushingRouter.overForwarding 0 = .ok M ∧ oneLabelToNone.automata [.named "a"] M = .ok a ∧
    let built : Config (Place Unit) StackSymbol :=
      ⟨.inl (.inl (.at 1)), [.marker, .label "a", .bottom]⟩
    ((a.parts M).whole true).Reaches ⟨((a.parts M).whole true).initial, [.bottom]⟩ built ∧
      MarkerInBuilder built := by
  obtain ⟨M, hM⟩ : ∃ M, pushingRouter.overForwarding 0 = .ok M := ⟨_, rfl⟩
  have hknown : Label.named "a" ∈ Query.labelDomain [.named "a"] := by decide
  obtain ⟨a, ha, hreaches⟩ :=
    exists_reaches_oneLabelToNone (Network.forwards_overForwarding hM) hknown
  exact ⟨M, a, hM, ha, hreaches,
    (marker_stays_in_builder pushingRouter 0 true).1 M hM a _ hreaches⟩

end MplsReach
