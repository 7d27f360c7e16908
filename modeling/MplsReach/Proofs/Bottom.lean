/-
The bottom of the stack.

* `BottomLowest`: whatever the query, the mark below all labels stands nowhere else.
* `Network.BringsNamed`: actions bring in labels that are there.
* `bottomLowest_iff`: the mark stays lowest exactly if actions bring in labels that are there,
  unless a label goes by the name of an absent one.
* `not_bottomLowest_erasing`: where a label is swapped for an absent one, the absent label is one of
  the labels that a packet may have, and a packet without labels passes for one with a label.
-/
import MplsReach.Proofs.Stack

namespace MplsReach

variable {Spent : Type} [DecidableEq Spent] {M : Pda (Hop Spent) StackSymbol}
  {n : Network} {labels : List Label}

/-- Whatever the query, the bottom of the stack stands below all other symbols. -/
def BottomLowest (labels : List Label) (M : Pda (Hop Spent) StackSymbol) : Prop :=
  ∀ (q : Query) (a : Query.Automata Spent), q.automata labels M = .ok a →
    ∀ takeOver c, ((a.parts M).whole takeOver).Reaches ⟨.inl (.inl .start), [.bottom]⟩ c →
      .bottom ∉ c.stack.dropLast

/-- Actions bring in labels that are there. -/
def Network.BringsNamed (n : Network) : Prop := ∀ l, n.Brings l → l.isNamed = true

/-! ### Headers of labels that are there -/

lemma Label.ofLabel_ne_bottom {l : Label} (h : l.isNamed = true) :
    StackSymbol.ofLabel l ≠ .bottom := by
  cases l with
  | named _ => simp [StackSymbol.ofLabel]
  | absent _ => exact absurd h (by simp [Label.isNamed])

namespace Query

/-- New labels are there. -/
lemma Alphabet.closed_labels : Alphabet.labels.Closed (·.isNamed = true) where
  lookup {D name D' as} h hD := by
    rw [Alphabet.labels] at h
    simp only at h
    split at h
    · obtain ⟨rfl, rfl⟩ := Prod.mk.inj (Except.ok.inj h)
      simpa [or_imp, forall_and, Label.isNamed] using hD
    · obtain ⟨rfl, rfl⟩ := Prod.mk.inj (Except.ok.inj h)
      exact ⟨hD, fun a ha => hD a (List.mem_filter.mp ha).1⟩
  others {D excluded as} h hD := by
    obtain rfl := Except.ok.inj h
    exact fun a ha => hD a (List.mem_filter.mp ha).1

/-- The symbols of an automaton keep to a property that the domain has. -/
lemma Alphabet.of_mem_edges_automaton {Sym : Type} [DecidableEq Sym] {A : Alphabet Sym}
    {P : Sym → Prop} (hA : A.Closed P) {D D' : List Sym} {r : Option Atom} {N : Nfa Nat Sym}
    (h : A.automaton D r = .ok (N, D')) (hD : ∀ x ∈ D, P x) {e : Edge Nat Sym} (he : e ∈ N.edges)
    {x : Sym} (hx : e.symbol = some x) : P x := by
  obtain ⟨⟨s, i, f⟩, hs, h⟩ := exists_of_bind_eq_ok h
  obtain ⟨rfl, rfl⟩ := Prod.mk.inj (Except.ok.inj h)
  cases r with
  | none =>
      obtain ⟨rfl, -⟩ := Prod.mk.inj (Except.ok.inj hs)
      exact absurd he List.not_mem_nil
  | some r =>
      obtain ⟨t, ht, hs⟩ := exists_of_bind_eq_ok hs
      obtain ⟨rfl, -⟩ := Prod.mk.inj (Except.ok.inj hs)
      obtain ⟨new, hnew, hmem⟩ := (Sketch.draw_drawn hA r ht).edges
      have he' : e ∈ new := by
        simpa [Sketch.finish, hnew, Sketch.blank] using he
      exact (hmem e he').2.2 hD x hx

end Query

/-- If the labels of the network and those that forwarding brings in are there, no bottom of the
stack is put above another symbol. -/
lemma bottomLowest_of_named (hlabels : ∀ l ∈ labels, l.isNamed = true)
    (hM : ∀ s, M.Brings s → ∃ l : Label, l.isNamed = true ∧ s = .ofLabel l) :
    BottomLowest labels M := by
  intro q a ha takeOver c hc hbottom
  obtain ⟨D, E, hconstructing, -, -⟩ := Query.exists_of_automata_eq_ok ha
  rcases hc.mem_dropLast hbottom with h | h
  · exact absurd h List.not_mem_nil
  · rcases brings_whole h with h | ⟨e, he, l, hl, h⟩ | h
    · exact absurd h (by simp)
    · have hnamed := Query.Alphabet.of_mem_edges_automaton Query.Alphabet.closed_labels
        hconstructing (fun x hx => hlabels x (Query.mem_of_mem_labelDomain hx)) he hl
      exact Label.ofLabel_ne_bottom hnamed h.symm
    · obtain ⟨l, hnamed, h⟩ := hM _ h
      exact Label.ofLabel_ne_bottom hnamed h.symm

/-! ### Headers with an absent label -/

/-- An absent label is known, unless another label goes by its name. -/
lemma exists_absent_mem_labelDomain {l : Label} (hl : l ∈ labels) (habsent : l.isNamed = false)
    (hname : .named Label.absentName ∉ labels) :
    ∃ x ∈ Query.labelDomain labels, StackSymbol.ofLabel x = .bottom := by
  have hmem : Label.absentName ∈ (Query.labelDomain labels).map Label.name := by
    refine Dictionary.mem_keys_putAll_iff.mpr (.inr (List.mem_map.mpr ⟨l, hl, ?_⟩))
    cases l with
    | named _ => exact absurd habsent (by simp [Label.isNamed])
    | absent _ => rfl
  obtain ⟨x, hx, hxname⟩ := List.mem_map.mp hmem
  refine ⟨x, hx, ?_⟩
  cases x with
  | named s =>
      obtain rfl : s = Label.absentName := hxname
      exact absurd (Query.mem_of_mem_labelDomain hx) hname
  | absent _ => rfl

/-- From one label to none, by one router. -/
def oneLabelToNone : Query := ⟨some (.sequence [.any]), .sequence [.any], none⟩

/-- A header of one label may be of each label that is known. -/
lemma exists_automata_oneLabelToNone (labels : List Label) (M : Pda (Hop Spent) StackSymbol) :
    ∃ a, oneLabelToNone.automata labels M = .ok a ∧ a.constructing.initial = 0 ∧
      ∀ x ∈ Query.labelDomain labels, ⟨0, some x, 1⟩ ∈ a.constructing.edges := by
  refine ⟨_, rfl, rfl, fun x hx => List.mem_append_right _ (List.mem_map.mpr ⟨x, ?_, rfl⟩)⟩
  exact List.mem_filter.mpr ⟨hx, by simp⟩

/-- While a header of one label is built, each label that is known is put below the marker. -/
lemma exists_reaches_oneLabelToNone (hM : Forwards M) {x : Label}
    (hx : x ∈ Query.labelDomain labels) :
    ∃ a, oneLabelToNone.automata labels M = .ok a ∧
      ((a.parts M).whole true).Reaches ⟨.inl (.inl .start), [.bottom]⟩
        ⟨.inl (.inl (.at 1)), [.marker, .ofLabel x, .bottom]⟩ := by
  obtain ⟨a, ha, hinitial, hedges⟩ := exists_automata_oneLabelToNone labels M
  have hfirst : (a.parts M).build.Step ⟨.start, [.bottom]⟩ ⟨.at 0, [.marker, .bottom]⟩ := by
    rw [← hinitial]
    exact Pda.step_of_mem (Nfa.mem_transitions_builder.mpr (.inr (.inl rfl))) rfl []
  have hpath : (a.constructing.mapSymbols StackSymbol.ofLabel).Path 0 [.ofLabel x] 1 :=
    .read (List.mem_map.mpr ⟨_, hedges x hx, rfl⟩) (.refl 1)
  have hbuild : (a.parts M).build.Reaches ⟨.start, [.bottom]⟩
      ⟨.at 1, [.marker, .ofLabel x, .bottom]⟩ :=
    .head hfirst (Nfa.builder_reaches_of_path hpath [.bottom])
  have hfront : ((a.parts M).front true).Reaches ⟨.inl .start, [.bottom]⟩
      ⟨.inl (.at 1), [.marker, .ofLabel x, .bottom]⟩ :=
    Pda.concat_reaches_inl Nfa.plain_builder (Pda.plain_product hM.plain) hbuild
  exact ⟨a, ha, Pda.concat_reaches_inl (plain_front hM true) Nfa.plain_remover hfront⟩

/-- If an absent label is known, it is put above the bottom of the stack as one more bottom. -/
lemma isNamed_of_bottomLowest (hM : Forwards M) (h : BottomLowest labels M)
    (hname : .named Label.absentName ∉ labels) {l : Label} (hl : l ∈ labels) :
    l.isNamed = true := by
  by_contra habsent
  obtain ⟨x, hx, hbottom⟩ :=
    exists_absent_mem_labelDomain hl (Bool.eq_false_iff.mpr habsent) hname
  obtain ⟨a, ha, hwhole⟩ := exists_reaches_oneLabelToNone hM hx
  rw [hbottom] at hwhole
  exact h _ a ha true _ hwhole (by simp)

/-! ### Networks -/

lemma bottomLowest_iff_of_brings (hM : Forwards M)
    (hbrings : ∀ s, M.Brings s → ∃ l, n.Brings l ∧ s = .ofLabel l)
    (hlabels : n.labels = .ok labels) :
    (n.BringsNamed → BottomLowest labels M) ∧
      (.named Label.absentName ∉ labels → BottomLowest labels M → n.BringsNamed) := by
  constructor
  · intro hn
    refine bottomLowest_of_named (fun l hl => ?_) (fun s hs => ?_)
    · exact ((Network.mem_labels_iff hlabels).mp hl).elim (hn l) And.left
    · obtain ⟨l, hl, hs⟩ := hbrings s hs
      exact ⟨l, hn l hl, hs⟩
  · intro hname h l hl
    exact isNamed_of_bottomLowest hM h hname ((Network.mem_labels_iff hlabels).mpr (.inl hl))

/-- **The bottom of the stack.** For every network, every bound on failures and both kinds of
forwarding: if actions bring in labels that are there, then no run for any query has a bottom of the
stack above another symbol. If some action brings in an absent label, some run has, unless a label
of the network goes by the name of an absent one. -/
theorem bottomLowest_iff (n : Network) (k : Int) (labels : List Label)
    (hlabels : n.labels = .ok labels) :
    (∀ M, n.overForwarding k = .ok M → (n.BringsNamed → BottomLowest labels M) ∧
      (.named Label.absentName ∉ labels → BottomLowest labels M → n.BringsNamed)) ∧
    (∀ M, n.underForwarding k = .ok M → (n.BringsNamed → BottomLowest labels M) ∧
      (.named Label.absentName ∉ labels → BottomLowest labels M → n.BringsNamed)) :=
  ⟨fun _ hM => bottomLowest_iff_of_brings (Network.forwards_overForwarding hM)
      (fun _ => Network.exists_of_brings_over hM) hlabels,
    fun _ hM => bottomLowest_iff_of_brings (Network.forwards_underForwarding hM)
      (fun _ => Network.exists_of_brings_under hM) hlabels⟩

lemma bringsNamed_pushingRouter : pushingRouter.BringsNamed := by
  rintro l ⟨t, ht, d, hd, r, hr, a, ha, hl⟩
  simp only [pushingRouter, List.mem_singleton] at ht
  subst ht
  simp only [List.mem_singleton] at hd
  subst hd
  simp only [Destination.rules, List.flatten_cons, List.flatten_nil, List.append_nil,
    List.mem_singleton] at hr
  subst hr
  obtain rfl := List.mem_singleton.mp ha
  obtain rfl := Option.some.inj hl
  rfl

/-- The router that pushes a label keeps the bottom of the stack lowest. -/
theorem bottomLowest_pushing : ∃ M, pushingRouter.overForwarding 0 = .ok M ∧
    pushingRouter.labels = .ok [.named "a"] ∧ BottomLowest [.named "a"] M :=
  ⟨_, rfl, rfl, ((bottomLowest_iff pushingRouter 0 [.named "a"] rfl).1 _ rfl).1
    bringsNamed_pushingRouter⟩

/-- A router that swaps what packets without a label have on top for an absent label. -/
def erasingRouter : Network :=
  let r : Router := ⟨⟨"", some "r"⟩, [⟨some "i", false⟩, ⟨some "j", false⟩]⟩
  ⟨[r], [], [⟨r, [⟨some "i", .absent .empty, [[⟨some "j", [.swap (.absent .empty)]⟩]]⟩]⟩]⟩

/-- Where absent labels are brought in, a header of one label may be a second bottom of the stack.
The router is for packets without a label, and a packet with a label passes it. -/
theorem not_bottomLowest_erasing : ∃ M a, erasingRouter.labels = .ok [.absent .empty] ∧
    erasingRouter.overForwarding 0 = .ok M ∧ ¬ BottomLowest [.absent .empty] M ∧
    oneLabelToNone.automata [.absent .empty] M = .ok a ∧ a.Met M := by
  let p : Endpoint := ⟨⟨"", some "r"⟩, some "j"⟩
  let busy : Hop Unit := .at p [.swap (.absent .empty)] ()
  let done : Hop Unit := .at p [] ()
  refine ⟨_, _, rfl, rfl, fun h => ?_, rfl, [.absent .empty], [busy, done, .finish],
    [.bottom, .bottom], [], [.bottom], ?_, ?_, ?_, .refl 0, rfl⟩
  · have hnamed := isNamed_of_bottomLowest (l := .absent .empty)
      (Network.forwards_overForwarding (n := erasingRouter) (k := 0) rfl) h (by decide) (by decide)
    exact absurd hnamed (by decide)
  · exact .read (q := 1) (by decide) (.refl 1)
  · refine .step (d := ⟨busy, [.bottom, .bottom]⟩) ?_ (.step (d := ⟨done, [.bottom, .bottom]⟩) ?_
      (.step (d := ⟨Hop.finish, [StackSymbol.bottom, .bottom]⟩) ?_ (.refl _)))
    · exact Pda.step_of_mem (t := erasingRouter.overEntries.get ⟨0, by decide⟩) (by decide) rfl
        [.bottom]
    · exact Pda.step_of_mem (t := actStep p [] () (.swap (.absent .empty)) (.replace .bottom))
        (by decide) rfl [.bottom]
    · exact Pda.step_of_mem (t := exit p ()) (by decide) rfl [.bottom]
  · exact .read (q := 0) (by decide) (.read (q := 0) (by decide) (.read (q := 1) (by decide)
      (.read (q := 3) (by decide) (.refl 3))))

end MplsReach
