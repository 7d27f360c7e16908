/-
Automata that differ in the names of their locations only.

* `Pda.Alike`: one automaton is the other one with renamed locations, but for the order of its parts
  and the comments on its transitions.
* `Pda.Alike.symm`, `Pda.Alike.trans`: it does not matter which one is renamed, or how often.
* `Pda.Alike.yields_iff`: such automata turn the same stacks into each other.
* `Pda.yields_concat_iff`: what one automaton behind another does.
-/
import MplsReach.Proofs.Concat
import MplsReach.Proofs.NamedHeader

namespace MplsReach

/-- Transitions that differ in comments only do the same. -/
lemma Transition.parts_eq {Loc Sym : Type} {s t : Transition Loc Sym}
    (h : s.withoutComments = t.withoutComments) :
    s.source = t.source ∧ s.target = t.target ∧ s.input = t.input ∧ s.op = t.op := by
  simp only [Transition.withoutComments, Transition.mk.injEq, and_true] at h
  exact ⟨h.1, h.2.1, h.2.2.1, h.2.2.2.1⟩

namespace Pda

variable {α β γ Sym : Type} {f : α → β} {g : β → γ} {p : Pda α Sym} {q : Pda β Sym}
  {r : Pda γ Sym}

/-- The second automaton is the first one with renamed locations, but for the order of its parts and
the comments on its transitions. -/
structure Alike (f : α → β) (p : Pda α Sym) (q : Pda β Sym) : Prop where
  injOn : Set.InjOn f {l | l ∈ p.locations}
  locations : q.locations.Perm (p.locations.map f)
  symbols : q.symbols.Perm p.symbols
  specials : q.specials.Perm p.specials
  transitions : (q.transitions.map Transition.withoutComments).Perm
    (p.transitions.map fun t => (t.mapLocations f).withoutComments)
  initial_eq : q.initial = f p.initial
  final_eq : q.final = f p.final

/-- The ends of the automaton and of its transitions are among its locations. -/
abbrev OwnEnds (p : Pda α Sym) : Prop := p.Within {l | l ∈ p.locations}

namespace Alike

lemma mem_locations_iff (h : Alike f p q) {m : β} :
    m ∈ q.locations ↔ ∃ l ∈ p.locations, f l = m := by
  rw [h.locations.mem_iff, List.mem_map]

/-- Each transition of the one is a transition of the other one, but for comments. -/
lemma exists_transition (h : Alike f p q) {t : Transition β Sym} (ht : t ∈ q.transitions) :
    ∃ s ∈ p.transitions, (s.mapLocations f).withoutComments = t.withoutComments := by
  have hmem := h.transitions.mem_iff.mp (List.mem_map_of_mem ht)
  simpa using hmem

lemma trans (h : Alike f p q) (h' : Alike g q r) : Alike (g ∘ f) p r where
  injOn := h'.injOn.comp h.injOn fun l hl => h.mem_locations_iff.mpr ⟨l, hl, rfl⟩
  locations := by
    rw [← List.map_map]
    exact h'.locations.trans (h.locations.map g)
  symbols := h'.symbols.trans h.symbols
  specials := h'.specials.trans h.specials
  transitions := by
    have hmap := h.transitions.map (·.mapLocations g)
    rw [List.map_map, List.map_map] at hmap
    exact h'.transitions.trans hmap
  initial_eq := by rw [h'.initial_eq, h.initial_eq, Function.comp_apply]
  final_eq := by rw [h'.final_eq, h.final_eq, Function.comp_apply]

/-- The locations can be renamed back. -/
lemma symm (h : Alike f p q) (hp : p.OwnEnds) :
    ∃ g, Alike g q p ∧ ∀ l ∈ p.locations, g (f l) = l := by
  have : Nonempty α := ⟨p.initial⟩
  let g := Function.invFunOn f {l | l ∈ p.locations}
  have hg : ∀ l ∈ p.locations, g (f l) = l := fun l hl => h.injOn.leftInvOn_invFunOn hl
  refine ⟨g, ⟨?_, ?_, h.symbols.symm, h.specials.symm, ?_, ?_, ?_⟩, hg⟩
  · intro m hm m' hm' heq
    obtain ⟨l, hl, rfl⟩ := h.mem_locations_iff.mp hm
    obtain ⟨l', hl', rfl⟩ := h.mem_locations_iff.mp hm'
    rw [hg l hl, hg l' hl'] at heq
    rw [heq]
  · have hback : (p.locations.map f).map g = p.locations := by
      rw [List.map_map]
      exact (List.map_congr_left hg).trans (List.map_id _)
    exact hback ▸ (h.locations.map g).symm
  · -- both sides of the renamed transitions are renamed back
    have hback : (p.transitions.map fun t => (t.mapLocations f).withoutComments).map
        (·.mapLocations g) = p.transitions.map Transition.withoutComments := by
      rw [List.map_map]
      refine List.map_congr_left fun t ht => ?_
      simp only [Function.comp_apply, Transition.mapLocations, Transition.withoutComments,
        hg _ (hp.source_mem t ht), hg _ (hp.target_mem t ht)]
    have hmap := h.transitions.map (·.mapLocations g)
    rw [hback, List.map_map] at hmap
    exact hmap.symm
  · rw [h.initial_eq, hg _ hp.initial_mem]
  · rw [h.final_eq, hg _ hp.final_mem]

variable [DecidableEq Sym] [DecidableEq β]

/-- Comments do not matter to the steps. -/
lemma step_iff (h : Alike f p q) {c d : Config β Sym} :
    q.Step c d ↔ (p.mapLocations f).Step c d := by
  have hparts : ∀ x y i o,
      (∃ t ∈ q.transitions, t.source = x ∧ t.target = y ∧ t.input = i ∧ t.op = o) ↔
      ∃ t ∈ (p.mapLocations f).transitions,
        t.source = x ∧ t.target = y ∧ t.input = i ∧ t.op = o := by
    intro x y i o
    constructor
    · rintro ⟨t, ht, rfl, rfl, rfl, rfl⟩
      obtain ⟨s, hs, heq⟩ := h.exists_transition ht
      exact ⟨s.mapLocations f, List.mem_map_of_mem hs, Transition.parts_eq heq⟩
    · rintro ⟨t, ht, rfl, rfl, rfl, rfl⟩
      obtain ⟨s, hs, rfl⟩ := List.mem_map.mp ht
      have hmem := h.transitions.mem_iff.mpr (List.mem_map_of_mem hs)
      obtain ⟨t, ht, heq⟩ := List.mem_map.mp hmem
      exact ⟨t, ht, Transition.parts_eq heq⟩
  simp only [step_iff_parts, hparts]

/-- **Automata that are alike** turn the same stacks into each other. -/
lemma yields_iff (h : Alike f p q) (hp : p.OwnEnds) {u v : List Sym} :
    q.Yields u v ↔ p.Yields u v := by
  have hstep : q.Step = (p.mapLocations f).Step := by
    funext c d
    exact propext h.step_iff
  rw [← hp.yields_mapLocations_iff h.injOn, Yields, Yields, reaches_iff, reaches_iff, hstep,
    h.initial_eq, h.final_eq]
  rfl

end Alike

/-! ### One automaton behind another -/

section Concat

variable [DecidableEq Sym]

lemma ownEnds_concat (hp : p.OwnEnds) (hq : q.OwnEnds) : (concat none p q).OwnEnds := by
  have hends : ∀ t ∈ (concat none p q).transitions,
      t.source ∈ (concat none p q).locations ∧ t.target ∈ (concat none p q).locations := by
    intro t ht
    simp only [concat, List.mem_append, List.mem_map] at ht ⊢
    rcases ht with (⟨s, hs, rfl⟩ | ⟨s, hs, rfl⟩) | ht
    · obtain ⟨s', hs', rfl⟩ := List.mem_map.mp hs
      exact ⟨.inl ⟨_, hp.source_mem s' hs', rfl⟩, .inl ⟨_, hp.target_mem s' hs', rfl⟩⟩
    · obtain ⟨s', hs', rfl⟩ := List.mem_map.mp hs
      exact ⟨.inr ⟨_, hq.source_mem s' hs', rfl⟩, .inr ⟨_, hq.target_mem s' hs', rfl⟩⟩
    · obtain rfl := List.mem_singleton.mp ht
      exact ⟨.inl ⟨_, hp.final_mem, rfl⟩, .inr ⟨_, hq.initial_mem, rfl⟩⟩
  exact ⟨List.mem_append_left _ (List.mem_map_of_mem hp.initial_mem),
    List.mem_append_right _ (List.mem_map_of_mem hq.final_mem), fun t ht => (hends t ht).1,
    fun t ht => (hends t ht).2⟩

/-- One automaton behind another does what the first one does and then what the second one does,
with a symbol on the stack in between. -/
lemma yields_concat_iff {kept : Option Side} (hp : p.Plain) (hq : q.Plain) {v w : List Sym} :
    (concat kept p q).Yields v w ↔ ∃ u, u ≠ [] ∧ p.Yields v u ∧ q.Yields u w :=
  concat_reaches_iff hp hq

end Concat

end Pda

end MplsReach
