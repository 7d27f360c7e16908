/-
One pushdown automaton behind another, step by step.

* `Pda.step_concat_iff`: a step of the whole is a step of one of the two, or the step from the end
  of the first to the start of the second, which needs a symbol on the stack.
* `Pda.concat_reaches_iff`: a run from the first into the second is a run of the first to its end
  and a run of the second from its start, with the same stack in between.
-/
import Mathlib.Data.Sum.Basic
import MplsReach.Proofs.Runs
import MplsReach.Pushdown.Concat

namespace MplsReach

/-- A configuration at a renamed location. -/
def Config.mapLocation {Loc Loc' Sym : Type} (f : Loc → Loc') (c : Config Loc Sym) :
    Config Loc' Sym :=
  ⟨f c.location, c.stack⟩

lemma Config.mapLocation_injective {Loc Loc' Sym : Type} {f : Loc → Loc'}
    (hf : Function.Injective f) :
    Function.Injective (Config.mapLocation f : Config Loc Sym → Config Loc' Sym) := by
  rintro ⟨l, u⟩ ⟨m, v⟩ h
  simp only [Config.mapLocation, Config.mk.injEq] at h ⊢
  exact ⟨hf h.1, h.2⟩

/-! ### Copies -/

/-- A transition on one top or on every top is copied as it is, but for its comments. -/
lemma Transition.input_copied {Loc Sym : Type} {t : Transition Loc Sym}
    (h : ∀ as, t.input ≠ .among as) : t.copied.input = t.input := by
  unfold Transition.copied
  cases hi : t.input with
  | on b => rfl
  | any => rfl
  | among as => exact absurd hi (h as)

namespace Pda

variable {α β Sym : Type} {p : Pda α Sym} {q : Pda β Sym} {kept : Option Side}

@[simp]
lemma locations_copiedUnless (b : Bool) : (p.copiedUnless b).locations = p.locations := by
  cases b <;> rfl

@[simp]
lemma symbols_copiedUnless (b : Bool) : (p.copiedUnless b).symbols = p.symbols := by
  cases b <;> rfl

/-- Copying the transitions of an automaton does not change what they are between, fire on and
do. -/
lemma mem_copiedUnless (hp : p.Plain) (b : Bool) {x y : α} {i : Input Sym} {o : Op Sym} :
    (∃ t ∈ (p.copiedUnless b).transitions,
      t.source = x ∧ t.target = y ∧ t.input = i ∧ t.op = o) ↔
      ∃ t ∈ p.transitions, t.source = x ∧ t.target = y ∧ t.input = i ∧ t.op = o := by
  cases b with
  | true => exact Iff.rfl
  | false =>
      simp only [copiedUnless, Bool.false_eq_true, if_false, List.mem_map]
      constructor
      · rintro ⟨_, ⟨t, ht, rfl⟩, hx, hy, hi, ho⟩
        rw [Transition.input_copied (hp t ht)] at hi
        exact ⟨t, ht, hx, hy, hi, ho⟩
      · rintro ⟨t, ht, hx, hy, hi, ho⟩
        refine ⟨t.copied, ⟨t, ht, rfl⟩, hx, hy, ?_, ho⟩
        rwa [Transition.input_copied (hp t ht)]

lemma plain_copiedUnless (hp : p.Plain) (b : Bool) : (p.copiedUnless b).Plain := by
  intro t ht as hi
  obtain ⟨t', ht', -, -, hi', -⟩ :=
    (mem_copiedUnless hp b).mp ⟨t, ht, rfl, rfl, rfl, rfl⟩
  exact hp t' ht' as (hi'.trans hi)

variable [DecidableEq Sym]

/-- A step, told by what the transition is between, fires on and does. -/
lemma step_iff_parts {c d : Config α Sym} :
    p.Step c d ↔ ∃ i o a w, i.admits a = true ∧ c.stack = a :: w ∧ d.stack = o.apply a ++ w ∧
      ∃ t ∈ p.transitions, t.source = c.location ∧ t.target = d.location ∧ t.input = i ∧
        t.op = o := by
  rw [step_iff]
  constructor
  · rintro ⟨t, ht, a, w, ha, rfl, rfl⟩
    exact ⟨t.input, t.op, a, w, ha, rfl, rfl, t, ht, rfl, rfl, rfl, rfl⟩
  · obtain ⟨x, u⟩ := c
    obtain ⟨y, v⟩ := d
    rintro ⟨_, _, a, w, ha, rfl, rfl, t, ht, rfl, rfl, rfl, rfl⟩
    exact ⟨t, ht, a, w, ha, rfl, rfl⟩

lemma step_copiedUnless_iff (hp : p.Plain) (b : Bool) {c d : Config α Sym} :
    (p.copiedUnless b).Step c d ↔ p.Step c d := by
  simp only [step_iff_parts, mem_copiedUnless hp b]

lemma run_copiedUnless_iff (hp : p.Plain) (b : Bool) {c d : Config α Sym} {ls : List α} :
    (p.copiedUnless b).Run c ls d ↔ p.Run c ls d :=
  ⟨Run.mono fun _ _ => (step_copiedUnless_iff hp b).mp,
    Run.mono fun _ _ => (step_copiedUnless_iff hp b).mpr⟩

/-! ### Steps of the whole -/

/-- The transition from the end of the first automaton to the start of the second one. -/
def glue (p : Pda α Sym) (q : Pda β Sym) : Transition (α ⊕ β) Sym :=
  .plain (.inl p.final) (.inr q.initial) .any .noop

lemma mem_transitions_concat {t : Transition (α ⊕ β) Sym} :
    t ∈ (concat kept p q).transitions ↔
      (∃ t' ∈ (p.copiedUnless (kept = some .first)).transitions, t'.mapLocations .inl = t) ∨
      (∃ t' ∈ (q.copiedUnless (kept = some .second)).transitions, t'.mapLocations .inr = t) ∨
      t = glue p q := by
  simp only [concat, List.mem_append, List.mem_map, List.mem_singleton, or_assoc]
  rfl

/-- **Steps of one automaton behind another.** -/
lemma step_concat_iff (hp : p.Plain) (hq : q.Plain) {c d : Config (α ⊕ β) Sym} :
    (concat kept p q).Step c d ↔
      (∃ c' d', p.Step c' d' ∧ c = c'.mapLocation .inl ∧ d = d'.mapLocation .inl) ∨
      (∃ c' d', q.Step c' d' ∧ c = c'.mapLocation .inr ∧ d = d'.mapLocation .inr) ∨
      ∃ u, u ≠ [] ∧ c = ⟨.inl p.final, u⟩ ∧ d = ⟨.inr q.initial, u⟩ := by
  constructor
  · intro h
    obtain ⟨t, ht, a, w, ha, rfl, rfl⟩ := step_iff.mp h
    rcases mem_transitions_concat.mp ht with ⟨t', ht', rfl⟩ | ⟨t', ht', rfl⟩ | rfl
    · have hstep := (step_copiedUnless_iff hp _).mp (step_of_mem ht' ha w)
      exact .inl ⟨_, _, hstep, rfl, rfl⟩
    · have hstep := (step_copiedUnless_iff hq _).mp (step_of_mem ht' ha w)
      exact .inr (.inl ⟨_, _, hstep, rfl, rfl⟩)
    · exact .inr (.inr ⟨a :: w, List.cons_ne_nil a w, rfl, rfl⟩)
  · rintro (⟨c', d', h, rfl, rfl⟩ | ⟨c', d', h, rfl, rfl⟩ | ⟨u, hu, rfl, rfl⟩)
    · obtain ⟨t, ht, a, w, ha, rfl, rfl⟩ :=
        step_iff.mp ((step_copiedUnless_iff hp (kept = some .first)).mpr h)
      exact step_of_mem (mem_transitions_concat.mpr (.inl ⟨t, ht, rfl⟩)) ha w
    · obtain ⟨t, ht, a, w, ha, rfl, rfl⟩ :=
        step_iff.mp ((step_copiedUnless_iff hq (kept = some .second)).mpr h)
      exact step_of_mem (mem_transitions_concat.mpr (.inr (.inl ⟨t, ht, rfl⟩))) ha w
    · obtain ⟨a, w, rfl⟩ := List.exists_cons_of_ne_nil hu
      exact step_of_mem (mem_transitions_concat.mpr (.inr (.inr rfl))) rfl w

/-! ### Runs of the whole -/

lemma concat_reaches_inl (hp : p.Plain) (hq : q.Plain) {c d : Config α Sym}
    (h : p.Reaches c d) :
    (concat kept p q).Reaches (c.mapLocation .inl) (d.mapLocation .inl) := by
  induction h with
  | refl => exact .refl _
  | tail _ hs ih => exact ih.tail ((step_concat_iff hp hq).mpr (.inl ⟨_, _, hs, rfl, rfl⟩))

lemma concat_reaches_inr (hp : p.Plain) (hq : q.Plain) {c d : Config β Sym}
    (h : q.Reaches c d) :
    (concat kept p q).Reaches (c.mapLocation .inr) (d.mapLocation .inr) := by
  induction h with
  | refl => exact .refl _
  | tail _ hs ih =>
      exact ih.tail ((step_concat_iff hp hq).mpr (.inr (.inl ⟨_, _, hs, rfl, rfl⟩)))

/-- What a run of the whole from a location of the first automaton has done so far. -/
def Passing (p : Pda α Sym) (q : Pda β Sym) (c : Config α Sym) (e : Config (α ⊕ β) Sym) : Prop :=
  (∃ d, p.Reaches c d ∧ e = d.mapLocation .inl) ∨
    ∃ u d, u ≠ [] ∧ p.Reaches c ⟨p.final, u⟩ ∧ q.Reaches ⟨q.initial, u⟩ d ∧
      e = d.mapLocation .inr

lemma Passing.step (hp : p.Plain) (hq : q.Plain) {c : Config α Sym} {e f : Config (α ⊕ β) Sym}
    (h : Passing p q c e) (hs : (concat kept p q).Step e f) : Passing p q c f := by
  rcases (step_concat_iff hp hq).mp hs with
    ⟨e', f', hs', rfl, rfl⟩ | ⟨e', f', hs', rfl, rfl⟩ | ⟨u, hu, rfl, rfl⟩
  · rcases h with ⟨d, hd, heq⟩ | ⟨u, d, hu, h₁, h₂, heq⟩
    · obtain rfl : e' = d := Config.mapLocation_injective Sum.inl_injective heq
      exact .inl ⟨f', hd.tail hs', rfl⟩
    · simp [Config.mapLocation] at heq
  · rcases h with ⟨d, hd, heq⟩ | ⟨u, d, hu, h₁, h₂, heq⟩
    · simp [Config.mapLocation] at heq
    · obtain rfl : e' = d := Config.mapLocation_injective Sum.inr_injective heq
      exact .inr ⟨u, f', hu, h₁, h₂.tail hs', rfl⟩
  · rcases h with ⟨d, hd, heq⟩ | ⟨_, d, _, _, _, heq⟩
    · obtain rfl : d = ⟨p.final, u⟩ := Config.mapLocation_injective Sum.inl_injective heq.symm
      exact .inr ⟨u, _, hu, hd, .refl _, rfl⟩
    · simp [Config.mapLocation] at heq

lemma passing_of_reaches (hp : p.Plain) (hq : q.Plain) {c : Config α Sym}
    {e : Config (α ⊕ β) Sym} (h : (concat kept p q).Reaches (c.mapLocation .inl) e) :
    Passing p q c e := by
  induction h with
  | refl => exact .inl ⟨c, .refl _, rfl⟩
  | tail _ hs ih => exact ih.step hp hq hs

/-- Runs of one automaton behind another that end in the first one are runs of the first one. -/
lemma concat_reaches_inl_iff (hp : p.Plain) (hq : q.Plain) {c d : Config α Sym} :
    (concat kept p q).Reaches (c.mapLocation .inl) (d.mapLocation .inl) ↔ p.Reaches c d := by
  refine ⟨fun h => ?_, concat_reaches_inl hp hq⟩
  rcases passing_of_reaches hp hq h with ⟨e, he, heq⟩ | ⟨u, e, -, -, -, heq⟩
  · rwa [Config.mapLocation_injective Sum.inl_injective heq]
  · simp [Config.mapLocation] at heq

/-- **Runs of one automaton behind another**: a run from the first one into the second one passes
from the end of the first one to the start of the second one, once, with a symbol on the stack. -/
lemma concat_reaches_iff (hp : p.Plain) (hq : q.Plain) {l : α} {m : β} {v w : List Sym} :
    (concat kept p q).Reaches ⟨.inl l, v⟩ ⟨.inr m, w⟩ ↔
      ∃ u, u ≠ [] ∧ p.Reaches ⟨l, v⟩ ⟨p.final, u⟩ ∧ q.Reaches ⟨q.initial, u⟩ ⟨m, w⟩ := by
  constructor
  · intro h
    rcases passing_of_reaches (c := ⟨l, v⟩) hp hq h with ⟨d, -, heq⟩ | ⟨u, d, hu, h₁, h₂, heq⟩
    · simp [Config.mapLocation] at heq
    · obtain rfl : d = ⟨m, w⟩ := Config.mapLocation_injective Sum.inr_injective heq.symm
      exact ⟨u, hu, h₁, h₂⟩
  · rintro ⟨u, hu, h₁, h₂⟩
    have hglue : (concat kept p q).Step ⟨.inl p.final, u⟩ ⟨.inr q.initial, u⟩ :=
      (step_concat_iff hp hq).mpr (.inr (.inr ⟨u, hu, rfl, rfl⟩))
    exact ((concat_reaches_inl hp hq h₁).tail hglue).trans (concat_reaches_inr hp hq h₂)

/-! ### The kind of the whole -/

lemma plain_concat (hp : p.Plain) (hq : q.Plain) : (concat kept p q).Plain := by
  intro t ht as
  rcases mem_transitions_concat.mp ht with ⟨t', ht', rfl⟩ | ⟨t', ht', rfl⟩ | rfl
  · exact plain_copiedUnless hp _ t' ht' as
  · exact plain_copiedUnless hq _ t' ht' as
  · exact fun h => Input.noConfusion rfl (heq_of_eq h)

lemma wellFormed_copiedUnless (hp : p.Plain) (hw : p.WellFormed) (b : Bool) :
    (p.copiedUnless b).WellFormed := by
  have hparts : ∀ t ∈ (p.copiedUnless b).transitions, ∃ t' ∈ p.transitions,
      t'.source = t.source ∧ t'.target = t.target ∧ t'.input = t.input ∧ t'.op = t.op :=
    fun t ht => (mem_copiedUnless hp b).mp ⟨t, ht, rfl, rfl, rfl, rfl⟩
  refine ⟨fun t ht => ?_, fun t ht => ?_, fun t ht a ha => ?_⟩ <;>
    obtain ⟨t', ht', hx, hy, hi, ho⟩ := hparts t ht
  · rw [locations_copiedUnless, ← hx]
    exact hw.source_mem t' ht'
  · rw [locations_copiedUnless, ← hy]
    exact hw.target_mem t' ht'
  · rw [symbols_copiedUnless]
    refine hw.symbols_mem t' ht' a ?_
    rwa [Transition.symbols, hi, ho]

lemma wellFormed_concat (hp : p.Plain) (hq : q.Plain) (hpw : p.WellFormed) (hqw : q.WellFormed)
    (hfinal : p.final ∈ p.locations) (hinitial : q.initial ∈ q.locations) :
    (concat kept p q).WellFormed := by
  have hloc : ∀ {x : α ⊕ β}, x ∈ (concat kept p q).locations ↔
      (∃ l ∈ p.locations, Sum.inl l = x) ∨ ∃ m ∈ q.locations, Sum.inr m = x := by
    simp [concat]
  have hsym : ∀ {a : Sym}, a ∈ (concat kept p q).symbols ↔ a ∈ p.symbols ∨ a ∈ q.symbols := by
    simp [concat]
  have hpc := wellFormed_copiedUnless hp hpw (kept = some .first)
  have hqc := wellFormed_copiedUnless hq hqw (kept = some .second)
  refine ⟨fun t ht => ?_, fun t ht => ?_, fun t ht a ha => ?_⟩ <;>
    rcases mem_transitions_concat.mp ht with ⟨t', ht', rfl⟩ | ⟨t', ht', rfl⟩ | rfl
  · exact hloc.mpr (.inl ⟨_, locations_copiedUnless (p := p) _ ▸ hpc.source_mem t' ht', rfl⟩)
  · exact hloc.mpr (.inr ⟨_, locations_copiedUnless (p := q) _ ▸ hqc.source_mem t' ht', rfl⟩)
  · exact hloc.mpr (.inl ⟨_, hfinal, rfl⟩)
  · exact hloc.mpr (.inl ⟨_, locations_copiedUnless (p := p) _ ▸ hpc.target_mem t' ht', rfl⟩)
  · exact hloc.mpr (.inr ⟨_, locations_copiedUnless (p := q) _ ▸ hqc.target_mem t' ht', rfl⟩)
  · exact hloc.mpr (.inr ⟨_, hinitial, rfl⟩)
  · exact hsym.mpr (.inl (symbols_copiedUnless (p := p) _ ▸ hpc.symbols_mem t' ht' a ha))
  · exact hsym.mpr (.inr (symbols_copiedUnless (p := q) _ ▸ hqc.symbols_mem t' ht' a ha))
  · simp [glue, Transition.symbols, Transition.plain, Input.symbols, Op.symbols] at ha

end Pda

end MplsReach
