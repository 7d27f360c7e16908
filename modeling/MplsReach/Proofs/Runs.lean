/-
Runs of pushdown automata.

* `Pda.step_iff`: what a step can be.
* `Pda.reaches_iff`: reachability is the reflexive transitive closure of the steps.
* `Pda.Run`: a run with the locations that it enters.
* `Pda.WellFormed`: transitions join locations of the automaton and name only its symbols; an
  automaton that is spanned by its transitions is of this kind.
* `Pda.Plain`: a transition fires on one top or on every top, never on a set of tops.
-/
import Mathlib.Logic.Relation
import Mathlib.Tactic.Common
import MplsReach.Pushdown.Basic

namespace MplsReach.Pda

variable {Loc Sym : Type} [DecidableEq Sym] {p : Pda Loc Sym}

/-! ### Steps -/

/-- What a step can be. -/
lemma step_iff {c d : Config Loc Sym} :
    p.Step c d ↔ ∃ t ∈ p.transitions, ∃ a w, t.input.admits a = true ∧
      c = ⟨t.source, a :: w⟩ ∧ d = ⟨t.target, t.op.apply a ++ w⟩ := by
  constructor
  · rintro ⟨t, a, w, ht, ha⟩
    exact ⟨t, ht, a, w, ha, rfl, rfl⟩
  · rintro ⟨t, ht, a, w, ha, rfl, rfl⟩
    exact .fire t a w ht ha

/-- A transition of the automaton that the top admits is a step. -/
lemma step_of_mem {t : Transition Loc Sym} (ht : t ∈ p.transitions) {a : Sym}
    (ha : t.input.admits a = true) (w : List Sym) :
    p.Step ⟨t.source, a :: w⟩ ⟨t.target, t.op.apply a ++ w⟩ :=
  .fire t a w ht ha

/-! ### Reachability -/

/-- Reachability is the reflexive transitive closure of the steps. -/
lemma reaches_iff {c d : Config Loc Sym} : p.Reaches c d ↔ Relation.ReflTransGen p.Step c d := by
  constructor
  · intro h
    induction h with
    | refl => exact .refl
    | tail _ hs ih => exact ih.tail hs
  · intro h
    induction h with
    | refl => exact .refl _
    | tail _ hs ih => exact ih.tail hs

lemma Step.reaches {c d : Config Loc Sym} (h : p.Step c d) : p.Reaches c d := .tail (.refl c) h

lemma Reaches.trans {c d e : Config Loc Sym} (h : p.Reaches c d) (h' : p.Reaches d e) :
    p.Reaches c e := by
  rw [reaches_iff] at *
  exact h.trans h'

lemma Reaches.head {c d e : Config Loc Sym} (h : p.Step c d) (h' : p.Reaches d e) :
    p.Reaches c e :=
  h.reaches.trans h'

/-! ### Runs with their locations -/

variable (p) in
/-- A run with the locations that it enters, in order; the location that it starts from is not one
of them. -/
inductive Run : Config Loc Sym → List Loc → Config Loc Sym → Prop where
  | refl (c : Config Loc Sym) : Run c [] c
  | step {c d e : Config Loc Sym} {ls : List Loc} :
      p.Step c d → Run d ls e → Run c (d.location :: ls) e

lemma Run.append {c d e : Config Loc Sym} {ls ms : List Loc} (h : p.Run c ls d)
    (h' : p.Run d ms e) : p.Run c (ls ++ ms) e := by
  induction h with
  | refl => exact h'
  | step hs _ ih => exact .step hs (ih h')

/-- The last step of a run, which enters the last location. -/
lemma Run.exists_last {c d : Config Loc Sym} {ls : List Loc} {l : Loc}
    (h : p.Run c (ls ++ [l]) d) : d.location = l ∧ ∃ e, p.Run c ls e ∧ p.Step e d := by
  induction ls generalizing c with
  | nil =>
      obtain _ | ⟨hs, hrest⟩ := h
      cases hrest
      exact ⟨rfl, c, .refl c, hs⟩
  | cons k ls ih =>
      obtain _ | ⟨hs, hrest⟩ := h
      obtain ⟨hd, e, he, hlast⟩ := ih hrest
      exact ⟨hd, e, .step hs he, hlast⟩

/-- An automaton with all steps of another one has its runs. -/
lemma Run.mono {q : Pda Loc Sym} (hpq : ∀ c d, p.Step c d → q.Step c d) {c d : Config Loc Sym}
    {ls : List Loc} (h : p.Run c ls d) : q.Run c ls d := by
  induction h with
  | refl c => exact .refl c
  | step hs _ ih => exact .step (hpq _ _ hs) ih

/-- A run that ends with a symbol on the stack started with one. -/
lemma Run.stack_ne_nil {c d : Config Loc Sym} {ls : List Loc} (h : p.Run c ls d)
    (hd : d.stack ≠ []) : c.stack ≠ [] := by
  cases h with
  | refl => exact hd
  | step hs _ =>
      obtain ⟨t, _, a, w, _, rfl, _⟩ := step_iff.mp hs
      simp

/-! ### Kinds of automata -/

/-- The transitions of an automaton join its own locations and name its own symbols. -/
structure WellFormed (p : Pda Loc Sym) : Prop where
  source_mem : ∀ t ∈ p.transitions, t.source ∈ p.locations
  target_mem : ∀ t ∈ p.transitions, t.target ∈ p.locations
  symbols_mem : ∀ t ∈ p.transitions, ∀ a ∈ t.symbols, a ∈ p.symbols

/-- The locations that a run enters are locations of the automaton. -/
lemma WellFormed.mem_of_run (hp : p.WellFormed) {c d : Config Loc Sym} {ls : List Loc}
    (h : p.Run c ls d) : ∀ l ∈ ls, l ∈ p.locations := by
  induction h with
  | refl => exact fun _ hl => absurd hl List.not_mem_nil
  | step hs _ ih =>
      obtain ⟨t, ht, _, _, _, _, rfl⟩ := step_iff.mp hs
      exact List.forall_mem_cons.mpr ⟨hp.target_mem t ht, ih⟩

/-- Transitions fire on one top or on every top. -/
def Plain (p : Pda Loc Sym) : Prop := ∀ t ∈ p.transitions, ∀ as, t.input ≠ .among as

variable [DecidableEq Loc] {locations : List Loc} {symbols : List Sym}
  {specials : List (String × Sym)} {initial final : Loc} {transitions : List (Transition Loc Sym)}

/-- An automaton that is spanned by its transitions is well formed. -/
lemma wellFormed_ofTransitions :
    (ofTransitions locations symbols specials initial final transitions).WellFormed where
  source_mem t ht := by
    rw [ofTransitions, Text.mem_distinct, List.mem_append, List.mem_flatMap]
    exact .inr ⟨t, ht, by simp⟩
  target_mem t ht := by
    rw [ofTransitions, Text.mem_distinct, List.mem_append, List.mem_flatMap]
    exact .inr ⟨t, ht, by simp⟩
  symbols_mem t ht a ha := by
    rw [ofTransitions, Text.mem_distinct, List.mem_append, List.mem_flatMap]
    exact .inr ⟨t, ht, ha⟩

lemma mem_locations_ofTransitions {l : Loc} (h : l ∈ locations) :
    l ∈ (ofTransitions locations symbols specials initial final transitions).locations := by
  rw [ofTransitions, Text.mem_distinct]
  exact List.mem_append_left _ h

lemma mem_symbols_ofTransitions {a : Sym} (h : a ∈ symbols) :
    a ∈ (ofTransitions locations symbols specials initial final transitions).symbols := by
  rw [ofTransitions, Text.mem_distinct]
  exact List.mem_append_left _ h

end MplsReach.Pda
