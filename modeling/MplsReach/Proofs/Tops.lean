/-
Rules for those tops of the stack only that can occur.

* `mem_tops_iff`: the computed pairs of location and top are those that steps between such pairs
  lead to; there are enough rounds to find them all.
* `Pda.Covered`: a configuration whose stack holds symbols of the automaton and whose top is one of
  the computed ones; a step keeps it (`Pda.Covered.step`), so every run does.
* `compile_reaches_iff`: the rules reach the same configurations as the automaton.
-/
import Mathlib.Data.List.Nodup
import Mathlib.Data.List.ProdSigma
import MplsReach.Proofs.Runs
import MplsReach.Proofs.Search
import MplsReach.Pushdown.Header
import MplsReach.Pushdown.Rules

namespace MplsReach

variable {Loc Sym : Type}

/-! ### Tops after a step -/

/-- The symbol that an operation puts on top of the stack, if it brings one in. -/
def Op.top? : Op Sym → Option Sym
  | .noop | .pop => none
  | .push b | .replace b | .pushReplace b _ => some b

/-- After an operation the top is the same, or brought in, or any symbol. -/
lemma Op.mem_topsAfter {symbols : List Sym} {a b : Sym} {op : Op Sym}
    (h : b ∈ op.topsAfter symbols a) : b = a ∨ b ∈ symbols ∨ op.top? = some b := by
  cases op <;> simp_all [Op.topsAfter, Op.top?]

/-- What stands on top after an operation is one of the tops expected, if a pop uncovers only
symbols of the automaton. -/
lemma Op.top_mem_topsAfter {symbols w v : List Sym} {a b : Sym} {op : Op Sym}
    (hw : ∀ c ∈ w, c ∈ symbols) (h : op.apply a ++ w = b :: v) :
    b ∈ op.topsAfter symbols a := by
  cases op with
  | noop =>
      rw [Op.apply, List.singleton_append, List.cons.injEq] at h
      exact List.mem_singleton.mpr h.1.symm
  | pop =>
      -- the symbol below comes to light
      rw [Op.apply, List.nil_append] at h
      exact hw b (h ▸ List.mem_cons_self)
  | push c =>
      rw [Op.apply, List.cons_append, List.cons.injEq] at h
      exact List.mem_singleton.mpr h.1.symm
  | replace c =>
      rw [Op.apply, List.singleton_append, List.cons.injEq] at h
      exact List.mem_singleton.mpr h.1.symm
  | pushReplace c d =>
      rw [Op.apply, List.cons_append, List.cons.injEq] at h
      exact List.mem_singleton.mpr h.1.symm

/-- The symbols on the stack after an operation were there, or were brought in. -/
lemma Op.mem_apply {a b : Sym} {op : Op Sym} (h : b ∈ op.apply a) : b = a ∨ b ∈ op.symbols := by
  cases op <;> simp_all [Op.apply, Op.symbols]
  tauto

/-! ### All pairs of location and top -/

variable {p : Pda Loc Sym} {start goal : Sym}

/-- All pairs that steps can lead to: locations that are entered, with symbols that are known or
brought in. -/
def Pda.allHeads (p : Pda Loc Sym) (start : Sym) : List (Loc × Sym) :=
  (p.initial :: p.transitions.map Transition.target) ×ˢ
    (start :: p.symbols ++ p.transitions.filterMap (·.op.top?))

lemma Pda.mem_allHeads_iff {h : Loc × Sym} : h ∈ p.allHeads start ↔
    (h.1 = p.initial ∨ ∃ t ∈ p.transitions, t.target = h.1) ∧
      (h.2 = start ∨ h.2 ∈ p.symbols ∨ ∃ t ∈ p.transitions, t.op.top? = some h.2) := by
  obtain ⟨l, a⟩ := h
  rw [Pda.allHeads, List.mem_product]
  simp

lemma Pda.length_allHeads_le : (p.allHeads start).length ≤ p.topRounds := by
  have h := List.length_filterMap_le (fun t : Transition Loc Sym => t.op.top?) p.transitions
  rw [Pda.allHeads, List.length_product, Pda.topRounds]
  simp only [List.length_cons, List.length_append, List.length_map]
  exact Nat.mul_le_mul (by omega) (by omega)

/-! ### Tops with rules -/

@[simp]
lemma mem_topsAt [DecidableEq Loc] [Hashable Loc] {pairs : List (Loc × Sym)} {l : Loc}
    {a : Sym} : a ∈ topsAt pairs l ↔ (l, a) ∈ pairs := by
  simp only [topsAt, getD_groupBy, List.mem_map, List.mem_filter, beq_iff_eq]
  constructor
  · rintro ⟨⟨l', a'⟩, ⟨h, rfl⟩, rfl⟩
    exact h
  · intro h
    exact ⟨(l, a), ⟨h, rfl⟩, rfl⟩

lemma nodup_topsAt [DecidableEq Loc] [Hashable Loc] {pairs : List (Loc × Sym)}
    (h : pairs.Nodup) (l : Loc) : (topsAt pairs l).Nodup := by
  rw [topsAt, getD_groupBy]
  refine List.Nodup.map_on ?_ (h.filter _)
  rintro ⟨l₁, a₁⟩ h₁ ⟨l₂, a₂⟩ h₂ heq
  simp only [List.mem_filter, beq_iff_eq] at h₁ h₂
  rw [Prod.mk.injEq]
  exact ⟨h₁.2.trans h₂.2.symm, heq⟩

variable [DecidableEq Sym]

/-- There are rules for admitted tops only. -/
lemma Input.admits_of_mem_ruleTops {i : Input Sym} {tops : List Sym} {a : Sym}
    (h : a ∈ i.ruleTops tops) : i.admits a = true := by
  cases i with
  | on b =>
      rw [Input.ruleTops] at h
      split at h
      · simp only [Input.admits, decide_eq_true_eq]
        exact (List.mem_singleton.mp h).symm
      · simp at h
  | any => rfl
  | among as => simpa [Input.admits, Input.ruleTops] using h

/-- There is a rule for every admitted top that can occur. -/
lemma Input.mem_ruleTops {i : Input Sym} {tops : List Sym} {a : Sym} (ha : i.admits a = true)
    (h : a ∈ tops) : a ∈ i.ruleTops tops := by
  cases i with
  | on b =>
      simp only [Input.admits, decide_eq_true_eq] at ha
      subst ha
      simp [Input.ruleTops, h]
  | any => exact h
  | among as => simpa [Input.admits, Input.ruleTops] using ha

/-! ### Steps between pairs of location and top -/

lemma mem_topSteps {symbols : List Sym} {out : Loc → List (Transition Loc Sym)} {h h' : Loc × Sym} :
    h' ∈ topSteps symbols out h ↔ ∃ t ∈ out h.1, t.input.admits h.2 = true ∧
      t.target = h'.1 ∧ h'.2 ∈ t.op.topsAfter symbols h.2 := by
  simp only [topSteps, List.mem_flatMap, List.mem_map, Transition.topsAfter]
  constructor
  · rintro ⟨t, ht, b, hb, rfl⟩
    split at hb
    · next ha => exact ⟨t, ht, ha, rfl, hb⟩
    · simp at hb
  · rintro ⟨t, ht, ha, htar, hb⟩
    exact ⟨t, ht, h'.2, by rwa [if_pos ha], by rw [htar]⟩

/-! ### The computed tops -/

variable [DecidableEq Loc] [Hashable Loc]

/-- The pairs of location and top that a step leads to, over the transitions of an automaton. -/
def Pda.headSteps (p : Pda Loc Sym) : Loc × Sym → List (Loc × Sym) :=
  topSteps p.symbols ((groupBy Transition.source p.transitions).getD · [])

lemma Pda.mem_headSteps {h h' : Loc × Sym} :
    h' ∈ p.headSteps h ↔ ∃ t ∈ p.transitions, t.source = h.1 ∧ t.input.admits h.2 = true ∧
      t.target = h'.1 ∧ h'.2 ∈ t.op.topsAfter p.symbols h.2 := by
  rw [Pda.headSteps, mem_topSteps]
  simp only [getD_groupBy, List.mem_filter, beq_iff_eq, and_assoc]

/-- Steps stay among these pairs. -/
lemma Pda.mem_allHeads {h : Loc × Sym}
    (hh : Search.LeadsTo p.headSteps [(p.initial, start)] h) : h ∈ p.allHeads start := by
  obtain ⟨s, hs, hsh⟩ := hh
  rw [List.mem_singleton] at hs
  subst hs
  induction hsh with
  | refl => exact Pda.mem_allHeads_iff.mpr ⟨.inl rfl, .inl rfl⟩
  | tail _ hstep ih =>
      obtain ⟨t, ht, -, -, htar, hb⟩ := Pda.mem_headSteps.mp hstep
      refine Pda.mem_allHeads_iff.mpr ⟨.inr ⟨t, ht, htar⟩, ?_⟩
      rcases Op.mem_topsAfter hb with heq | hsym | htop
      · rw [heq]
        exact (Pda.mem_allHeads_iff.mp ih).2
      · exact .inr (.inl hsym)
      · exact .inr (.inr ⟨t, ht, htop⟩)

variable [Hashable Sym]

/-- **The computed tops** are the pairs of location and top that steps lead to. -/
lemma Pda.mem_tops_iff {h : Loc × Sym} :
    h ∈ p.tops start ↔ Search.LeadsTo p.headSteps [(p.initial, start)] h :=
  Search.mem_found_closure_iff (fun _ => Pda.mem_allHeads) Pda.length_allHeads_le h

lemma Pda.nodup_tops : (p.tops start).Nodup :=
  Search.nodup_found_closure p.topRounds [(p.initial, start)]

lemma Pda.initial_mem_tops : (p.initial, start) ∈ p.tops start :=
  Pda.mem_tops_iff.mpr ⟨_, List.mem_singleton_self _, .refl⟩

/-- The computed tops are closed under steps. -/
lemma Pda.mem_tops_of_step {t : Transition Loc Sym} {a b : Sym} (ht : t ∈ p.transitions)
    (hmem : (t.source, a) ∈ p.tops start) (ha : t.input.admits a = true)
    (hb : b ∈ t.op.topsAfter p.symbols a) : (t.target, b) ∈ p.tops start := by
  obtain ⟨s, hs, hsa⟩ := Pda.mem_tops_iff.mp hmem
  exact Pda.mem_tops_iff.mpr
    ⟨s, hs, hsa.tail (Pda.mem_headSteps.mpr ⟨t, ht, rfl, ha, rfl, hb⟩)⟩

/-! ### Configurations that the tops cover -/

/-- A configuration with symbols of the automaton on its stack and a computed top. -/
structure Pda.Covered (p : Pda Loc Sym) (start : Sym) (c : Config Loc Sym) : Prop where
  symbols : ∀ a ∈ c.stack, a ∈ p.symbols
  top : ∀ a w, c.stack = a :: w → (c.location, a) ∈ p.tops start

lemma Pda.covered_initial (hs : start ∈ p.symbols) :
    p.Covered start ⟨p.initial, [start]⟩ where
  symbols a ha := by
    rw [List.mem_singleton.mp ha]
    exact hs
  top a w h := by
    rw [List.cons.injEq] at h
    exact h.1 ▸ Pda.initial_mem_tops

/-- A step keeps a configuration covered. -/
lemma Pda.Covered.step (hp : p.WellFormed) {c d : Config Loc Sym} (hc : p.Covered start c)
    (h : p.Step c d) : p.Covered start d := by
  obtain ⟨t, ht, a, w, ha, rfl, rfl⟩ := Pda.step_iff.mp h
  have hw : ∀ b ∈ w, b ∈ p.symbols := fun b hb => hc.symbols b (List.mem_cons_of_mem a hb)
  constructor
  · intro b hb
    rcases List.mem_append.mp hb with hb | hb
    · rcases Op.mem_apply hb with rfl | hb
      · exact hc.symbols b List.mem_cons_self
      · exact hp.symbols_mem t ht b (List.mem_append_right _ hb)
    · exact hw b hb
  · intro b v hv
    exact Pda.mem_tops_of_step ht (hc.top a w rfl) ha (Op.top_mem_topsAfter hw hv)

/-- Every configuration of a run is covered. -/
lemma Pda.covered_of_reaches (hp : p.WellFormed) (hs : start ∈ p.symbols) {c : Config Loc Sym}
    (h : p.Reaches ⟨p.initial, [start]⟩ c) : p.Covered start c := by
  induction h with
  | refl => exact Pda.covered_initial hs
  | tail _ hstep ih => exact ih.step hp hstep

/-! ### The rules -/

lemma blocks_compile : (p.compile start goal).blocks =
    p.transitions.map fun t => ⟨t, t.input.ruleTops (topsAt (p.tops start) t.source)⟩ := rfl

/-- A step by rules is a step of the automaton. -/
lemma step_of_compile_step {c d : Config Loc Sym} (h : (p.compile start goal).Step c d) :
    p.Step c d := by
  obtain ⟨b, a, w, hb, ha⟩ := h
  rw [blocks_compile, List.mem_map] at hb
  obtain ⟨t, ht, rfl⟩ := hb
  exact .fire t a w ht (Input.admits_of_mem_ruleTops ha)

/-- A step of the automaton from a covered configuration is a step by rules. -/
lemma Pda.Covered.compile_step {c d : Config Loc Sym} (hc : p.Covered start c) (h : p.Step c d) :
    (p.compile start goal).Step c d := by
  obtain ⟨t, ht, a, w, ha, rfl, rfl⟩ := Pda.step_iff.mp h
  refine .apply ⟨t, t.input.ruleTops (topsAt (p.tops start) t.source)⟩ a w ?_ ?_
  · rw [blocks_compile]
    exact List.mem_map_of_mem ht
  · exact Input.mem_ruleTops ha (mem_topsAt.mpr (hc.top a w rfl))

/-- The rules reach what the automaton reaches. -/
lemma reaches_iff_compile_reaches (hp : p.WellFormed) (hs : start ∈ p.symbols)
    {c : Config Loc Sym} : p.Reaches ⟨p.initial, [start]⟩ c ↔
      (p.compile start goal).Reaches ⟨p.initial, [start]⟩ c := by
  constructor
  · intro h
    induction h with
    | refl => exact .refl _
    | tail hcd hstep ih =>
        exact ih.tail ((Pda.covered_of_reaches hp hs hcd).compile_step hstep)
  · intro h
    induction h with
    | refl => exact .refl _
    | tail _ hstep ih => exact ih.tail (step_of_compile_step hstep)

/-- What there are rules for: a transition on one symbol has one where that symbol can be on top,
and a transition on every top has one for each top that can occur, once. -/
lemma tops_of_mem_blocks {b : Block Loc Sym} (hb : b ∈ (p.compile start goal).blocks) :
    (∀ a, b.transition.input = .on a →
      b.tops = if (b.transition.source, a) ∈ p.tops start then [a] else []) ∧
    (b.transition.input = .any →
      b.tops.Nodup ∧ ∀ a, a ∈ b.tops ↔ (b.transition.source, a) ∈ p.tops start) := by
  rw [blocks_compile, List.mem_map] at hb
  obtain ⟨t, _, rfl⟩ := hb
  constructor
  · intro a ha
    simp only at ha ⊢
    simp only [ha, Input.ruleTops, List.contains_iff_mem, mem_topsAt]
  · intro ha
    simp only at ha ⊢
    rw [ha]
    exact ⟨nodup_topsAt Pda.nodup_tops _, fun _ => mem_topsAt⟩

/-- **Rules for possible tops lose no run.** If the transitions of an automaton join its locations
and name its symbols, the rules compiled for a start symbol reach the same configurations as the
automaton does; each reachable top is a computed one; and the rules are, for each transition, those
of the computed tops at its source. -/
theorem compile_reaches_iff (p : Pda Loc Sym) (hp : p.WellFormed) {start goal : Sym}
    (hs : start ∈ p.symbols) :
    (∀ c, p.Reaches ⟨p.initial, [start]⟩ c ↔
      (p.compile start goal).Reaches ⟨p.initial, [start]⟩ c) ∧
    (∀ l a w, p.Reaches ⟨p.initial, [start]⟩ ⟨l, a :: w⟩ → (l, a) ∈ p.tops start) ∧
    (p.compile start goal).blocks.map Block.transition = p.transitions ∧
    ∀ b ∈ (p.compile start goal).blocks,
      (∀ a, b.transition.input = .on a →
        b.tops = if (b.transition.source, a) ∈ p.tops start then [a] else []) ∧
      (b.transition.input = .any →
        b.tops.Nodup ∧ ∀ a, a ∈ b.tops ↔ (b.transition.source, a) ∈ p.tops start) := by
  refine ⟨fun c => reaches_iff_compile_reaches hp hs, fun l a w h => ?_, ?_, fun b hb => ?_⟩
  · exact (Pda.covered_of_reaches hp hs h).top a w rfl
  · rw [blocks_compile, List.map_map]
    exact List.map_id _
  · exact tops_of_mem_blocks hb

/-- An automaton with one edge that reads `a`. -/
def oneLetter : Nfa Nat StackSymbol := ⟨[0, 1], [⟨0, some (.label "a"), 1⟩], [.label "a"], 0, 1⟩

/-- A header of one label is built by rules: the marker is pushed, the label is put under it, and
the marker is popped again, which uncovers the label. -/
theorem compile_reaches_oneLetter :
    (oneLetter.builder.compile .bottom .bottom).Reaches ⟨.start, [.bottom]⟩
      ⟨.finish, [.label "a", .bottom]⟩ := by
  have push : oneLetter.builder.Step ⟨.start, [.bottom]⟩ ⟨.at 0, [.marker, .bottom]⟩ :=
    Pda.step_of_mem
      (t := .plain Built.start (.at 0) (.on StackSymbol.bottom) (.push .marker)) (by decide) rfl []
  have put : oneLetter.builder.Step ⟨.at 0, [.marker, .bottom]⟩
      ⟨.at 1, [.marker, .label "a", .bottom]⟩ :=
    Pda.step_of_mem
      (t := .plain (Built.at 0) (.at 1) (.on StackSymbol.marker)
        (.pushReplace .marker (.label "a")))
      (by decide) rfl [.bottom]
  have pop : oneLetter.builder.Step ⟨.at 1, [.marker, .label "a", .bottom]⟩
      ⟨.finish, [.label "a", .bottom]⟩ :=
    Pda.step_of_mem
      (t := .plain (Built.at 1) .finish (.on StackSymbol.marker) .pop) (by decide) rfl
      [.label "a", .bottom]
  exact ((compile_reaches_iff oneLetter.builder Pda.wellFormed_ofTransitions
    (Pda.mem_symbols_ofTransitions (List.mem_singleton_self _))).1 _).mp
    (((Pda.Reaches.refl _).tail push).tail put |>.tail pop)

end MplsReach
