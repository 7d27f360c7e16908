/-
The tops of the stack by a worklist that is emptied in any order.

* `Transition.addedTops`: what a transition can put on top, given all tops at its source.
* `Pda.Emits`: rules for given tops, in any order.
* `Pda.Solves`: tops for all locations that hold the start symbol and all that transitions add;
  `Pda.isLeast_computedTops`: the computed tops are the least ones.
* `Worklist`: the tops found so far, and the locations that are still to be looked at.
* `Pda.Round`: one of these is taken, and its transitions are looked at, in any order.
* `Pda.Held.foldl`, `Pda.Round.valid`: what one location's transitions and what a round preserve. A
  location whose tops grow is to be looked at again, so what was looked at before stays met.
* `worklist_finds_tops`: **every run ends, with the least tops and the same rules.**
-/
import Mathlib.Data.Finset.Card
import Mathlib.Order.Bounds.Basic
import MplsReach.Proofs.Tops
import MplsReach.Pushdown.Witness

namespace MplsReach

variable {Loc Sym : Type}

/-! ### Rules and their number -/

lemma RuleSystem.size_eq_length_rules (r : RuleSystem Loc Sym) : r.size = r.rules.length := by
  rw [RuleSystem.size, RuleSystem.rules]
  induction r.blocks with
  | nil => rfl
  | cons b bs ih => simp [total_cons, ih]

variable [DecidableEq Sym]

/-! ### Tops that a transition adds -/

/-- What can be on top after an operation, given the tops before it. -/
def Op.addedTops (symbols : List Sym) (tops : Finset Sym) : Op Sym → Finset Sym
  | .noop => tops
  | .pop => symbols.toFinset
  | .push b | .replace b | .pushReplace b _ => {b}

/-- What can be on top after a transition, given the tops at its source. A transition on every top
is not asked whether there is one. -/
def Transition.addedTops (symbols : List Sym) (tops : Finset Sym) (t : Transition Loc Sym) :
    Finset Sym :=
  match t.input with
  | .on a => if a ∈ tops then t.op.addedTops symbols {a} else ∅
  | .any => t.op.addedTops symbols tops
  | .among as =>
      if tops ∩ as.toFinset = ∅ then ∅ else t.op.addedTops symbols (tops ∩ as.toFinset)

lemma Op.mem_addedTops_iff {symbols : List Sym} {tops : Finset Sym} {op : Op Sym} {b : Sym}
    (h : tops.Nonempty) :
    b ∈ op.addedTops symbols tops ↔ ∃ a ∈ tops, b ∈ op.topsAfter symbols a := by
  obtain ⟨c, hc⟩ := h
  cases op with
  | noop => simp [Op.addedTops, Op.topsAfter]
  | pop | push _ | replace _ | pushReplace _ _ =>
      -- what comes on top does not depend on the top before
      simp only [Op.addedTops, Op.topsAfter, List.mem_toFinset, Finset.mem_singleton,
        List.mem_singleton]
      constructor
      · intro hb
        exact ⟨c, hc, hb⟩
      · rintro ⟨_, _, hb⟩
        exact hb

/-- Where there is a top at all, a transition adds what can be on top after a step from one. -/
lemma Transition.mem_addedTops_iff {symbols : List Sym} {tops : Finset Sym}
    {t : Transition Loc Sym} {b : Sym} (h : tops.Nonempty) :
    b ∈ t.addedTops symbols tops ↔
      ∃ a ∈ tops, t.input.admits a = true ∧ b ∈ t.op.topsAfter symbols a := by
  rw [Transition.addedTops]
  cases t.input with
  | on c =>
      by_cases hc : c ∈ tops
      · simp only [if_pos hc, Op.mem_addedTops_iff (Finset.singleton_nonempty c),
          Finset.mem_singleton, Input.admits, decide_eq_true_eq]
        constructor
        · rintro ⟨a, rfl, hb⟩
          exact ⟨a, hc, rfl, hb⟩
        · rintro ⟨a, -, rfl, hb⟩
          exact ⟨c, rfl, hb⟩
      · simp only [if_neg hc, Finset.notMem_empty, false_iff, Input.admits, decide_eq_true_eq]
        rintro ⟨a, ha, rfl, -⟩
        exact hc ha
  | any => simp [Op.mem_addedTops_iff h, Input.admits]
  | among as =>
      have hboth : ∀ a, a ∈ tops ∩ as.toFinset ↔
          a ∈ tops ∧ (Input.among as).admits a = true := by
        simp [Input.admits]
      by_cases hempty : tops ∩ as.toFinset = ∅
      · simp only [if_pos hempty, Finset.notMem_empty, false_iff]
        rintro ⟨a, ha, hadmits, -⟩
        exact Finset.notMem_empty a (hempty ▸ (hboth a).mpr ⟨ha, hadmits⟩)
      · simp only [if_neg hempty, hboth, and_assoc,
          Op.mem_addedTops_iff (Finset.nonempty_iff_ne_empty.mpr hempty)]

lemma Transition.addedTops_subset {symbols : List Sym} {tops tops' : Finset Sym}
    {t : Transition Loc Sym} (h : tops.Nonempty) (hsub : tops ⊆ tops') :
    t.addedTops symbols tops ⊆ t.addedTops symbols tops' := by
  intro b hb
  obtain ⟨a, ha, hstep⟩ := (mem_addedTops_iff h).mp hb
  exact (mem_addedTops_iff (h.mono hsub)).mpr ⟨a, hsub ha, hstep⟩

/-! ### Rules for tops -/

/-- The rules are those of the transitions for the given tops; the order of the transitions and that
of the tops of each is left open. -/
structure Pda.Emits (p : Pda Loc Sym) (T : Loc → Finset Sym) (r : RuleSystem Loc Sym) : Prop where
  transitions : (r.blocks.map Block.transition).Perm p.transitions
  tops : ∀ b ∈ r.blocks, b.tops.Perm (b.transition.input.ruleTops (T b.transition.source).toList)

lemma Input.ruleTops_perm {i : Input Sym} {tops tops' : List Sym} (h : tops.Perm tops') :
    (i.ruleTops tops).Perm (i.ruleTops tops') := by
  cases i with
  | on a =>
      simp only [Input.ruleTops, List.contains_iff_mem, h.mem_iff]
      exact .refl _
  | any => exact h
  | among as => exact .refl as

open scoped List in
/-- Whatever the order, the same rules are emitted. -/
lemma Pda.Emits.rules_perm {p : Pda Loc Sym} {T : Loc → Finset Sym} {r : RuleSystem Loc Sym}
    (h : p.Emits T r) : r.rules.Perm (p.transitions.flatMap fun t =>
      (t.input.ruleTops (T t.source).toList).map fun a => ((t.source, a), t)) := by
  calc r.rules
      = r.blocks.flatMap fun b => b.tops.map fun a =>
          ((b.transition.source, a), b.transition) := rfl
    _ ~ r.blocks.flatMap fun b =>
          (b.transition.input.ruleTops (T b.transition.source).toList).map fun a =>
            ((b.transition.source, a), b.transition) :=
        List.Perm.flatMap_left _ fun b hb => (h.tops b hb).map _
    _ = (r.blocks.map Block.transition).flatMap fun t =>
          (t.input.ruleTops (T t.source).toList).map fun a => ((t.source, a), t) := by
        rw [List.flatMap_map]
    _ ~ _ := h.transitions.flatMap_right _

/-! ### The least tops -/

/-- Tops for all locations, with the start symbol at the initial one, and with all that transitions
out of a location with a top add. -/
def Pda.Solves (p : Pda Loc Sym) (start : Sym) (T : Loc → Finset Sym) : Prop :=
  start ∈ T p.initial ∧ ∀ t ∈ p.transitions, (T t.source).Nonempty →
    t.addedTops p.symbols (T t.source) ⊆ T t.target

section Computed

variable [DecidableEq Loc] [Hashable Loc] [Hashable Sym] {p : Pda Loc Sym} {start goal : Sym}

/-- The computed tops at a location. -/
def Pda.computedTops (p : Pda Loc Sym) (start : Sym) (l : Loc) : Finset Sym :=
  (topsAt (p.tops start) l).toFinset

@[simp]
lemma Pda.mem_computedTops {l : Loc} {a : Sym} :
    a ∈ p.computedTops start l ↔ (l, a) ∈ p.tops start := by
  simp [Pda.computedTops]

/-- **The computed tops** are the least ones. -/
lemma Pda.isLeast_computedTops : IsLeast {T | p.Solves start T} (p.computedTops start) := by
  refine ⟨⟨mem_computedTops.mpr initial_mem_tops, fun t ht hne b hb => ?_⟩, fun T hT l a ha => ?_⟩
  · obtain ⟨a, ha, hadmits, hb⟩ := (Transition.mem_addedTops_iff hne).mp hb
    exact mem_computedTops.mpr (mem_tops_of_step ht (mem_computedTops.mp ha) hadmits hb)
  · obtain ⟨hstart, hclosed⟩ := hT
    -- all pairs that steps lead to are among the given tops
    have hpairs : ∀ h : Loc × Sym, h ∈ p.tops start → h.2 ∈ T h.1 := by
      intro h hh
      obtain ⟨s, hs, hsteps⟩ := mem_tops_iff.mp hh
      obtain rfl := List.mem_singleton.mp hs
      induction hsteps with
      | refl => exact hstart
      | @tail h h' hbefore hstep ih =>
          obtain ⟨t, ht, hsource, hadmits, htarget, hb⟩ := mem_headSteps.mp hstep
          have htop := ih (mem_tops_iff.mpr ⟨_, hs, hbefore⟩)
          rw [← hsource] at htop
          have hadded := hclosed t ht ⟨_, htop⟩
            ((Transition.mem_addedTops_iff ⟨_, htop⟩).mpr ⟨_, htop, hadmits, hb⟩)
          exact htarget ▸ hadded
    exact hpairs (l, a) (mem_computedTops.mp ha)

lemma Pda.emits_compile : p.Emits (p.computedTops start) (p.compile start goal) where
  transitions := by
    rw [blocks_compile, List.map_map]
    exact .of_eq (List.map_id _)
  tops b hb := by
    rw [blocks_compile, List.mem_map] at hb
    obtain ⟨t, -, rfl⟩ := hb
    exact Input.ruleTops_perm (List.toFinset_toList (nodup_topsAt nodup_tops _)).symm

end Computed

/-! ### The worklist -/

/-- The tops found so far, and the locations that are still to be looked at. -/
structure Worklist (Loc Sym : Type) where
  tops : Loc → Finset Sym
  front : Finset Loc

namespace Worklist

/-- The pairs of location and top found so far, out of the given ones. -/
def heads (U : Finset (Loc × Sym)) (s : Worklist Loc Sym) : Finset (Loc × Sym) :=
  U.filter fun h => h.2 ∈ s.tops h.1

/-- The worklist has grown: no tops are lost, a location whose tops have changed is to be looked at,
and no more locations are to be looked at than pairs were found. -/
structure Grows (U : Finset (Loc × Sym)) (s s' : Worklist Loc Sym) : Prop where
  tops_le : s.tops ≤ s'.tops
  front_subset : s.front ⊆ s'.front
  kept : ∀ x ∉ s'.front, s'.tops x = s.tops x
  card_le : s'.front.card + (s.heads U).card ≤ s.front.card + (s'.heads U).card

variable {U : Finset (Loc × Sym)} {s s' s'' : Worklist Loc Sym}

lemma Grows.refl (U : Finset (Loc × Sym)) (s : Worklist Loc Sym) : s.Grows U s :=
  ⟨le_refl _, Finset.Subset.refl _, fun _ _ => rfl, le_refl _⟩

lemma Grows.trans (h : s.Grows U s') (h' : s'.Grows U s'') : s.Grows U s'' where
  tops_le := h.tops_le.trans h'.tops_le
  front_subset := h.front_subset.trans h'.front_subset
  kept x hx := (h'.kept x hx).trans (h.kept x fun hmem => hx (h'.front_subset hmem))
  card_le := by
    have hfirst := h.card_le
    have hsecond := h'.card_le
    omega

end Worklist

/-- The start symbol is known, locations to be looked at have a top, and all tops are needed. -/
structure Pda.Held (p : Pda Loc Sym) (start : Sym) (s : Worklist Loc Sym) : Prop where
  start_mem : start ∈ s.tops p.initial
  front_nonempty : ∀ l ∈ s.front, (s.tops l).Nonempty
  below : ∀ T, p.Solves start T → s.tops ≤ T

/-- Moreover, what the transitions of the other locations add is known. -/
structure Pda.Valid (p : Pda Loc Sym) (start : Sym) (s : Worklist Loc Sym) : Prop
    extends p.Held start s where
  met : ∀ t ∈ p.transitions, t.source ∉ s.front → (s.tops t.source).Nonempty →
    t.addedTops p.symbols (s.tops t.source) ⊆ s.tops t.target

/-- When the worklist is empty, the least tops have been found. -/
lemma Pda.Valid.isLeast {p : Pda Loc Sym} {start : Sym} {s : Worklist Loc Sym}
    (h : p.Valid start s) (hfront : s.front = ∅) :
    IsLeast {T | p.Solves start T} s.tops :=
  ⟨⟨h.start_mem, fun t ht => h.met t ht (by simp [hfront])⟩, h.below⟩

/-! ### Visits and rounds -/

variable [DecidableEq Loc]

/-- A transition out of a location is looked at. If it adds tops to its target, that is to be looked
at as well. -/
def Worklist.visit (symbols : List Sym) (l : Loc) (s : Worklist Loc Sym)
    (t : Transition Loc Sym) : Worklist Loc Sym :=
  let new := t.addedTops symbols (s.tops l) \ s.tops t.target
  if new = ∅ then s
  else ⟨Function.update s.tops t.target (s.tops t.target ∪ new), insert t.target s.front⟩

namespace Worklist

variable {symbols : List Sym} {s : Worklist Loc Sym} {l x : Loc} {t : Transition Loc Sym}
  {U : Finset (Loc × Sym)}

lemma mem_tops_visit {a : Sym} : a ∈ (s.visit symbols l t).tops x ↔
    a ∈ s.tops x ∨ x = t.target ∧ a ∈ t.addedTops symbols (s.tops l) := by
  rw [visit]
  split
  · next hnew =>
      have hsub := Finset.sdiff_eq_empty_iff_subset.mp hnew
      rw [iff_comm, or_iff_left_iff_imp]
      rintro ⟨rfl, ha⟩
      exact hsub ha
  · by_cases hx : x = t.target
    · subst hx
      simp
    · simp [hx]

lemma mem_front_visit : x ∈ (s.visit symbols l t).front ↔
    x ∈ s.front ∨ x = t.target ∧ ¬ t.addedTops symbols (s.tops l) ⊆ s.tops t.target := by
  rw [visit, ← Finset.sdiff_eq_empty_iff_subset]
  split
  · next hnew => simp [hnew]
  · next hnew => simp [hnew, or_comm]

lemma card_front_visit_le : (s.visit symbols l t).front.card ≤ s.front.card + 1 := by
  rw [visit]
  split
  · exact Nat.le_succ _
  · exact Finset.card_insert_le _ _

/-- A visit makes the worklist grow, if what it finds is among the given pairs. -/
lemma grows_visit (hU : ∀ x, ∀ a ∈ (s.visit symbols l t).tops x, (x, a) ∈ U) :
    s.Grows U (s.visit symbols l t) where
  tops_le x a ha := mem_tops_visit.mpr (.inl ha)
  front_subset x hx := mem_front_visit.mpr (.inl hx)
  kept x hx := by
    rw [mem_front_visit, not_or, not_and, not_not] at hx
    ext a
    rw [mem_tops_visit, or_iff_left_iff_imp]
    rintro ⟨rfl, ha⟩
    exact hx.2 rfl ha
  card_le := by
    have hsub : s.heads U ⊆ (s.visit symbols l t).heads U :=
      Finset.monotone_filter_right U fun h _ ha => mem_tops_visit.mpr (.inl ha)
    by_cases hnew : t.addedTops symbols (s.tops l) ⊆ s.tops t.target
    · have hfront : (s.visit symbols l t).front = s.front := by
        ext x
        simp [mem_front_visit, hnew]
      rw [hfront]
      exact Nat.add_le_add_left (Finset.card_le_card hsub) _
    · -- a new pair was found
      obtain ⟨a, ha, hnot⟩ := Finset.not_subset.mp hnew
      have hfound := mem_tops_visit.mpr (.inr ⟨rfl, ha⟩)
      have hlt : (s.heads U).card < ((s.visit symbols l t).heads U).card := by
        refine Finset.card_lt_card (Finset.ssubset_iff_of_subset hsub |>.mpr
          ⟨(t.target, a), Finset.mem_filter.mpr ⟨hU _ a hfound, hfound⟩, fun hmem => hnot ?_⟩)
        exact (Finset.mem_filter.mp hmem).2
      have hfront : (s.visit symbols l t).front.card ≤ s.front.card + 1 := card_front_visit_le
      omega

end Worklist

namespace Pda

variable {p : Pda Loc Sym} {start goal : Sym} {s s' : Worklist Loc Sym} {l : Loc}
  {t : Transition Loc Sym} {ts : List (Transition Loc Sym)} {m : Nat}

/-- Only the start symbol is known, and only the initial location is to be looked at. -/
def firstWorklist (p : Pda Loc Sym) (start : Sym) : Worklist Loc Sym :=
  ⟨Function.update (fun _ => ∅) p.initial {start}, {p.initial}⟩

/-- A location is taken from the worklist, and the transitions out of it are looked at; which one,
and in which order, is left open. -/
def Round (p : Pda Loc Sym) (s s' : Worklist Loc Sym) : Prop :=
  ∃ l ∈ s.front, ∃ ts : List (Transition Loc Sym), ts.Perm (p.outgoing l) ∧
    s' = ts.foldl (Worklist.visit p.symbols l) { s with front := s.front.erase l }

/-- A number of rounds from the first worklist. -/
inductive Rounds (p : Pda Loc Sym) (start : Sym) : Nat → Worklist Loc Sym → Prop where
  | zero : Rounds p start 0 (p.firstWorklist start)
  | succ {m : Nat} {s s' : Worklist Loc Sym} :
      Rounds p start m s → p.Round s s' → Rounds p start (m + 1) s'

lemma exists_round (h : s.front.Nonempty) : ∃ s', p.Round s s' := by
  obtain ⟨l, hl⟩ := h
  exact ⟨_, l, hl, p.outgoing l, .refl _, rfl⟩

/-! ### What a round preserves -/

lemma Held.visit (h : p.Held start s) (ht : t ∈ p.transitions) (hne : (s.tops t.source).Nonempty) :
    p.Held start (s.visit p.symbols t.source t) where
  start_mem := Worklist.mem_tops_visit.mpr (.inl h.start_mem)
  front_nonempty x hx := by
    rcases Worklist.mem_front_visit.mp hx with hx | ⟨rfl, hnew⟩
    · obtain ⟨a, ha⟩ := h.front_nonempty x hx
      exact ⟨a, Worklist.mem_tops_visit.mpr (.inl ha)⟩
    · obtain ⟨a, ha, -⟩ := Finset.not_subset.mp hnew
      exact ⟨a, Worklist.mem_tops_visit.mpr (.inr ⟨rfl, ha⟩)⟩
  below T hT x a ha := by
    rcases Worklist.mem_tops_visit.mp ha with hknown | ⟨rfl, hadded⟩
    · exact h.below T hT x hknown
    · have hle := h.below T hT t.source
      exact hT.2 t ht (hne.mono hle) (Transition.addedTops_subset hne hle hadded)

lemma valid_firstWorklist : p.Valid start (p.firstWorklist start) where
  start_mem := by simp [firstWorklist]
  front_nonempty l hl := by
    obtain rfl := Finset.mem_singleton.mp hl
    simp [firstWorklist]
  below T hT x a ha := by
    by_cases hx : x = p.initial
    · subst hx
      obtain rfl : a = start := by simpa [firstWorklist] using ha
      exact hT.1
    · simp [firstWorklist, hx] at ha
  met t _ hsource hne := by
    have hinitial : t.source ≠ p.initial := by simpa [firstWorklist] using hsource
    simp [firstWorklist, hinitial] at hne

variable [Hashable Loc] [Hashable Sym]

lemma Held.mem_tops (h : p.Held start s) {x : Loc} {a : Sym} (ha : a ∈ s.tops x) :
    (x, a) ∈ (p.tops start).toFinset :=
  List.mem_toFinset.mpr (mem_computedTops.mp (h.below _ isLeast_computedTops.1 x ha))

/-- **The transitions of a location**, looked at one after the other: unless the location is to be
looked at again, all that they add is known. -/
lemma Held.foldl (h : p.Held start s) (hne : (s.tops l).Nonempty)
    (hts : ∀ t ∈ ts, t ∈ p.transitions ∧ t.source = l) :
    p.Held start (ts.foldl (Worklist.visit p.symbols l) s) ∧
    s.Grows (p.tops start).toFinset (ts.foldl (Worklist.visit p.symbols l) s) ∧
    (l ∉ (ts.foldl (Worklist.visit p.symbols l) s).front → ∀ t ∈ ts,
      t.addedTops p.symbols ((ts.foldl (Worklist.visit p.symbols l) s).tops l) ⊆
        (ts.foldl (Worklist.visit p.symbols l) s).tops t.target) := by
  induction ts generalizing s with
  | nil => exact ⟨h, .refl _ s, by simp⟩
  | cons t ts ih =>
      obtain ⟨⟨ht, rfl⟩, hts⟩ := List.forall_mem_cons.mp hts
      have hvisit := h.visit ht hne
      have hfirst : s.Grows (p.tops start).toFinset (s.visit p.symbols t.source t) :=
        Worklist.grows_visit fun x a => hvisit.mem_tops
      obtain ⟨hheld, hrest, hmet⟩ := ih hvisit (hne.mono (hfirst.tops_le _)) hts
      have hgrows := hfirst.trans hrest
      refine ⟨hheld, hgrows, fun hl => List.forall_mem_cons.mpr ⟨fun b hb => ?_, hmet hl⟩⟩
      -- the tops of the location are those that the first transition was looked at with
      rw [List.foldl_cons, hgrows.kept _ hl] at hb
      exact hrest.tops_le _ (Worklist.mem_tops_visit.mpr (.inr ⟨rfl, hb⟩))

/-- **A round** keeps the worklist valid, and takes a location off for good or finds a pair. -/
lemma Round.valid (hs : p.Valid start s) (h : p.Round s s') : p.Valid start s' ∧
    s'.front.card + 1 + (s.heads (p.tops start).toFinset).card ≤
      s.front.card + (s'.heads (p.tops start).toFinset).card := by
  obtain ⟨l, hl, ts, hts, rfl⟩ := h
  have hmem : ∀ t, t ∈ ts ↔ t ∈ p.transitions ∧ t.source = l := by
    intro t
    rw [hts.mem_iff, outgoing, List.mem_filter, decide_eq_true_eq]
  have htaken : p.Held start { s with front := s.front.erase l } :=
    ⟨hs.start_mem, fun x hx => hs.front_nonempty x (Finset.mem_of_mem_erase hx), hs.below⟩
  obtain ⟨hheld, hgrows, hmet⟩ := htaken.foldl (hs.front_nonempty l hl) fun t => (hmem t).mp
  refine ⟨⟨hheld, fun t ht hsource hne => ?_⟩, ?_⟩
  · by_cases hsame : t.source = l
    · rw [hsame] at hsource ⊢
      exact hmet hsource t ((hmem t).mpr ⟨ht, hsame⟩)
    · -- the tops of another location have not changed, or it would be on the worklist
      have hkept := hgrows.kept t.source hsource
      rw [hkept] at hne ⊢
      have hbefore : t.source ∉ s.front := fun hmem =>
        hsource (hgrows.front_subset (Finset.mem_erase.mpr ⟨hsame, hmem⟩))
      exact (hs.met t ht hbefore hne).trans (hgrows.tops_le _)
  · have hcard := hgrows.card_le
    have herase : (s.front.erase l).card + 1 = s.front.card := Finset.card_erase_add_one hl
    simp only [Worklist.heads] at hcard ⊢
    omega

/-- **Rounds** keep the worklist valid, and there are no more of them than pairs have been found. -/
lemma Rounds.valid (h : p.Rounds start m s) : p.Valid start s ∧
    m + s.front.card ≤ (s.heads (p.tops start).toFinset).card := by
  induction h with
  | zero =>
      refine ⟨valid_firstWorklist, ?_⟩
      have hfirst : (p.initial, start) ∈
          (p.firstWorklist start).heads (p.tops start).toFinset :=
        Finset.mem_filter.mpr ⟨valid_firstWorklist.mem_tops valid_firstWorklist.start_mem,
          valid_firstWorklist.start_mem⟩
      have hpos := Finset.card_pos.mpr ⟨_, hfirst⟩
      simp only [firstWorklist, Finset.card_singleton] at hpos ⊢
      omega
  | succ _ hround ih =>
      obtain ⟨hvalid, hcard⟩ := hround.valid ih.1
      exact ⟨hvalid, by omega⟩

/-- There are at most as many rounds as computed pairs of location and top. -/
lemma Rounds.le_length (h : p.Rounds start m s) : m ≤ (p.tops start).length := by
  calc m ≤ (s.heads (p.tops start).toFinset).card := (Nat.le_add_right _ _).trans h.valid.2
    _ ≤ (p.tops start).toFinset.card := Finset.card_filter_le _ _
    _ ≤ (p.tops start).length := List.toFinset_card_le _

/-- Some rounds empty the worklist. -/
lemma exists_rounds_finished (p : Pda Loc Sym) (start : Sym) :
    ∃ m s, p.Rounds start m s ∧ s.front = ∅ := by
  by_contra! hnever
  have hlonger : ∀ m, ∃ s, p.Rounds start m s := by
    intro m
    induction m with
    | zero => exact ⟨_, .zero⟩
    | succ m ih =>
        obtain ⟨s, hs⟩ := ih
        obtain ⟨s', hs'⟩ := p.exists_round (hnever m s hs)
        exact ⟨s', hs.succ hs'⟩
  obtain ⟨s, hs⟩ := hlonger ((p.tops start).length + 1)
  exact absurd hs.le_length (Nat.not_succ_le_self _)

end Pda

/-! ### The worklist in any order -/

/-- **The order does not matter.** However locations are taken from the worklist and transitions are
looked at, there are no more rounds than computed pairs of location and top, and while the worklist
is not empty there is a next one. When it is empty, the least tops have been found, and in whatever
order they are gone through, the same rules are emitted and there are as many. Tops are kept for the
locations of an automaton, which are those that its transitions join; where a transition leads to a
location of another automaton, compiling fails (see `Workshop.tops`). -/
theorem worklist_finds_tops [Hashable Loc] [Hashable Sym] (p : Pda Loc Sym) (start goal : Sym) :
    (∀ m s, p.Rounds start m s →
      m ≤ (p.tops start).length ∧ (s.front.Nonempty → ∃ s', p.Round s s')) ∧
    (∃ m s, p.Rounds start m s ∧ s.front = ∅) ∧
    ∀ m s, p.Rounds start m s → s.front = ∅ →
      IsLeast {T | p.Solves start T} s.tops ∧ p.Emits s.tops (p.compile start goal) ∧
      ∀ r, p.Emits s.tops r → r.rules.Perm (p.compile start goal).rules ∧
        r.size = (p.compile start goal).size := by
  refine ⟨fun m s hs => ⟨hs.le_length, Pda.exists_round⟩, p.exists_rounds_finished start,
    fun m s hs hfront => ?_⟩
  have hleast := hs.valid.1.isLeast hfront
  have htops : s.tops = p.computedTops start := hleast.unique Pda.isLeast_computedTops
  rw [htops]
  refine ⟨Pda.isLeast_computedTops, Pda.emits_compile, fun r hr => ?_⟩
  have hperm : r.rules.Perm (p.compile start goal).rules :=
    hr.rules_perm.trans Pda.emits_compile.rules_perm.symm
  exact ⟨hperm, by rw [r.size_eq_length_rules, RuleSystem.size_eq_length_rules, hperm.length_eq]⟩

end MplsReach
