/-
A pushdown automaton observed by an automaton over its locations.

* `Nfa.Entered`: an automaton that is left from its initial location by reading a given symbol, and
  reads that symbol nowhere else.
* `Pda.run_of_product_reaches`, `Pda.product_reaches_of_run`: the runs of the product behind its
  entrance are the runs of the automaton, with its transitions copied, whose locations are read on a
  path.
* `Pda.run_of_entrance_reaches`, `Pda.entrance_reaches_of_run`: the same from the entrance on.
* `Pda.product_reaches_iff`: the same for plain automata, which copying does not change.
-/
import MplsReach.Proofs.Concat
import MplsReach.Proofs.Paths
import MplsReach.Pushdown.Product

namespace MplsReach

/-- From the initial location only the given symbol is read, and nothing is done silently; the
symbol is read there only. -/
structure Nfa.Entered {ν Sym : Type} (a : Nfa ν Sym) (first : Sym) : Prop where
  not_silent : ∀ e ∈ a.edges, e.source = a.initial → e.symbol ≠ none
  source_eq : ∀ e ∈ a.edges, e.symbol = some first → e.source = a.initial

namespace Pda

variable {Loc ν Sym : Type} [DecidableEq Sym] {p : Pda Loc Sym} {a : Nfa ν Loc}

/-! ### Transitions of the product -/

/-- A transition that is observed on an edge. -/
def observed (e : Edge ν Loc) (t : Transition Loc Sym) : Transition (Option Loc × ν) Sym :=
  { t.copied with source := (some t.source, e.source), target := (some t.target, e.target) }

/-- An observed transition is a transition of the copied automaton. -/
lemma step_copied_of_observed {e : Edge ν Loc} {t : Transition Loc Sym} (ht : t ∈ p.transitions)
    {x : Sym} (hx : (observed e t).input.admits x = true) (w : List Sym) :
    (p.copiedUnless false).Step ⟨t.source, x :: w⟩ ⟨t.target, t.op.apply x ++ w⟩ :=
  step_of_mem (p := p.copiedUnless false) (t := t.copied) (List.mem_map_of_mem ht) hx w

variable [DecidableEq Loc] [DecidableEq ν]

lemma mem_transitions_product {t : Transition (Option Loc × ν) Sym} :
    t ∈ (p.product a).transitions ↔
      (∃ e ∈ a.edges, e.symbol = some p.initial ∧
        t = .plain (none, a.initial) (some p.initial, e.target) .any .noop) ∨
      (∃ e ∈ a.edges, e.symbol = none ∧ ∃ l, (∀ m, l = some m → m ∈ p.locations) ∧
        t = .plain (l, e.source) (l, e.target) .any .noop) ∨
      ∃ e ∈ a.edges, ∃ t' ∈ p.transitions, e.symbol = some t'.target ∧ t = observed e t' := by
  have hplace : ∀ l : Option Loc,
      l ∈ none :: p.locations.map some ↔ ∀ m, l = some m → m ∈ p.locations := by
    rintro (_ | l) <;> simp
  simp only [product, ofTransitions, productEntries, productSilent, productSteps, List.mem_append,
    List.mem_map, List.mem_flatMap, List.mem_filter, decide_eq_true_eq, hplace, or_assoc,
    and_assoc, eq_comm (a := t), eq_comm (a := some _)]
  rfl

lemma plain_product (hp : p.Plain) : (p.product a).Plain := by
  intro t ht as
  rcases mem_transitions_product.mp ht with
    ⟨e, -, -, rfl⟩ | ⟨e, -, -, l, -, rfl⟩ | ⟨e, -, t', ht', -, rfl⟩
  · simp [Transition.plain]
  · simp [Transition.plain]
  · have hi : (observed e t').input = t'.input := Transition.input_copied (hp t' ht')
    rw [hi]
    exact hp t' ht' as

/-! ### Behind the entrance -/

/-- A step of the copied automaton is observed on every edge that reads where it leads to. -/
lemma step_observed_of_copied {l m : Loc} {u v : List Sym}
    (h : (p.copiedUnless false).Step ⟨l, u⟩ ⟨m, v⟩) {q r : ν} (he : ⟨q, some m, r⟩ ∈ a.edges) :
    (p.product a).Step ⟨(some l, q), u⟩ ⟨(some m, r), v⟩ := by
  obtain ⟨_, hcopy, x, w, hx, hc, hd⟩ := step_iff.mp h
  obtain ⟨t, ht, rfl⟩ := List.mem_map.mp hcopy
  obtain ⟨rfl, rfl⟩ := Config.mk.inj hc
  obtain ⟨rfl, rfl⟩ := Config.mk.inj hd
  exact step_of_mem (t := observed ⟨q, some t.target, r⟩ t)
    (mem_transitions_product.mpr (.inr (.inr ⟨_, he, t, ht, rfl, rfl⟩))) hx w

/-- Behind the entrance, a run of the product is a run of the copied automaton, read on a path. -/
lemma run_of_product_reaches {l : Loc} {q : ν} {u : List Sym}
    {d : Config (Option Loc × ν) Sym} (h : (p.product a).Reaches ⟨(some l, q), u⟩ d) :
    ∃ m r ls, d.location = (some m, r) ∧ (p.copiedUnless false).Run ⟨l, u⟩ ls ⟨m, d.stack⟩ ∧
      a.Path q ls r := by
  generalize hc : (⟨(some l, q), u⟩ : Config (Option Loc × ν) Sym) = c at h
  induction h with
  | refl =>
      subst hc
      exact ⟨l, q, [], rfl, .refl _, .refl _⟩
  | tail _ hstep ih =>
      obtain ⟨m, r, ls, hloc, hrun, hpath⟩ := ih
      obtain ⟨t, ht, x, w, hx, rfl, rfl⟩ := step_iff.mp hstep
      rcases mem_transitions_product.mp ht with
        ⟨e, -, -, rfl⟩ | ⟨e, he, hs, k, -, rfl⟩ | ⟨e, he, t', ht', hs, rfl⟩
      · simp [Transition.plain] at hloc
      · -- a silent edge: the automaton stays where it is
        obtain ⟨rfl, rfl⟩ := Prod.mk.inj hloc
        refine ⟨m, e.target, ls, rfl, hrun, ?_⟩
        have hedge := hpath.trans (Nfa.Path.edge he)
        rwa [hs, Option.toList_none, List.append_nil] at hedge
      · -- a step of the automaton, which the edge reads
        obtain ⟨hsrc, rfl⟩ := Prod.mk.inj hloc
        obtain rfl := Option.some.inj hsrc
        refine ⟨t'.target, e.target, ls ++ [t'.target], rfl, ?_, ?_⟩
        · exact hrun.append (.step (step_copied_of_observed ht' hx w) (.refl _))
        · have hedge := hpath.trans (Nfa.Path.edge he)
          rwa [hs, Option.toList_some] at hedge

/-- A run of the copied automaton that is read on a path is a run of the product, if it leaves a
symbol on the stack. -/
lemma product_reaches_of_run {l m : Loc} {q r : ν} {u v : List Sym} {ls : List Loc}
    (hpath : a.Path q ls r) (hls : ∀ k ∈ l :: ls, k ∈ p.locations)
    (hrun : (p.copiedUnless false).Run ⟨l, u⟩ ls ⟨m, v⟩) (hv : v ≠ []) :
    (p.product a).Reaches ⟨(some l, q), u⟩ ⟨(some m, r), v⟩ := by
  induction hpath generalizing l u with
  | refl =>
      cases hrun
      exact .refl _
  | @silent q q' r ls he _ ih =>
      obtain ⟨x, w, rfl⟩ := List.exists_cons_of_ne_nil (hrun.stack_ne_nil hv)
      have hstep : (p.product a).Step ⟨(some l, q), x :: w⟩ ⟨(some l, q'), x :: w⟩ :=
        step_of_mem (mem_transitions_product.mpr (.inr (.inl ⟨_, he, rfl, some l,
          fun _ h => Option.some.inj h ▸ hls l List.mem_cons_self, rfl⟩))) rfl w
      exact .head hstep (ih hls hrun)
  | @read q q' r s ls he _ ih =>
      obtain _ | ⟨hs, hrest⟩ := hrun
      exact .head (step_observed_of_copied hs he) (ih (List.forall_mem_cons.mp hls).2 hrest)

/-! ### From the entrance on -/

/-- A run from the entrance is a run of the copied automaton from its start whose locations, the
first one included, are read on a path. -/
lemma run_of_entrance_reaches (ha : a.Entered p.initial) {m : Loc} {r : ν} {u v : List Sym}
    (h : (p.product a).Reaches ⟨(none, a.initial), u⟩ ⟨(some m, r), v⟩) :
    ∃ ls, (p.copiedUnless false).Run ⟨p.initial, u⟩ ls ⟨m, v⟩ ∧
      a.Path a.initial (p.initial :: ls) r := by
  rcases (reaches_iff.mp h).cases_head with heq | ⟨c, hs, hrest⟩
  · simp at heq
  obtain ⟨t, ht, x, w, -, hc, rfl⟩ := step_iff.mp hs
  obtain ⟨hloc, rfl⟩ := Config.mk.inj hc
  rcases mem_transitions_product.mp ht with
    ⟨e, he, hsym, rfl⟩ | ⟨e, he, hsym, l, -, rfl⟩ | ⟨e, -, t', -, -, rfl⟩
  · obtain ⟨m', r', ls, hloc', hrun, hpath⟩ := run_of_product_reaches (reaches_iff.mpr hrest)
    obtain ⟨hm, rfl⟩ := Prod.mk.inj hloc'
    obtain rfl := Option.some.inj hm
    have hedge : a.Path a.initial [p.initial] e.target := by
      have := Nfa.Path.edge he
      rwa [ha.source_eq e he hsym, hsym] at this
    exact ⟨ls, hrun, hedge.trans hpath⟩
  · -- nothing is done silently at the entrance
    exact absurd hsym (ha.not_silent e he (Prod.mk.inj hloc).2.symm)
  · simp [observed] at hloc

/-- Such a run is a run of the product, if it leaves a symbol on the stack. -/
lemma entrance_reaches_of_run (ha : a.Entered p.initial) {m : Loc} {r : ν} {u v : List Sym}
    {ls : List Loc} (hrun : (p.copiedUnless false).Run ⟨p.initial, u⟩ ls ⟨m, v⟩)
    (hpath : a.Path a.initial (p.initial :: ls) r)
    (hls : ∀ k ∈ p.initial :: ls, k ∈ p.locations) (hv : v ≠ []) :
    (p.product a).Reaches ⟨(none, a.initial), u⟩ ⟨(some m, r), v⟩ := by
  obtain ⟨x, w, rfl⟩ := List.exists_cons_of_ne_nil (hrun.stack_ne_nil hv)
  cases hpath with
  | silent he _ => exact absurd rfl (ha.not_silent _ he rfl)
  | read he hpath =>
      have hstep := step_of_mem (mem_transitions_product.mpr
        (.inl ⟨_, he, rfl, rfl⟩) : _ ∈ (p.product a).transitions) (a := x) rfl w
      exact .head hstep (product_reaches_of_run hpath hls hrun hv)

/-- **Runs of the product** of a plain automaton, if they leave a symbol on the stack. -/
lemma product_reaches_iff (hp : p.Plain) (hw : p.WellFormed) (hinit : p.initial ∈ p.locations)
    (ha : a.Entered p.initial) {m : Loc} {r : ν} {u v : List Sym} (hv : v ≠ []) :
    (p.product a).Reaches ⟨(none, a.initial), u⟩ ⟨(some m, r), v⟩ ↔
      ∃ ls, p.Run ⟨p.initial, u⟩ ls ⟨m, v⟩ ∧ a.Path a.initial (p.initial :: ls) r := by
  constructor
  · intro h
    obtain ⟨ls, hrun, hpath⟩ := run_of_entrance_reaches ha h
    exact ⟨ls, (run_copiedUnless_iff hp false).mp hrun, hpath⟩
  · rintro ⟨ls, hrun, hpath⟩
    exact entrance_reaches_of_run ha ((run_copiedUnless_iff hp false).mpr hrun) hpath
      (List.forall_mem_cons.mpr ⟨hinit, hw.mem_of_run hrun⟩) hv

end Pda

end MplsReach
