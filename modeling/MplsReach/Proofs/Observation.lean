/-
What is observed of a pushdown automaton.

The product of a pushdown automaton and an automaton over its locations moves as both do. Two things
show that it is one of transitions that need a symbol on the stack, and of copies: on an empty stack
silent edges are not taken, and what fires on a set of tops fires on every top in the product.

* `Pda.Observed`: a run whose locations are read on a path.
* `Pda.arrives_of_entrance_reaches`: the stack is emptied by a step that an edge reads.
* `Pda.product_observed_iff`: **the runs of the product** are the observed runs.
* `Pda.product_unobserved`: the two things above, for small automata.
-/
import MplsReach.Proofs.Product
import MplsReach.Pushdown.StackSymbol

namespace MplsReach.Pda

variable {Loc ν Sym : Type} [DecidableEq Sym]

/-- There is a run from the initial location whose locations, this one included, are read on a path.
A run that empties the stack does so when the last location is read. -/
def Observed (p : Pda Loc Sym) (a : Nfa ν Loc) (u : List Sym) (m : Loc) (q : ν) (v : List Sym) :
    Prop :=
  ∃ ls, p.Run ⟨p.initial, u⟩ ls ⟨m, v⟩ ∧ a.Path a.initial (p.initial :: ls) q ∧
    (v = [] → u ≠ [] ∧ a.Arrives a.initial (p.initial :: ls) q)

variable [DecidableEq Loc] [DecidableEq ν] {p : Pda Loc Sym} {a : Nfa ν Loc} {u v : List Sym}
  {m : Loc} {q : ν}

/-- The stack is emptied by an observed step, which comes behind a run that is read on a path. -/
lemma arrives_of_entrance_reaches (ha : a.Entered p.initial)
    (h : (p.product a).Reaches ⟨(none, a.initial), u⟩ ⟨(some m, q), []⟩) :
    ∃ ls, (p.copiedUnless false).Run ⟨p.initial, u⟩ ls ⟨m, []⟩ ∧ u ≠ [] ∧
      a.Arrives a.initial (p.initial :: ls) q := by
  rcases (reaches_iff.mp h).cases_tail with heq | ⟨c, hrest, hs⟩
  · simp at heq
  obtain ⟨t, ht, x, w, hx, rfl, hd⟩ := step_iff.mp hs
  obtain ⟨hloc, hstack⟩ := Config.mk.inj hd
  rcases mem_transitions_product.mp ht with
    ⟨e, -, -, rfl⟩ | ⟨e, -, -, l, -, rfl⟩ | ⟨e, he, t', ht', hsym, rfl⟩
  · simp [Transition.plain, Op.apply] at hstack
  · simp [Transition.plain, Op.apply] at hstack
  · obtain ⟨hm, rfl⟩ := Prod.mk.inj hloc
    obtain rfl := Option.some.inj hm
    obtain ⟨ls, hrun, hpath⟩ := run_of_entrance_reaches ha (reaches_iff.mpr hrest)
    have hstep : (p.copiedUnless false).Step ⟨t'.source, x :: w⟩ ⟨t'.target, []⟩ := by
      rw [hstack]
      exact step_copied_of_observed ht' hx w
    refine ⟨ls ++ [t'.target], hrun.append (.step hstep (.refl _)),
      hrun.stack_ne_nil (List.cons_ne_nil x w), .inr ⟨p.initial :: ls, t'.target, e.source, rfl,
        hpath, ?_⟩⟩
    rw [← hsym]
    exact he

/-- If the last location is read at the end, its step empties the stack in the product as well. -/
lemma entrance_reaches_of_arrives (ha : a.Entered p.initial) {ls : List Loc}
    (hrun : (p.copiedUnless false).Run ⟨p.initial, u⟩ ls ⟨m, []⟩) (hu : u ≠ [])
    (harrives : a.Arrives a.initial (p.initial :: ls) q)
    (hls : ∀ l ∈ p.initial :: ls, l ∈ p.locations) :
    (p.product a).Reaches ⟨(none, a.initial), u⟩ ⟨(some m, q), []⟩ := by
  obtain ⟨hnil, -⟩ | ⟨ks, l, r, hword, hpath, he⟩ := harrives
  · exact absurd hnil (List.cons_ne_nil _ _)
  cases ks with
  | nil =>
      -- only the first location is read, and nothing was taken off the stack
      obtain ⟨-, rfl⟩ := List.cons.inj hword
      cases hrun
      exact absurd rfl hu
  | cons k ks =>
      obtain ⟨rfl, rfl⟩ := List.cons.inj hword
      obtain ⟨rfl, ⟨k, w⟩, hbefore, hstep⟩ := hrun.exists_last
      obtain ⟨t, -, x, w, -, hc, -⟩ := step_iff.mp hstep
      obtain ⟨-, rfl⟩ := Config.mk.inj hc
      have hreaches := entrance_reaches_of_run ha hbefore hpath
        (fun l hl => hls l (List.mem_append_left _ hl)) (List.cons_ne_nil x w)
      exact hreaches.tail (step_observed_of_copied hstep he)

/-- **The product moves as both automata do.** It reaches a pair of locations exactly if the
automaton, with its transitions copied, has a run there that is observed; and the copies do as the
automaton itself does if it fires on no sets of tops. -/
theorem product_observed_iff (hread : ∀ e ∈ a.edges, ∀ l, e.symbol = some l → l ∈ p.locations)
    (ha : a.Entered p.initial) :
    ((p.product a).Reaches ⟨(p.product a).initial, u⟩ ⟨(some m, q), v⟩ ↔
      (p.copiedUnless false).Observed a u m q v) ∧
    (p.Plain → ((p.product a).Reaches ⟨(p.product a).initial, u⟩ ⟨(some m, q), v⟩ ↔
      p.Observed a u m q v)) := by
  have hcopied : (p.product a).Reaches ⟨(p.product a).initial, u⟩ ⟨(some m, q), v⟩ ↔
      (p.copiedUnless false).Observed a u m q v := by
    constructor
    · intro h
      by_cases hv : v = []
      · subst hv
        obtain ⟨ls, hrun, hu, harrives⟩ := arrives_of_entrance_reaches ha h
        exact ⟨ls, hrun, harrives.path, fun _ => ⟨hu, harrives⟩⟩
      · obtain ⟨ls, hrun, hpath⟩ := run_of_entrance_reaches ha h
        exact ⟨ls, hrun, hpath, fun h => absurd h hv⟩
    · rintro ⟨ls, hrun, hpath, harrives⟩
      have hls := hpath.forall_mem hread
      by_cases hv : v = []
      · subst hv
        obtain ⟨hu, harrives⟩ := harrives rfl
        exact entrance_reaches_of_arrives ha hrun hu harrives hls
      · exact entrance_reaches_of_run ha hrun hpath hls hv
  refine ⟨hcopied, fun hp => hcopied.trans ?_⟩
  simp only [Observed, run_copiedUnless_iff hp]
  rfl

/-! ### Two small automata -/

/-- One step that takes the label `a` off the stack. -/
def taking : Pda ℕ StackSymbol := .ofTransitions [] [] [] 0 1 [.plain 0 1 (.on (.label "a")) .pop]

/-- One step that fires on a set of tops, which has only `b` in it. -/
def choosing : Pda ℕ StackSymbol :=
  .ofTransitions [] [] [] 0 1 [.plain 0 1 (.among [.label "b"]) .noop]

/-- Reads two locations, and moves on silently. -/
def watcher : Nfa ℕ ℕ := ⟨[0, 1, 2, 3], [⟨0, some 0, 1⟩, ⟨1, some 1, 2⟩, ⟨2, none, 3⟩], [0, 1], 0, 3⟩

lemma entered_watcher : watcher.Entered 0 := ⟨by decide, by decide⟩

lemma run_taking (w : List StackSymbol) : taking.Run ⟨0, .label "a" :: w⟩ [1] ⟨1, w⟩ :=
  .step (step_of_mem (p := taking) (t := .plain 0 1 (.on (.label "a")) .pop) (by decide)
    (by decide) w) (.refl _)

lemma path_watcher : watcher.Path 0 [0, 1] 3 :=
  .read (q := 1) (by decide) (.read (q := 2) (by decide) (.silent (by decide) (.refl 3)))

/-- A run that empties the stack is observed up to the edge that reads its last location; one that
leaves a symbol there also past the silent edge. -/
theorem product_observed_taking :
    (taking.product watcher).Reaches ⟨(none, 0), [.label "a"]⟩ ⟨(some 1, 2), []⟩ ∧
    (taking.product watcher).Reaches ⟨(none, 0), [.label "a", .bottom]⟩
      ⟨(some 1, 3), [.bottom]⟩ := by
  have hplain : taking.Plain := by
    intro t ht as
    obtain rfl := List.mem_singleton.mp ht
    simp [Transition.plain]
  have hread : ∀ e ∈ watcher.edges, ∀ l, e.symbol = some l → l ∈ taking.locations := by
    simp [watcher, taking, ofTransitions, Text.mem_distinct, Transition.plain]
  constructor
  · refine ((product_observed_iff hread entered_watcher).2 hplain).mpr
      ⟨[1], run_taking [], ?_, fun _ => ⟨List.cons_ne_nil _ _, ?_⟩⟩
    · exact .read (q := 1) (by decide) (.read (q := 2) (by decide) (.refl 2))
    · exact .inr ⟨[0], 1, 1, rfl, .read (by decide) (.refl 1), by decide⟩
  · exact ((product_observed_iff hread entered_watcher).2 hplain).mpr
      ⟨[1], run_taking [.bottom], path_watcher, fun h => absurd h (List.cons_ne_nil _ _)⟩

/-- The first automaton and the observer move to where the product with an empty stack does not. And
on the top `a` the product with the second automaton moves, and the automaton itself does not. -/
theorem product_unobserved :
    (watcher.Entered 0 ∧ ∀ e ∈ watcher.edges, e.target ≠ watcher.initial) ∧
    (taking.Run ⟨0, [.label "a"]⟩ [1] ⟨1, []⟩ ∧ watcher.Path 0 [0, 1] 3 ∧
      ¬ (taking.product watcher).Reaches ⟨(none, 0), [.label "a"]⟩ ⟨(some 1, 3), []⟩) ∧
    ((choosing.product watcher).Reaches ⟨(none, 0), [.label "a"]⟩ ⟨(some 1, 2), [.label "a"]⟩ ∧
      ∀ ls, ¬ choosing.Run ⟨0, [.label "a"]⟩ ls ⟨1, [.label "a"]⟩) := by
  refine ⟨⟨entered_watcher, by decide⟩, ⟨run_taking [], path_watcher, ?_⟩, ?_, ?_⟩
  · -- only the silent edge leads to the last location
    intro h
    obtain ⟨ls, -, -, hnil | ⟨v, s, q, -, -, he⟩⟩ :=
      arrives_of_entrance_reaches (p := taking) entered_watcher h
    · exact absurd hnil.1 (List.cons_ne_nil _ _)
    · simp [watcher] at he
  · have hcopy : (choosing.copiedUnless false).Run ⟨0, [.label "a"]⟩ [1] ⟨1, [.label "a"]⟩ :=
      .step (step_of_mem (p := choosing.copiedUnless false) (t := .plain 0 1 .any .noop)
        (by decide) rfl []) (.refl _)
    refine entrance_reaches_of_run (p := choosing) entered_watcher hcopy ?_ (by decide)
      (List.cons_ne_nil _ _)
    exact .read (q := 1) (by decide) (.read (q := 2) (by decide) (.refl 2))
  · intro ls hrun
    obtain _ | ⟨hs, -⟩ := hrun
    obtain ⟨t, ht, x, w, hx, hc, -⟩ := step_iff.mp hs
    obtain rfl := List.mem_singleton.mp ht
    obtain ⟨rfl, -⟩ := List.cons.inj (Config.mk.inj hc).2
    exact absurd hx (by decide)

end MplsReach.Pda
