/-
Headers over named locations.

The automata that build and remove headers have the names of locations for locations, and a builder
has two more. Where the names are different they do what they do over the locations themselves.

* `Pda.Yields`: from one stack to another, between the ends of an automaton.
* `Pda.Within`: an automaton all of whose locations belong to a set.
* `Pda.yields_mapLocations_iff`: names that are different in such a set change nothing.
* `Nfa.Named`: an automaton whose locations have different names, none of them added by builders.
* `Nfa.named_headers_iff`: **the builders and the remover of a named automaton**.
* `Draft.header_unconverted`: an automaton that reads a text has none of them, and without a stack
  nothing is done silently.
-/
import Mathlib.Data.Set.Function
import MplsReach.Automaton.Draft
import MplsReach.Proofs.Header
import MplsReach.Proofs.Renaming

namespace MplsReach

/-! ### Renamed locations -/

namespace Pda

variable {Loc Loc' Sym : Type} [DecidableEq Sym] {p : Pda Loc Sym} {S : Set Loc} {f : Loc → Loc'}

/-- Between the ends of the automaton, the one stack is turned into the other. -/
def Yields (p : Pda Loc Sym) (u v : List Sym) : Prop := p.Reaches ⟨p.initial, u⟩ ⟨p.final, v⟩

/-- The ends of the automaton and of its transitions belong to a set. -/
structure Within (p : Pda Loc Sym) (S : Set Loc) : Prop where
  initial_mem : p.initial ∈ S
  final_mem : p.final ∈ S
  source_mem : ∀ t ∈ p.transitions, t.source ∈ S
  target_mem : ∀ t ∈ p.transitions, t.target ∈ S

variable [DecidableEq Loc']

/-- Where different locations have different names, a run over the names is one over the
locations. -/
lemma Within.reaches_of_mapLocations (hp : p.Within S) (hf : Set.InjOn f S) {l : Loc} (hl : l ∈ S)
    {u : List Sym} {d : Config Loc' Sym} (h : (p.mapLocations f).Reaches ⟨f l, u⟩ d) :
    ∃ m ∈ S, d.location = f m ∧ p.Reaches ⟨l, u⟩ ⟨m, d.stack⟩ := by
  generalize hc : (⟨f l, u⟩ : Config Loc' Sym) = c at h
  induction h with
  | refl =>
      subst hc
      exact ⟨l, hl, rfl, .refl _⟩
  | tail _ hstep ih =>
      obtain ⟨m, hm, hloc, hreaches⟩ := ih
      obtain ⟨_, ht', x, w, hx, rfl, rfl⟩ := step_iff.mp hstep
      obtain ⟨t, ht, rfl⟩ := List.mem_map.mp ht'
      obtain rfl : t.source = m := hf (hp.source_mem t ht) hm hloc
      exact ⟨t.target, hp.target_mem t ht, rfl, hreaches.tail (step_of_mem ht hx w)⟩

/-- **Different names change nothing** between the ends of an automaton. -/
lemma Within.yields_mapLocations_iff (hp : p.Within S) (hf : Set.InjOn f S) {u v : List Sym} :
    (p.mapLocations f).Yields u v ↔ p.Yields u v := by
  constructor
  · intro h
    obtain ⟨m, hm, hloc, hreaches⟩ := hp.reaches_of_mapLocations hf hp.initial_mem h
    rwa [← hf hp.final_mem hm hloc] at hreaches
  · exact Embeds.reaches fun t ht => List.mem_map_of_mem ht

end Pda

/-! ### Named automata -/

namespace Nfa

variable {ν Sym : Type} {name : ν → String}

/-- The locations of an automaton, which its edges join and its ends are among, have different
names; a builder adds none of them. -/
structure Named (a : Nfa ν Sym) (name : ν → String) : Prop where
  initial_mem : a.initial ∈ a.locations
  final_mem : a.final ∈ a.locations
  source_mem : ∀ e ∈ a.edges, e.source ∈ a.locations
  target_mem : ∀ e ∈ a.edges, e.target ∈ a.locations
  injOn : Set.InjOn name {q | q ∈ a.locations}
  ne_start : ∀ q ∈ a.locations, name q ≠ Built.named name .start
  ne_finish : ∀ q ∈ a.locations, name q ≠ Built.named name .finish

lemma Named.mapSymbols {a : Nfa ν Sym} (h : a.Named name) {Sym' : Type} (f : Sym → Sym') :
    (a.mapSymbols f).Named name where
  initial_mem := h.initial_mem
  final_mem := h.final_mem
  source_mem e he := by
    obtain ⟨e', he', rfl⟩ := List.mem_map.mp he
    exact h.source_mem e' he'
  target_mem e he := by
    obtain ⟨e', he', rfl⟩ := List.mem_map.mp he
    exact h.target_mem e' he'
  injOn := h.injOn
  ne_start := h.ne_start
  ne_finish := h.ne_finish

/-- The locations of a builder of the automaton. -/
def builtLocations (a : Nfa ν Sym) : Set (Built ν) := {b | ∀ q, b = .at q → q ∈ a.locations}

lemma Named.injOn_builtLocations {a : Nfa ν Sym} (h : a.Named name) :
    Set.InjOn (Built.named name) a.builtLocations := by
  intro b hb c hc heq
  -- the two new names differ from each other and from all others
  cases b with
  | start =>
      cases c with
      | start => rfl
      | finish => exact absurd heq (by simp [Built.named])
      | «at» r => exact absurd heq.symm (h.ne_start r (hc r rfl))
  | finish =>
      cases c with
      | start => exact absurd heq (by simp [Built.named])
      | finish => rfl
      | «at» r => exact absurd heq.symm (h.ne_finish r (hc r rfl))
  | «at» q =>
      cases c with
      | start => exact absurd heq (h.ne_start q (hb q rfl))
      | finish => exact absurd heq (h.ne_finish q (hb q rfl))
      | «at» r => rw [h.injOn (hb q rfl) (hc r rfl) heq]

/-- Transitions that go along edges, between the same ends, stay among the locations. -/
lemma Named.within_of_edges {a : Nfa ν Sym} (h : a.Named name) {p : Pda ν StackSymbol}
    (hinitial : p.initial = a.initial) (hfinal : p.final = a.final)
    (hedges : ∀ t ∈ p.transitions, ∃ e ∈ a.edges, t.source = e.source ∧ t.target = e.target) :
    p.Within {q | q ∈ a.locations} where
  initial_mem := hinitial ▸ h.initial_mem
  final_mem := hfinal ▸ h.final_mem
  source_mem t ht := by
    obtain ⟨e, he, hsource, -⟩ := hedges t ht
    rw [hsource]
    exact h.source_mem e he
  target_mem t ht := by
    obtain ⟨e, he, -, htarget⟩ := hedges t ht
    rw [htarget]
    exact h.target_mem e he

variable [DecidableEq ν] {a : Nfa ν StackSymbol}

lemma Named.within_builder (h : a.Named name) : a.builder.Within a.builtLocations where
  initial_mem _ hq := by cases hq
  final_mem _ hq := by cases hq
  source_mem t ht q hq := by
    rcases mem_transitions_builder.mp ht with ⟨e, he, rfl⟩ | rfl | rfl
    · obtain rfl := Built.at.inj ((source_buildStep e).symm.trans hq)
      exact h.source_mem e he
    · cases hq
    · obtain rfl := Built.at.inj hq
      exact h.final_mem
  target_mem t ht q hq := by
    rcases mem_transitions_builder.mp ht with ⟨e, he, rfl⟩ | rfl | rfl
    · obtain rfl := Built.at.inj ((target_buildStep e).symm.trans hq)
      exact h.target_mem e he
    · obtain rfl := Built.at.inj hq
      exact h.initial_mem
    · cases hq

lemma Named.within_plainBuilder (h : a.Named name) :
    a.plainBuilder.Within {q | q ∈ a.locations} := by
  refine h.within_of_edges rfl rfl fun t ht => ?_
  obtain ⟨e, he, rfl⟩ := mem_transitions_plainBuilder.mp ht
  exact ⟨e, he, source_plainBuildStep e, target_plainBuildStep e⟩

lemma Named.within_remover (h : a.Named name) : a.remover.Within {q | q ∈ a.locations} := by
  refine h.within_of_edges rfl rfl fun t ht => ?_
  obtain ⟨e, he, rfl⟩ := mem_transitions_remover.mp ht
  exact ⟨e, he, source_removeStep e, target_removeStep e⟩

/-! ### What is built and removed -/

/-- **The builders and the remover of a named automaton.** From the bottom of the stack, both
builders end with exactly the words of the automaton, their first symbol lowest. The remover takes
exactly the words of the automaton off the stack; where nothing is left below a word, its last
symbol has to be read at the end. -/
theorem named_headers_iff (a : Nfa ν Sym) (read : Sym → StackSymbol) (h : a.Named name)
    (u v : List StackSymbol) :
    (((a.mapSymbols read).builder.mapLocations (Built.named name)).Yields [.bottom] u ↔
      ∃ w, a.Accepts w ∧ u = (w.map read).reverse ++ [.bottom]) ∧
    (((a.mapSymbols read).plainBuilder.mapLocations name).Yields [.bottom] u ↔
      ∃ w, a.Accepts w ∧ u = (w.map read).reverse ++ [.bottom]) ∧
    (((a.mapSymbols read).remover.mapLocations name).Yields v u ↔
      ∃ w, a.Accepts w ∧ v = w.map read ++ u ∧ (u = [] → a.Arrives a.initial w a.final)) := by
  have hread := h.mapSymbols read
  rw [hread.within_builder.yields_mapLocations_iff hread.injOn_builtLocations,
    hread.within_plainBuilder.yields_mapLocations_iff hread.injOn,
    hread.within_remover.yields_mapLocations_iff hread.injOn]
  refine ⟨builder_reaches_finish_iff.trans exists_accepts_mapSymbols_iff,
    (plainBuilder_reaches_iff (List.cons_ne_nil _ _)).trans exists_accepts_mapSymbols_iff, ?_⟩
  exact remover_mapSymbols_iff

end Nfa

/-! ### Drafts -/

namespace Draft

/-- One `a` or more, with silent edges back and to the end. -/
def looping : Draft :=
  ⟨["s", "m", "f"], [⟨0, some (.symbol "a"), 1⟩, ⟨1, none, 0⟩, ⟨1, none, 2⟩], [0, 1, 2], [0, 1, 2],
    ["a"], some 0, some 2⟩

/-- The same as an automaton over texts. -/
def loopingNfa : Nfa ℕ String :=
  ⟨[0, 1, 2], [⟨0, some "a", 1⟩, ⟨1, none, 0⟩, ⟨1, none, 2⟩], ["a"], 0, 2⟩

lemma named_looping : loopingNfa.Named looping.name where
  initial_mem := by decide
  final_mem := by decide
  source_mem := by decide
  target_mem := by decide
  injOn := by
    have h : ∀ q ∈ [0, 1, 2], ∀ r ∈ [0, 1, 2], looping.name q = looping.name r → q = r := by decide
    exact fun q hq r hr heq => h q hq r hr heq
  ne_start := by decide
  ne_finish := by decide

/-- The header `a a` is built by either builder and taken off by the remover. -/
theorem named_headers_looping : looping.header = .ok (loopingNfa.mapSymbols .label) ∧
    ((loopingNfa.mapSymbols .label).builder.mapLocations (Built.named looping.name)).Yields
      [.bottom] [.label "a", .label "a", .bottom] ∧
    ((loopingNfa.mapSymbols .label).plainBuilder.mapLocations looping.name).Yields
      [.bottom] [.label "a", .label "a", .bottom] ∧
    ((loopingNfa.mapSymbols .label).remover.mapLocations looping.name).Yields
      [.label "a", .label "a", .bottom] [.bottom] := by
  have haccepts : loopingNfa.Accepts ["a", "a"] :=
    .read (q := 1) (by decide) (.silent (q := 0) (by decide) (.read (q := 1) (by decide)
      (.silent (q := 2) (by decide) (.refl 2))))
  obtain ⟨hbuild, hplain, -⟩ := Nfa.named_headers_iff loopingNfa .label named_looping
    [.label "a", .label "a", .bottom] []
  obtain ⟨-, -, hremove⟩ := Nfa.named_headers_iff loopingNfa .label named_looping
    [.bottom] [.label "a", .label "a", .bottom]
  exact ⟨rfl, hbuild.mpr ⟨_, haccepts, rfl⟩, hplain.mpr ⟨_, haccepts, rfl⟩,
    hremove.mpr ⟨_, haccepts, rfl, fun h => absurd h (List.cons_ne_nil _ _)⟩⟩

/-- Reads the text `a`. -/
def textual : Draft :=
  ⟨["s", "f"], [⟨0, some (.text "a"), 1⟩], [0], [0], [], some 0, some 1⟩

/-- Reads nothing, on a silent edge. -/
def hushed : Draft := ⟨["s", "f"], [⟨0, none, 1⟩], [0], [0], [], some 0, some 1⟩

/-- An automaton that reads a text accepts it, but is not turned into builders and a remover. On an
empty stack the remover does not take the silent edge, although nothing has to be removed. -/
theorem header_unconverted :
    (textual.names.Nodup ∧ textual.names.all (· ∉ ["build_0", "build_1"]) ∧
      textual.accepts 0 1 "a" = .ok true ∧ textual.header = .error .missingPart) ∧
    ∃ a, hushed.header = .ok a ∧ a.Named hushed.name ∧ a.Accepts [] ∧
      ¬ (a.remover.mapLocations hushed.name).Yields [] [] := by
  refine ⟨⟨by decide, by decide, by cbv, rfl⟩, _, rfl, ?_, ?_, ?_⟩
  · have h : ∀ q ∈ List.range 2, ∀ r ∈ List.range 2, hushed.name q = hushed.name r → q = r := by
      decide
    exact ⟨by decide, by decide, by decide, by decide, fun q hq r hr heq => h q hq r hr heq,
      by decide, by decide⟩
  · exact .silent (q := 1) (by decide) (.refl 1)
  · intro h
    rcases (Pda.reaches_iff.mp h).cases_head with heq | ⟨c, hstep, -⟩
    · exact absurd heq (by decide)
    · obtain ⟨t, -, x, w, -, hc, -⟩ := Pda.step_iff.mp hstep
      exact absurd (Config.mk.inj hc).2 (List.cons_ne_nil x w).symm

end Draft

end MplsReach
