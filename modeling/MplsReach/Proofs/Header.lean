/-
Building and removing headers.

* `builder_reaches_finish_iff`: from the bottom of the stack alone, the builder of an automaton ends
  with the words of the automaton on the stack, their first symbol lowest.
* `plainBuilder_reaches_iff`: the plain builder puts them on what is there.
* `remover_reaches_of_path`, `remover_path_of_reaches`: the remover of an automaton takes the words
  read on its paths off the stack.
* `remover_reaches_iff`, `remover_mapSymbols_iff`: the same, with what happens when nothing is left
  on the stack.
-/
import MplsReach.Proofs.Paths
import MplsReach.Proofs.Runs
import MplsReach.Pushdown.Header

namespace MplsReach.Nfa

variable {ν : Type} {a : Nfa ν StackSymbol}

/-! ### Edges as transitions -/

/-- The transition of a builder for an edge. -/
def buildStep (e : Edge ν StackSymbol) : Transition (Built ν) StackSymbol :=
  match e.symbol with
  | some s => .plain (.at e.source) (.at e.target) (.on .marker) (.pushReplace .marker s)
  | none => .plain (.at e.source) (.at e.target) .any .noop

/-- The transition of a plain builder for an edge. -/
def plainBuildStep (e : Edge ν StackSymbol) : Transition ν StackSymbol :=
  match e.symbol with
  | some s => .plain e.source e.target .any (.push s)
  | none => .plain e.source e.target .any .noop

/-- The transition of a remover for an edge. -/
def removeStep (e : Edge ν StackSymbol) : Transition ν StackSymbol :=
  match e.symbol with
  | some s => .plain e.source e.target (.on s) .pop
  | none => .plain e.source e.target .any .noop

@[simp]
lemma source_removeStep (e : Edge ν StackSymbol) : (removeStep e).source = e.source := by
  unfold removeStep
  split <;> rfl

@[simp]
lemma target_removeStep (e : Edge ν StackSymbol) : (removeStep e).target = e.target := by
  unfold removeStep
  split <;> rfl

@[simp]
lemma source_plainBuildStep (e : Edge ν StackSymbol) : (plainBuildStep e).source = e.source := by
  unfold plainBuildStep
  split <;> rfl

@[simp]
lemma target_plainBuildStep (e : Edge ν StackSymbol) : (plainBuildStep e).target = e.target := by
  unfold plainBuildStep
  split <;> rfl

@[simp]
lemma source_buildStep (e : Edge ν StackSymbol) : (buildStep e).source = .at e.source := by
  unfold buildStep
  split <;> rfl

@[simp]
lemma target_buildStep (e : Edge ν StackSymbol) : (buildStep e).target = .at e.target := by
  unfold buildStep
  split <;> rfl

/-! ### The builder -/

variable [DecidableEq ν]

lemma mem_transitions_builder {t : Transition (Built ν) StackSymbol} :
    t ∈ a.builder.transitions ↔ (∃ e ∈ a.edges, buildStep e = t) ∨
      t = .plain .start (.at a.initial) (.on .bottom) (.push .marker) ∨
      t = .plain (.at a.final) .finish (.on .marker) .pop := by
  simp only [builder, Pda.ofTransitions, List.mem_append, List.mem_map, List.mem_cons,
    List.not_mem_nil, or_false]
  rfl

lemma plain_builder : a.builder.Plain := by
  intro t ht as
  rcases mem_transitions_builder.mp ht with ⟨e, -, rfl⟩ | rfl | rfl
  · unfold buildStep
    split <;> simp [Transition.plain]
  · simp [Transition.plain]
  · simp [Transition.plain]

/-- Along a path, its word is put below the marker. -/
lemma builder_reaches_of_path {q r : ν} {w : List StackSymbol} (h : a.Path q w r)
    (below : List StackSymbol) :
    a.builder.Reaches ⟨.at q, .marker :: below⟩ ⟨.at r, .marker :: (w.reverse ++ below)⟩ := by
  induction h generalizing below with
  | refl => exact .refl _
  | @silent p q r w he _ ih =>
      have hstep : a.builder.Step ⟨.at p, .marker :: below⟩ ⟨.at q, .marker :: below⟩ :=
        Pda.step_of_mem (mem_transitions_builder.mpr (.inl ⟨_, he, rfl⟩)) rfl below
      exact .head hstep (ih below)
  | @read p q r s w he _ ih =>
      have hstep : a.builder.Step ⟨.at p, .marker :: below⟩ ⟨.at q, .marker :: s :: below⟩ :=
        Pda.step_of_mem (mem_transitions_builder.mpr (.inl ⟨_, he, rfl⟩)) rfl below
      have hrest := ih (s :: below)
      rw [List.reverse_cons, List.append_assoc]
      exact .head hstep hrest

/-- What a builder can be in the middle of: below the marker stands the word of a path. -/
def Building (a : Nfa ν StackSymbol) : Config (Built ν) StackSymbol → Prop
  | ⟨.start, u⟩ => u = [.bottom]
  | ⟨.at q, u⟩ => ∃ w, a.Path a.initial w q ∧ u = .marker :: (w.reverse ++ [.bottom])
  | ⟨.finish, u⟩ => ∃ w, a.Accepts w ∧ u = w.reverse ++ [.bottom]

/-- Every step of a builder puts one more symbol of a path below the marker. -/
lemma Building.step {c d : Config (Built ν) StackSymbol} (hc : Building a c)
    (h : a.builder.Step c d) : Building a d := by
  obtain ⟨t, ht, x, v, -, rfl, rfl⟩ := Pda.step_iff.mp h
  rcases mem_transitions_builder.mp ht with ⟨⟨p, s, q⟩, he, rfl⟩ | rfl | rfl
  · cases s with
    | none =>
        obtain ⟨w, hw, hstack⟩ := hc
        have hpath := hw.trans (Path.edge he)
        rw [Option.toList_none, List.append_nil] at hpath
        exact ⟨w, hpath, hstack⟩
    | some s =>
        obtain ⟨w, hw, hstack⟩ := hc
        rw [List.cons.injEq] at hstack
        refine ⟨w ++ [s], hw.trans (Path.edge he), ?_⟩
        simp [buildStep, Transition.plain, Op.apply, hstack.2]
  · -- the marker comes on top of the bottom, before anything is read
    refine ⟨[], .refl a.initial, ?_⟩
    have hstack : x :: v = [.bottom] := hc
    simp [Transition.plain, Op.apply, hstack]
  · obtain ⟨w, hw, hstack⟩ := hc
    rw [List.cons.injEq] at hstack
    exact ⟨w, hw, hstack.2⟩

lemma building_of_reaches {c : Config (Built ν) StackSymbol}
    (h : a.builder.Reaches ⟨.start, [.bottom]⟩ c) : Building a c := by
  induction h with
  | refl => exact rfl
  | tail _ hstep ih => exact ih.step hstep

/-- **What a builder builds**: the words of the automaton, with their first symbol lowest. -/
lemma builder_reaches_finish_iff {u : List StackSymbol} :
    a.builder.Reaches ⟨.start, [.bottom]⟩ ⟨.finish, u⟩ ↔
      ∃ w, a.Accepts w ∧ u = w.reverse ++ [.bottom] := by
  constructor
  · exact fun h => building_of_reaches h
  · rintro ⟨w, hw, rfl⟩
    have hfirst : a.builder.Step ⟨.start, [.bottom]⟩ ⟨.at a.initial, [.marker, .bottom]⟩ :=
      Pda.step_of_mem (mem_transitions_builder.mpr (.inr (.inl rfl))) rfl []
    have hlast : a.builder.Step ⟨.at a.final, .marker :: (w.reverse ++ [.bottom])⟩
        ⟨.finish, w.reverse ++ [.bottom]⟩ :=
      Pda.step_of_mem (mem_transitions_builder.mpr (.inr (.inr rfl))) rfl _
    exact (Pda.Reaches.head hfirst (builder_reaches_of_path hw [.bottom])).tail hlast

/-! ### The plain builder -/

lemma mem_transitions_plainBuilder {t : Transition ν StackSymbol} :
    t ∈ a.plainBuilder.transitions ↔ ∃ e ∈ a.edges, plainBuildStep e = t := by
  simp only [plainBuilder, Pda.ofTransitions, List.mem_map]
  rfl

/-- Along a path, its word is put on the stack, if there is something to put it on. -/
lemma plainBuilder_reaches_of_path {q r : ν} {w u : List StackSymbol} (h : a.Path q w r)
    (hu : u ≠ []) : a.plainBuilder.Reaches ⟨q, u⟩ ⟨r, w.reverse ++ u⟩ := by
  induction h generalizing u with
  | refl => exact .refl _
  | @silent p q r w he _ ih =>
      obtain ⟨x, v, rfl⟩ := List.exists_cons_of_ne_nil hu
      have hstep : a.plainBuilder.Step ⟨p, x :: v⟩ ⟨q, x :: v⟩ :=
        Pda.step_of_mem (mem_transitions_plainBuilder.mpr ⟨_, he, rfl⟩) rfl v
      exact .head hstep (ih hu)
  | @read p q r s w he _ ih =>
      obtain ⟨x, v, rfl⟩ := List.exists_cons_of_ne_nil hu
      have hstep : a.plainBuilder.Step ⟨p, x :: v⟩ ⟨q, s :: x :: v⟩ :=
        Pda.step_of_mem (mem_transitions_plainBuilder.mpr ⟨_, he, rfl⟩) rfl v
      rw [List.reverse_cons, List.append_assoc]
      exact .head hstep (ih (List.cons_ne_nil s _))

/-- Whatever a plain builder does, it puts the word of a path on the stack. -/
lemma plainBuilder_path_of_reaches {c d : Config ν StackSymbol} (h : a.plainBuilder.Reaches c d) :
    ∃ w, a.Path c.location w d.location ∧ d.stack = w.reverse ++ c.stack := by
  induction h with
  | refl => exact ⟨[], .refl _, rfl⟩
  | tail _ hstep ih =>
      obtain ⟨w, hpath, hstack⟩ := ih
      obtain ⟨t, ht, x, v, -, rfl, rfl⟩ := Pda.step_iff.mp hstep
      obtain ⟨⟨p, s, q⟩, he, rfl⟩ := mem_transitions_plainBuilder.mp ht
      rw [source_plainBuildStep] at hpath
      rw [target_plainBuildStep]
      refine ⟨w ++ s.toList, hpath.trans (Path.edge he), ?_⟩
      rw [List.reverse_append, List.append_assoc, ← hstack]
      cases s <;> simp [plainBuildStep, Transition.plain, Op.apply]

/-- **What a plain builder builds**: on what there is, the words of the automaton, with their first
symbol lowest. -/
lemma plainBuilder_reaches_iff {q r : ν} {u v : List StackSymbol} (hu : u ≠ []) :
    a.plainBuilder.Reaches ⟨q, u⟩ ⟨r, v⟩ ↔ ∃ w, a.Path q w r ∧ v = w.reverse ++ u := by
  constructor
  · exact fun h => plainBuilder_path_of_reaches h
  · rintro ⟨w, hw, rfl⟩
    exact plainBuilder_reaches_of_path hw hu

/-! ### The remover -/

lemma mem_transitions_remover {t : Transition ν StackSymbol} :
    t ∈ a.remover.transitions ↔ ∃ e ∈ a.edges, removeStep e = t := by
  simp only [remover, Pda.ofTransitions, List.mem_map]
  rfl

lemma plain_remover : a.remover.Plain := by
  intro t ht as
  obtain ⟨e, -, rfl⟩ := mem_transitions_remover.mp ht
  unfold removeStep
  split <;> simp [Transition.plain]

/-- Along a path, its word is taken off the stack, if something is left below it. -/
lemma remover_reaches_of_path {q r : ν} {w u : List StackSymbol} (h : a.Path q w r)
    (hu : u ≠ []) : a.remover.Reaches ⟨q, w ++ u⟩ ⟨r, u⟩ := by
  induction h with
  | refl => exact .refl _
  | @silent p q r w he _ ih =>
      obtain ⟨x, v, hv⟩ := List.exists_cons_of_ne_nil (List.append_ne_nil_of_right_ne_nil w hu)
      have hstep : a.remover.Step ⟨p, x :: v⟩ ⟨q, x :: v⟩ :=
        Pda.step_of_mem (mem_transitions_remover.mpr ⟨_, he, rfl⟩) rfl v
      rw [hv] at ih ⊢
      exact .head hstep ih
  | @read p q r s w he _ ih =>
      have hstep : a.remover.Step ⟨p, s :: (w ++ u)⟩ ⟨q, w ++ u⟩ :=
        Pda.step_of_mem (mem_transitions_remover.mpr ⟨_, he, rfl⟩) (by simp [removeStep,
          Transition.plain, Input.admits]) (w ++ u)
      exact .head hstep ih

/-- Whatever a remover does, it takes the word of a path off the stack. -/
lemma remover_path_of_reaches {c d : Config ν StackSymbol} (h : a.remover.Reaches c d) :
    ∃ w, a.Path c.location w d.location ∧ c.stack = w ++ d.stack := by
  induction h with
  | refl => exact ⟨[], .refl _, rfl⟩
  | tail _ hstep ih =>
      obtain ⟨w, hpath, hstack⟩ := ih
      obtain ⟨t, ht, x, v, hx, rfl, rfl⟩ := Pda.step_iff.mp hstep
      obtain ⟨⟨p, s, q⟩, he, rfl⟩ := mem_transitions_remover.mp ht
      rw [source_removeStep] at hpath
      rw [target_removeStep]
      refine ⟨w ++ s.toList, hpath.trans (Path.edge he), ?_⟩
      rw [hstack]
      cases s with
      | none => simp [removeStep, Transition.plain, Op.apply]
      | some s =>
          simp only [removeStep, Transition.plain, Input.admits, decide_eq_true_eq] at hx
          simp [removeStep, Transition.plain, Op.apply, hx]

/-- The stack is emptied by the last symbol of the word. -/
lemma remover_arrives_of_reaches {q r : ν} {v : List StackSymbol}
    (h : a.remover.Reaches ⟨q, v⟩ ⟨r, []⟩) : a.Arrives q v r := by
  rcases (Pda.reaches_iff.mp h).cases_tail with heq | ⟨c, hrest, hstep⟩
  · obtain ⟨rfl, rfl⟩ := Config.mk.inj heq
    exact .inl ⟨rfl, rfl⟩
  · obtain ⟨w, hpath, hv⟩ := remover_path_of_reaches (Pda.reaches_iff.mpr hrest)
    obtain ⟨t, ht, x, u, hx, rfl, hd⟩ := Pda.step_iff.mp hstep
    obtain ⟨⟨p, s, p'⟩, he, rfl⟩ := mem_transitions_remover.mp ht
    obtain ⟨hr, hstack⟩ := Config.mk.inj hd
    rw [source_removeStep] at hpath
    rw [target_removeStep] at hr
    cases s with
    | none => simp [removeStep, Transition.plain, Op.apply] at hstack
    | some s =>
        simp only [removeStep, Transition.plain, Input.admits, decide_eq_true_eq] at hx
        obtain rfl : u = [] := by simpa [removeStep, Transition.plain, Op.apply] using hstack
        subst hr hx
        exact .inr ⟨w, s, p, hv, hpath, he⟩

lemma remover_reaches_of_arrives {q r : ν} {v : List StackSymbol} (h : a.Arrives q v r) :
    a.remover.Reaches ⟨q, v⟩ ⟨r, []⟩ := by
  obtain ⟨rfl, rfl⟩ | ⟨w, s, p, rfl, hpath, he⟩ := h
  · exact .refl _
  · have hstep : a.remover.Step ⟨p, [s]⟩ ⟨r, []⟩ :=
      Pda.step_of_mem (mem_transitions_remover.mpr ⟨_, he, rfl⟩) (by simp [removeStep,
        Transition.plain, Input.admits]) []
    exact (remover_reaches_of_path hpath (List.cons_ne_nil s [])).tail hstep

/-- **What a remover removes**: the words of the automaton. Where nothing is left below a word, its
last symbol is read at the end. -/
lemma remover_reaches_iff {q r : ν} {v u : List StackSymbol} :
    a.remover.Reaches ⟨q, v⟩ ⟨r, u⟩ ↔
      ∃ w, a.Path q w r ∧ v = w ++ u ∧ (u = [] → a.Arrives q w r) := by
  by_cases hu : u = []
  · subst hu
    constructor
    · intro h
      have harrives := remover_arrives_of_reaches h
      exact ⟨v, harrives.path, (List.append_nil v).symm, fun _ => harrives⟩
    · rintro ⟨w, -, rfl, harrives⟩
      rw [List.append_nil]
      exact remover_reaches_of_arrives (harrives rfl)
  · constructor
    · intro h
      obtain ⟨w, hpath, hv⟩ := remover_path_of_reaches h
      exact ⟨w, hpath, hv, fun h => absurd h hu⟩
    · rintro ⟨w, hpath, rfl, -⟩
      exact remover_reaches_of_path hpath hu

/-- The remover of an automaton over other symbols takes the images of its words off the stack. -/
lemma remover_mapSymbols_iff {Sym : Type} {a : Nfa ν Sym} {read : Sym → StackSymbol}
    {v u : List StackSymbol} :
    (a.mapSymbols read).remover.Reaches ⟨a.initial, v⟩ ⟨a.final, u⟩ ↔
      ∃ w, a.Accepts w ∧ v = w.map read ++ u ∧ (u = [] → a.Arrives a.initial w a.final) := by
  refine remover_reaches_iff.trans ⟨?_, ?_⟩
  · rintro ⟨w, hpath, rfl, harrives⟩
    by_cases hu : u = []
    · -- the word is the one that arrives: others may have the same image
      obtain ⟨w, rfl, hw⟩ := arrives_mapSymbols.mp (harrives hu)
      exact ⟨w, hw.path, rfl, fun _ => hw⟩
    · obtain ⟨w, rfl, hw⟩ := path_mapSymbols.mp hpath
      exact ⟨w, hw, rfl, fun h => absurd h hu⟩
  · rintro ⟨w, hw, rfl, harrives⟩
    exact ⟨w.map read, path_mapSymbols.mpr ⟨w, rfl, hw⟩, rfl,
      fun hu => arrives_mapSymbols.mpr ⟨w, rfl, harrives hu⟩⟩

end MplsReach.Nfa
