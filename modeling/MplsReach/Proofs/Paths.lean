/-
Paths of nondeterministic automata.

* `Nfa.Path.trans`: paths one behind the other read one word behind the other.
* `Nfa.Path.edge`: an edge is a path.
* `Nfa.Arrives`: paths on which nothing is done silently behind the last symbol.
* `Nfa.Path.map`: an automaton with all edges of another one reads its words, renamed.
* `Nfa.accepts_mapSymbols`: over other symbols, an automaton accepts the images of its words.
-/
import Mathlib.Tactic.Common
import MplsReach.Automaton.Nfa

namespace MplsReach.Nfa

variable {Loc Sym : Type} {a : Nfa Loc Sym}

lemma Path.trans {p q r : Loc} {u v : List Sym} (h : a.Path p u q) (h' : a.Path q v r) :
    a.Path p (u ++ v) r := by
  induction h with
  | refl => exact h'
  | silent he _ ih => exact .silent he (ih h')
  | read he _ ih => exact .read he (ih h')

/-- An edge is a path that reads its symbol, or nothing. -/
lemma Path.edge {e : Edge Loc Sym} (h : e ∈ a.edges) :
    a.Path e.source e.symbol.toList e.target := by
  obtain ⟨p, s, q⟩ := e
  cases s with
  | none => exact .silent h (.refl q)
  | some s => exact .read h (.refl q)

/-- Only symbols of edges are read. -/
lemma Path.forall_mem {P : Sym → Prop} (hP : ∀ e ∈ a.edges, ∀ s, e.symbol = some s → P s)
    {p q : Loc} {w : List Sym} (h : a.Path p w q) : ∀ s ∈ w, P s := by
  induction h with
  | refl => exact fun _ hs => absurd hs List.not_mem_nil
  | silent _ _ ih => exact ih
  | read he _ ih => exact List.forall_mem_cons.mpr ⟨hP _ he _ rfl, ih⟩

/-- A word is read on a path that ends with its last symbol: nothing is done silently behind it, or
at all if nothing is read. -/
def Arrives (a : Nfa Loc Sym) (p : Loc) (w : List Sym) (r : Loc) : Prop :=
  (w = [] ∧ p = r) ∨ ∃ v s q, w = v ++ [s] ∧ a.Path p v q ∧ ⟨q, some s, r⟩ ∈ a.edges

lemma Arrives.path {p r : Loc} {w : List Sym} (h : a.Arrives p w r) : a.Path p w r := by
  obtain ⟨rfl, rfl⟩ | ⟨v, s, q, rfl, hv, he⟩ := h
  · exact .refl p
  · exact hv.trans (.read he (.refl r))

section MapSymbols

variable {Sym' : Type} {f : Sym → Sym'}

/-- Words are carried over to an automaton that has each edge, reading a renamed symbol. -/
lemma Path.map {b : Nfa Loc Sym'}
    (hedges : ∀ e ∈ a.edges, ⟨e.source, e.symbol.map f, e.target⟩ ∈ b.edges) {p q : Loc}
    {w : List Sym} (h : a.Path p w q) : b.Path p (w.map f) q := by
  induction h with
  | refl q => exact .refl q
  | silent he _ ih => exact .silent (hedges _ he) ih
  | read he _ ih => exact .read (hedges _ he) ih

lemma mem_edges_mapSymbols {p q : Loc} {s : Option Sym'} :
    ⟨p, s, q⟩ ∈ (a.mapSymbols f).edges ↔ ∃ t, t.map f = s ∧ ⟨p, t, q⟩ ∈ a.edges := by
  simp only [mapSymbols, List.mem_map]
  constructor
  · rintro ⟨⟨p', t, q'⟩, he, heq⟩
    obtain ⟨rfl, rfl, rfl⟩ := Edge.mk.injEq .. ▸ heq
    exact ⟨t, rfl, he⟩
  · rintro ⟨t, rfl, he⟩
    exact ⟨⟨p, t, q⟩, he, rfl⟩

lemma path_mapSymbols {p q : Loc} {w : List Sym'} :
    (a.mapSymbols f).Path p w q ↔ ∃ v, v.map f = w ∧ a.Path p v q := by
  constructor
  · intro h
    induction h with
    | refl q => exact ⟨[], rfl, .refl q⟩
    | silent he _ ih =>
        obtain ⟨v, rfl, hv⟩ := ih
        obtain ⟨t, ht, he'⟩ := mem_edges_mapSymbols.mp he
        rw [Option.map_eq_none_iff] at ht
        exact ⟨v, rfl, .silent (ht ▸ he') hv⟩
    | read he _ ih =>
        obtain ⟨v, rfl, hv⟩ := ih
        obtain ⟨t, ht, he'⟩ := mem_edges_mapSymbols.mp he
        obtain ⟨s, rfl, rfl⟩ := Option.map_eq_some_iff.mp ht
        exact ⟨s :: v, rfl, .read he' hv⟩
  · rintro ⟨v, rfl, h⟩
    exact h.map fun e he => mem_edges_mapSymbols.mpr ⟨e.symbol, rfl, he⟩

lemma arrives_mapSymbols {p r : Loc} {w : List Sym'} :
    (a.mapSymbols f).Arrives p w r ↔ ∃ v, v.map f = w ∧ a.Arrives p v r := by
  constructor
  · rintro (⟨rfl, rfl⟩ | ⟨w, s, q, rfl, hw, he⟩)
    · exact ⟨[], rfl, .inl ⟨rfl, rfl⟩⟩
    · obtain ⟨v, rfl, hv⟩ := path_mapSymbols.mp hw
      obtain ⟨t, ht, he'⟩ := mem_edges_mapSymbols.mp he
      obtain ⟨s, rfl, rfl⟩ := Option.map_eq_some_iff.mp ht
      exact ⟨v ++ [s], by simp, .inr ⟨v, s, q, rfl, hv, he'⟩⟩
  · rintro ⟨_, rfl, ⟨rfl, rfl⟩ | ⟨v, s, q, rfl, hv, he⟩⟩
    · exact .inl ⟨rfl, rfl⟩
    · exact .inr ⟨v.map f, f s, q, by simp, path_mapSymbols.mpr ⟨v, rfl, hv⟩,
        mem_edges_mapSymbols.mpr ⟨some s, rfl, he⟩⟩

/-- Over other symbols, an automaton accepts the images of its words. -/
lemma accepts_mapSymbols {w : List Sym'} :
    (a.mapSymbols f).Accepts w ↔ ∃ v, v.map f = w ∧ a.Accepts v :=
  path_mapSymbols

lemma exists_accepts_mapSymbols_iff {P : List Sym' → Prop} :
    (∃ w, (a.mapSymbols f).Accepts w ∧ P w) ↔ ∃ v, a.Accepts v ∧ P (v.map f) := by
  constructor
  · rintro ⟨w, hw, hP⟩
    obtain ⟨v, rfl, hv⟩ := accepts_mapSymbols.mp hw
    exact ⟨v, hv, hP⟩
  · rintro ⟨v, hv, hP⟩
    exact ⟨v.map f, accepts_mapSymbols.mpr ⟨v, rfl, hv⟩, hP⟩

end MapSymbols

end MplsReach.Nfa
