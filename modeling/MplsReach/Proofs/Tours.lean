/-
Tours that read words, leg by leg.

* `Tour`: legs one behind the other, each of which reads a word.
* `Tour.bind`: legs that are tours by other legs make a tour by those.
* `Tour.arrives`, `Tour.departs`: at a place that is never entered, or never left, a tour reads
  nothing.
* `tour_union_iff`: a tour by two kinds of legs is a tour between the places that both kinds share,
  whose legs are tours by one kind.
* `Nfa.path_iff_tour`: the paths of an automaton are tours along its edges.
-/
import Mathlib.Logic.Function.Basic
import Mathlib.Tactic.Common
import MplsReach.Proofs.Paths

namespace MplsReach

variable {ν κ Sym : Type}

/-- Legs one behind the other; the words that they read are joined. -/
inductive Tour (leg : ν → List Sym → ν → Prop) : ν → List Sym → ν → Prop where
  | refl (x : ν) : Tour leg x [] x
  | cons {x y z : ν} {u v : List Sym} : leg x u y → Tour leg y v z → Tour leg x (u ++ v) z

namespace Tour

variable {leg leg' : ν → List Sym → ν → Prop} {x y z : ν} {u v w : List Sym}

lemma single (h : leg x u y) : Tour leg x u y := by
  have := Tour.cons h (.refl y)
  rwa [List.append_nil] at this

lemma trans (h : Tour leg x u y) (h' : Tour leg y v z) : Tour leg x (u ++ v) z := by
  induction h with
  | refl => exact h'
  | cons hl _ ih =>
      rw [List.append_assoc]
      exact .cons hl (ih h')

/-- Legs that are tours by other legs make a tour by those. -/
lemma bind {f : κ → ν} {leg : κ → List Sym → κ → Prop} {i j : κ}
    (hl : ∀ i u j, leg i u j → Tour leg' (f i) u (f j)) (h : Tour leg i w j) :
    Tour leg' (f i) w (f j) := by
  induction h with
  | refl => exact .refl _
  | cons hleg _ ih => exact (hl _ _ _ hleg).trans ih

lemma mono (hl : ∀ x u y, leg x u y → leg' x u y) (h : Tour leg x w y) : Tour leg' x w y :=
  bind (f := id) (fun x u y hleg => single (hl x u y hleg)) h

lemma congr (hl : ∀ x u y, leg x u y ↔ leg' x u y) : Tour leg x w y ↔ Tour leg' x w y :=
  ⟨mono fun x u y => (hl x u y).mp, mono fun x u y => (hl x u y).mpr⟩

/-- Legs of a second kind may be taken one at a time. -/
lemma or_tour_iff : Tour (fun x u y => leg x u y ∨ Tour leg' x u y) x w y ↔
    Tour (fun x u y => leg x u y ∨ leg' x u y) x w y := by
  constructor
  · refine bind (f := id) fun i v j hleg => ?_
    rcases hleg with hleg | hleg
    · exact single (.inl hleg)
    · exact hleg.mono fun _ _ _ => .inr
  · exact mono fun i v j hleg => hleg.imp_right single

/-- A tour between places with other names, where every leg is a leg under those names. -/
lemma lift {f : κ → ν} (hf : Function.Injective f) {leg' : κ → List Sym → κ → Prop} {i j : κ}
    (hl : ∀ i u y, leg (f i) u y → ∃ k, f k = y ∧ leg' i u k) (h : Tour leg (f i) w (f j)) :
    Tour leg' i w j := by
  generalize hx : f i = x at h
  generalize hy : f j = y at h
  induction h generalizing i with
  | refl =>
      obtain rfl := hf (hx.trans hy.symm)
      exact .refl i
  | cons hleg _ ih =>
      subst hx
      obtain ⟨k, hk, hleg'⟩ := hl _ _ _ hleg
      exact .cons hleg' (ih hk hy)

/-- A place that only silent loops lead to is not arrived at from elsewhere. -/
lemma arrives (hl : ∀ x u, leg x u z → x = z ∧ u = []) (h : Tour leg x w z) : x = z ∧ w = [] := by
  induction h with
  | refl => exact ⟨rfl, rfl⟩
  | cons hleg _ ih =>
      obtain ⟨rfl, rfl⟩ := ih hl
      obtain ⟨rfl, rfl⟩ := hl _ _ hleg
      exact ⟨rfl, rfl⟩

/-- A place that only silent loops lead from is not left. -/
lemma departs (hl : ∀ u y, leg z u y → y = z ∧ u = []) (h : Tour leg z w y) : y = z ∧ w = [] := by
  generalize hz : z = x at h
  induction h with
  | refl => exact ⟨rfl, rfl⟩
  | cons hleg _ ih =>
      subst hz
      obtain ⟨rfl, rfl⟩ := hl _ _ hleg
      exact ih rfl

end Tour

/-! ### Two kinds of legs -/

section Union

variable {f : κ → ν} {l₁ l₂ : ν → List Sym → ν → Prop} {N₁ N₂ : ν → Prop}

/-- Tours by one of two kinds of legs, between shared places. -/
def SharedLeg (f : κ → ν) (l₁ l₂ : ν → List Sym → ν → Prop) (i : κ) (u : List Sym) (j : κ) : Prop :=
  Tour l₁ (f i) u (f j) ∨ Tour l₂ (f i) u (f j)

/-- A tour by both kinds of legs first comes to a shared place by legs of the kind that it starts
with. -/
lemma exists_shared_of_tour (h₁ : ∀ x u y, l₁ x u y → N₁ x ∧ N₁ y)
    (h₂ : ∀ x u y, l₂ x u y → N₂ x ∧ N₂ y) (hshared : ∀ x, N₁ x → N₂ x → ∃ k, f k = x)
    {x : ν} {w : List Sym} {j : κ} (h : Tour (fun x u y => l₁ x u y ∨ l₂ x u y) x w (f j)) :
    (N₁ x → ∃ k u v, w = u ++ v ∧ Tour l₁ x u (f k) ∧ Tour (SharedLeg f l₁ l₂) k v j) ∧
      (N₂ x → ∃ k u v, w = u ++ v ∧ Tour l₂ x u (f k) ∧ Tour (SharedLeg f l₁ l₂) k v j) := by
  generalize hy : f j = y at h
  induction h with
  | refl x =>
      subst hy
      exact ⟨fun _ => ⟨j, [], [], rfl, .refl _, .refl _⟩,
        fun _ => ⟨j, [], [], rfl, .refl _, .refl _⟩⟩
  | @cons x z y u v hleg _ ih =>
      obtain ⟨ih₁, ih₂⟩ := ih hy
      -- the next shared place is reached by the kind of the first leg; where the tour starts from a
      -- place of the other kind, that place is shared too
      rcases hleg with hleg | hleg
      · obtain ⟨k, u', v', rfl, hz, hrest⟩ := ih₁ (h₁ _ _ _ hleg).2
        refine ⟨fun _ => ⟨k, u ++ u', v', by simp, .cons hleg hz, hrest⟩, fun hx => ?_⟩
        obtain ⟨i, rfl⟩ := hshared x (h₁ _ _ _ hleg).1 hx
        have hfirst : SharedLeg f l₁ l₂ i (u ++ u') k := .inl (.cons hleg hz)
        exact ⟨i, [], u ++ (u' ++ v'), rfl, .refl _, List.append_assoc u u' v' ▸ .cons hfirst hrest⟩
      · obtain ⟨k, u', v', rfl, hz, hrest⟩ := ih₂ (h₂ _ _ _ hleg).2
        refine ⟨fun hx => ?_, fun _ => ⟨k, u ++ u', v', by simp, .cons hleg hz, hrest⟩⟩
        obtain ⟨i, rfl⟩ := hshared x hx (h₂ _ _ _ hleg).1
        have hfirst : SharedLeg f l₁ l₂ i (u ++ u') k := .inr (.cons hleg hz)
        exact ⟨i, [], u ++ (u' ++ v'), rfl, .refl _, List.append_assoc u u' v' ▸ .cons hfirst hrest⟩

/-- **Tours by two kinds of legs.** Between shared places, such a tour goes from shared place to
shared place, each time by legs of one kind. -/
lemma tour_union_iff (h₁ : ∀ x u y, l₁ x u y → N₁ x ∧ N₁ y)
    (h₂ : ∀ x u y, l₂ x u y → N₂ x ∧ N₂ y) (hshared : ∀ x, N₁ x → N₂ x → ∃ k, f k = x)
    {i j : κ} {w : List Sym} (hi : N₁ (f i) ∨ N₂ (f i)) :
    Tour (fun x u y => l₁ x u y ∨ l₂ x u y) (f i) w (f j) ↔ Tour (SharedLeg f l₁ l₂) i w j := by
  constructor
  · intro h
    obtain ⟨hfirst, hsecond⟩ := exists_shared_of_tour h₁ h₂ hshared h
    rcases hi with hi | hi
    · obtain ⟨k, u, v, rfl, hu, hv⟩ := hfirst hi
      exact .cons (.inl hu) hv
    · obtain ⟨k, u, v, rfl, hu, hv⟩ := hsecond hi
      exact .cons (.inr hu) hv
  · refine Tour.bind fun i u j hleg => ?_
    rcases hleg with hleg | hleg
    · exact hleg.mono fun _ _ _ => .inl
    · exact hleg.mono fun _ _ _ => .inr

end Union

/-! ### Tours along edges -/

/-- A leg along one of some edges. -/
def EdgeLeg (edges : List (Edge ν Sym)) (x : ν) (u : List Sym) (y : ν) : Prop :=
  ∃ e ∈ edges, e.source = x ∧ e.target = y ∧ u = e.symbol.toList

lemma edgeLeg_append {es es' : List (Edge ν Sym)} {x y : ν} {u : List Sym} :
    EdgeLeg (es ++ es') x u y ↔ EdgeLeg es x u y ∨ EdgeLeg es' x u y := by
  simp only [EdgeLeg, List.mem_append, or_and_right, exists_or]

/-- The paths of an automaton are tours along its edges. -/
lemma Nfa.path_iff_tour {a : Nfa ν Sym} {x y : ν} {w : List Sym} :
    a.Path x w y ↔ Tour (EdgeLeg a.edges) x w y := by
  constructor
  · intro h
    induction h with
    | refl q => exact .refl q
    | silent he _ ih => exact .cons ⟨_, he, rfl, rfl, rfl⟩ ih
    | read he _ ih => exact .cons ⟨_, he, rfl, rfl, rfl⟩ ih
  · intro h
    induction h with
    | refl q => exact .refl q
    | cons hleg _ ih =>
        obtain ⟨e, he, rfl, rfl, rfl⟩ := hleg
        exact (Path.edge he).trans ih

end MplsReach
