/-
What a search finds.

* `Front.add_cases`, `Front.Valid`: one element added to what has been found; each element is kept
  once, and what waits has been found.
* `Front.Expanded`: whatever has been found waits, or all that follows it has been found.
* `explore_waiting`: as many rounds as there can be elements leave nothing waiting.
* `mem_found_closure_iff`: given that many rounds, the elements found are those that steps lead to
  from the given ones; `nodup_found_closure`: each of them is found once.
-/
import Mathlib.Logic.Relation
import Mathlib.Tactic.Common
import MplsReach.Search

namespace MplsReach.Search

variable {α : Type} [BEq α] [Hashable α]

/-- An element that steps lead to from one of the given ones. -/
def LeadsTo (next : α → List α) (start : List α) (a : α) : Prop :=
  ∃ s ∈ start, Relation.ReflTransGen (fun x y => y ∈ next x) s a

/-! ### What has been found -/

/-- Each element is found once, known to be found, and waits only after it was found. -/
structure Front.Valid (f : Front α) : Prop where
  contains_iff : ∀ a, f.seen.contains a = true ↔ a ∈ f.found
  nodup : f.found.Nodup
  waiting_subset : f.waiting ⊆ f.found

/-- Whatever has been found waits, or all that follows it has been found. -/
def Front.Expanded (next : α → List α) (f : Front α) : Prop :=
  ∀ a ∈ f.found, a ∈ f.waiting ∨ ∀ b ∈ next a, b ∈ f.found

lemma Front.valid_empty : (Front.empty : Front α).Valid where
  contains_iff a := by simp [Front.empty]
  nodup := List.nodup_nil
  waiting_subset := List.Subset.refl _

/-- Adding an element changes nothing if it has been found, and puts it in front otherwise. -/
lemma Front.add_cases {f : Front α} (hf : f.Valid) (a : α) :
    (a ∈ f.found ∧ f.add a = f) ∨
      (a ∉ f.found ∧ f.add a = ⟨f.seen.insert a, a :: f.found, a :: f.waiting⟩) := by
  by_cases h : f.seen.contains a = true
  · exact .inl ⟨(hf.contains_iff a).mp h, by rw [Front.add, if_pos h]⟩
  · exact .inr ⟨fun ha => h ((hf.contains_iff a).mpr ha), by rw [Front.add, if_neg h]⟩

/-- Adding an element loses nothing and brings in nothing else. -/
lemma Front.mem_found_add {f : Front α} (hf : f.Valid) (a b : α) :
    b ∈ (f.add a).found ↔ b = a ∨ b ∈ f.found := by
  rcases Front.add_cases hf a with ⟨hold, heq⟩ | ⟨_, heq⟩
  · rw [heq]
    exact ⟨.inr, fun h => h.elim (fun hb => hb ▸ hold) id⟩
  · rw [heq, List.mem_cons]

/-- What was found before an element is added keeps waiting, and a new element waits. -/
lemma Front.mem_waiting_add {f : Front α} (hf : f.Valid) (a : α) {b : α}
    (hb : b ∈ (f.add a).found) : b ∈ f.found ∨ b ∈ (f.add a).waiting := by
  rcases Front.add_cases hf a with ⟨_, heq⟩ | ⟨_, heq⟩
  · exact .inl (heq ▸ hb)
  · rw [heq] at hb ⊢
    rcases List.mem_cons.mp hb with rfl | hb
    · exact .inr List.mem_cons_self
    · exact .inl hb

lemma Front.waiting_subset_add {f : Front α} (hf : f.Valid) (a : α) :
    f.waiting ⊆ (f.add a).waiting := by
  rcases Front.add_cases hf a with ⟨_, heq⟩ | ⟨_, heq⟩
  · rw [heq]
    exact List.Subset.refl _
  · rw [heq]
    exact List.subset_cons_self _ _

/-- As many elements are found as come to wait. -/
lemma Front.length_add {f : Front α} (hf : f.Valid) (a : α) :
    (f.add a).found.length + f.waiting.length = f.found.length + (f.add a).waiting.length := by
  rcases Front.add_cases hf a with ⟨_, heq⟩ | ⟨_, heq⟩
  · rw [heq]
  · rw [heq]
    simp only [List.length_cons]
    omega

variable [LawfulBEq α]

lemma Front.Valid.add {f : Front α} (hf : f.Valid) (a : α) : (f.add a).Valid := by
  rcases Front.add_cases hf a with ⟨_, heq⟩ | ⟨hnew, heq⟩
  · rwa [heq]
  · rw [heq]
    refine ⟨fun b => ?_, List.nodup_cons.mpr ⟨hnew, hf.nodup⟩, ?_⟩
    · have hb := hf.contains_iff b
      simp only [Std.HashSet.contains_insert, Bool.or_eq_true, beq_iff_eq, hb, List.mem_cons]
      exact or_congr eq_comm Iff.rfl
    · exact List.cons_subset_cons a hf.waiting_subset

/-! ### Several elements at once -/

/-- What adding several elements does, in one place. -/
structure Front.Grown (as : List α) (f g : Front α) : Prop where
  valid : g.Valid
  mem_found : ∀ b, b ∈ g.found ↔ b ∈ as ∨ b ∈ f.found
  mem_waiting : ∀ b ∈ g.found, b ∈ f.found ∨ b ∈ g.waiting
  waiting_subset : f.waiting ⊆ g.waiting
  length : g.found.length + f.waiting.length = f.found.length + g.waiting.length

lemma Front.grown_foldl_add {f : Front α} (hf : f.Valid) (as : List α) :
    Front.Grown as f (as.foldl Front.add f) := by
  induction as generalizing f with
  | nil => exact ⟨hf, by simp, fun _ hb => .inl hb, List.Subset.refl _, rfl⟩
  | cons a as ih =>
      have h := ih (hf.add a)
      rw [List.foldl_cons]
      refine ⟨h.valid, fun b => ?_, fun b hb => ?_, ?_, ?_⟩
      · rw [h.mem_found, Front.mem_found_add hf, List.mem_cons]
        tauto
      · rcases h.mem_waiting b hb with hb | hb
        · rcases Front.mem_waiting_add hf a hb with hb | hb
          · exact .inl hb
          · exact .inr (h.waiting_subset hb)
        · exact .inr hb
      · exact List.Subset.trans (Front.waiting_subset_add hf a) h.waiting_subset
      · have h1 := h.length
        have h2 := Front.length_add hf a
        omega

/-! ### Rounds of a search -/

variable {next : α → List α}

/-- What a search keeps: validity, expansion, and that only what steps lead to is found. -/
structure Front.Searched (next : α → List α) (start : List α) (f : Front α) : Prop where
  valid : f.Valid
  expanded : f.Expanded next
  start_found : ∀ a ∈ start, a ∈ f.found
  leadsTo : ∀ a ∈ f.found, LeadsTo next start a

/-- One round of a search: the element at the front is looked at. -/
lemma Front.Searched.round {start : List α} {f : Front α} (hf : f.Searched next start) {a : α}
    {rest : List α} (hw : f.waiting = a :: rest) :
    Front.Searched next start ((next a).foldl Front.add { f with waiting := rest }) := by
  have ha : a ∈ f.found := hf.valid.waiting_subset (hw ▸ List.mem_cons_self)
  have hv : Front.Valid { f with waiting := rest } :=
    ⟨hf.valid.contains_iff, hf.valid.nodup, fun b hb =>
      hf.valid.waiting_subset (hw ▸ List.mem_cons_of_mem a hb)⟩
  have hg := Front.grown_foldl_add hv (next a)
  refine ⟨hg.valid, fun b hb => ?_, fun b hb => ?_, fun b hb => ?_⟩
  · rcases hg.mem_waiting b hb with hold | hnew
    · rcases hf.expanded b hold with hwait | hdone
      · -- the element looked at is the only one that stops waiting
        rcases List.mem_cons.mp (hw ▸ hwait) with rfl | hrest
        · exact .inr fun c hc => (hg.mem_found c).mpr (.inl hc)
        · exact .inl (hg.waiting_subset hrest)
      · exact .inr fun c hc => (hg.mem_found c).mpr (.inr (hdone c hc))
    · exact .inl hnew
  · exact (hg.mem_found b).mpr (.inr (hf.start_found b hb))
  · rcases (hg.mem_found b).mp hb with hnext | hold
    · obtain ⟨s, hs, hsa⟩ := hf.leadsTo a ha
      exact ⟨s, hs, hsa.tail hnext⟩
    · exact hf.leadsTo b hold

/-- A whole search keeps what one round keeps. -/
lemma searched_explore {start : List α} {f : Front α} (hf : f.Searched next start) (rounds : Nat) :
    (explore next rounds f).Searched next start := by
  induction rounds generalizing f with
  | zero => exact hf
  | succ rounds ih =>
      rw [explore]
      split
      · exact hf
      · next hw => exact ih (hf.round hw)

/-- As many rounds as there can be elements leave nothing waiting: every round takes one element
off, and no element comes to wait twice. -/
lemma explore_waiting {start : List α} {n : Nat}
    (hn : ∀ f : Front α, f.Searched next start → f.found.length ≤ n) {rounds : Nat} {f : Front α}
    (hf : f.Searched next start) (hr : n + f.waiting.length ≤ rounds + f.found.length) :
    (explore next rounds f).waiting = [] := by
  induction rounds generalizing f with
  | zero =>
      have := hn f hf
      rw [explore]
      exact List.eq_nil_of_length_eq_zero (by omega)
  | succ rounds ih =>
      rw [explore]
      split
      · next hw => exact hw
      · next a rest hw =>
        refine ih (hf.round hw) ?_
        have hv : Front.Valid { f with waiting := rest } :=
          ⟨hf.valid.contains_iff, hf.valid.nodup, fun b hb =>
            hf.valid.waiting_subset (hw ▸ List.mem_cons_of_mem a hb)⟩
        have hlen := (Front.grown_foldl_add hv (next a)).length
        rw [hw, List.length_cons] at hr
        simp only at hlen
        omega

/-! ### The closure -/

lemma searched_start (start : List α) :
    (start.foldl Front.add .empty).Searched next start := by
  have hg := Front.grown_foldl_add Front.valid_empty start
  refine ⟨hg.valid, fun a ha => ?_, fun a ha => (hg.mem_found a).mpr (.inl ha), fun a ha => ?_⟩
  · rcases hg.mem_waiting a ha with hold | hwait
    · exact absurd hold (by simp [Front.empty])
    · exact .inl hwait
  · rcases (hg.mem_found a).mp ha with hs | hold
    · exact ⟨a, hs, .refl⟩
    · exact absurd hold (by simp [Front.empty])

/-- Each element is found once. -/
theorem nodup_found_closure (rounds : Nat) (start : List α) :
    (closure next rounds start).found.Nodup :=
  (searched_explore (searched_start start) rounds).valid.nodup

/-- **What a search finds.** If all elements that steps can lead to stand in a list, and there are
as many rounds as that list has entries, exactly the elements that steps lead to are found. -/
theorem mem_found_closure_iff {start all : List α} {rounds : Nat}
    (hall : ∀ a, LeadsTo next start a → a ∈ all) (hr : all.length ≤ rounds) (a : α) :
    a ∈ (closure next rounds start).found ↔ LeadsTo next start a := by
  have hs : (closure next rounds start).Searched next start :=
    searched_explore (searched_start start) rounds
  have hbound : ∀ f : Front α, f.Searched next start → f.found.length ≤ all.length := fun f hf =>
    hf.valid.nodup.length_le_of_subset fun b hb => hall b (hf.leadsTo b hb)
  have hstart : (start.foldl Front.add .empty).waiting.length ≤
      (start.foldl Front.add (Front.empty : Front α)).found.length := by
    have := (Front.grown_foldl_add Front.valid_empty start).length
    simp only [Front.empty, List.length_nil] at this ⊢
    omega
  have hdone : (closure next rounds start).waiting = [] :=
    explore_waiting hbound (searched_start start) (by omega)
  constructor
  · exact hs.leadsTo a
  · rintro ⟨s, hs', hsa⟩
    -- along the steps, since nothing waits any more
    induction hsa with
    | refl => exact hs.start_found s hs'
    | tail _ hbc ih =>
        rcases hs.expanded _ ih with hwait | hnext
        · exact absurd (hdone ▸ hwait) (by simp)
        · exact hnext _ hbc

end MplsReach.Search
