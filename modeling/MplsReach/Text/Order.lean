/-
The order in which lists of texts are shown: ascending by code points, with repetitions kept.

* `sorted`: a list of texts in that order.
* `sortedBy`: any list, by a text that each element is shown as.
* `distinct`: the first occurrence of each element.
-/

namespace MplsReach.Text

/-- Texts ascending by code points. -/
def sorted (xs : List String) : List String :=
  xs.mergeSort fun a b => !(b < a)

/-- Elements ascending by a text that stands for them. -/
def sortedBy {α : Type} (key : α → String) (xs : List α) : List α :=
  xs.mergeSort fun a b => !(key b < key a)

/-- Pairs of texts, ascending component by component. -/
def sortedPairs (xs : List (String × String)) : List (String × String) :=
  xs.mergeSort fun a b => if a.1 = b.1 then !(b.2 < a.2) else decide (a.1 < b.1)

/-- The first occurrence of each element, in order. -/
def distinct {α : Type} [DecidableEq α] : List α → List α
  | [] => []
  | a :: as => a :: (distinct as).filter (· ≠ a)

@[simp]
theorem mem_distinct {α : Type} [DecidableEq α] (a : α) (as : List α) :
    a ∈ distinct as ↔ a ∈ as := by
  induction as with
  | nil => simp [distinct]
  | cons b bs ih => by_cases h : a = b <;> simp [distinct, ih, h]

theorem nodup_distinct {α : Type} [DecidableEq α] (as : List α) : (distinct as).Nodup := by
  induction as with
  | nil => simp [distinct]
  | cons b bs ih =>
    rw [distinct, List.nodup_cons]
    exact ⟨by simp, ih.filter _⟩

end MplsReach.Text
