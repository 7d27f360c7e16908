/-
Lists split by a key.

* `groupBy`: the elements of each key, in order; `getD_groupBy` says which they are.
-/
import Std.Data.HashMap

namespace MplsReach

variable {α κ : Type} [BEq κ] [LawfulBEq κ] [Hashable κ]

/-- The elements of each key, in order. -/
def groupBy (key : α → κ) (as : List α) : Std.HashMap κ (List α) :=
  as.foldr (fun a m => m.insert (key a) (a :: m.getD (key a) [])) ∅

theorem getD_groupBy (key : α → κ) (as : List α) (k : κ) :
    (groupBy key as).getD k [] = as.filter fun a => key a == k := by
  induction as with
  | nil => simp [groupBy]
  | cons a as ih =>
    rw [groupBy, List.foldr_cons, ← groupBy, Std.HashMap.getD_insert]
    by_cases h : key a = k
    · subst h
      simp [ih]
    · simp [h, ih]

end MplsReach
