/-
Sums of counts.

* `total`: the sum of a list of counts.
-/

namespace MplsReach

/-- The sum of a list of counts. -/
def total (ns : List Nat) : Nat := ns.foldr (· + ·) 0

@[simp]
theorem total_nil : total [] = 0 := rfl

@[simp]
theorem total_cons (n : Nat) (ns : List Nat) : total (n :: ns) = n + total ns := rfl

@[simp]
theorem total_append (ms ns : List Nat) : total (ms ++ ns) = total ms + total ns := by
  induction ms with
  | nil => simp
  | cons m ms ih => simp [ih, Nat.add_assoc]

end MplsReach
