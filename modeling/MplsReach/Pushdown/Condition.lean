/-
Conditions of rules: comparisons of numbers, put together by the operations of logic.

* `Calculation`, `Calculation.value?`: numbers of 32 bits. What divides by zero has no value.
* `Condition`, `Condition.holds`: a comparison with a side that has no value does not hold.
-/

namespace MplsReach

/-- An operation on numbers. -/
inductive Arithmetic where
  | add | sub | mul | div | shift
deriving DecidableEq, Repr

/-- The result of an operation, which goes round at 32 bits; a quotient is cut towards zero. -/
def Arithmetic.apply (a b : Int32) : Arithmetic → Option Int32
  | add => some (a + b)
  | sub => some (a - b)
  | mul => some (a * b)
  | div => if b = 0 then none else some (a / b)
  | shift => some (a <<< b)

/-- A number that is to be calculated. -/
inductive Calculation where
  | number (n : Int32)
  /-- The number that a quantifier runs over. -/
  | bound (name : String)
  | combine (op : Arithmetic) (a b : Calculation)

namespace Calculation

/-- The value of a calculation, for the values of the bound names; the innermost comes first. -/
def value? (bound : List (String × Int32)) : Calculation → Option Int32
  | number n => some n
  | .bound name => (bound.find? (·.1 = name)).map (·.2)
  | combine op a b => do op.apply (← a.value? bound) (← b.value? bound)

end Calculation

/-- A comparison of numbers. -/
inductive Comparison where
  | lt | le | eq | ne | ge | gt
deriving DecidableEq, Repr

/-- Whether a comparison holds. -/
def Comparison.holds (a b : Int32) : Comparison → Bool
  | lt => a < b
  | le => a ≤ b
  | eq => a = b
  | ne => a ≠ b
  | ge => b ≤ a
  | gt => b < a

/-- An operation on truth values. -/
inductive Connective where
  | eqv | xor | or | and
deriving DecidableEq, Repr

/-- The result of an operation. -/
def Connective.apply (a b : Bool) : Connective → Bool
  | eqv => a == b
  | xor => a != b
  | or => a || b
  | and => a && b

/-- A condition. -/
inductive Condition where
  | compare (op : Comparison) (a b : Calculation)
  | negate (c : Condition)
  | combine (op : Connective) (a b : Condition)
  /-- For all numbers, or for some number, from a first to a last one. -/
  | quantify (all : Bool) (name : String) (first last : Int32) (c : Condition)

namespace Condition

/-- The numbers from a first to a last one. -/
def numbers (first last : Int32) : List Int32 :=
  (List.range (last.toInt - first.toInt + 1).toNat).map fun (i : Nat) =>
    Int32.ofInt (first.toInt + i)

/-- Whether a condition holds, for the values of the bound names. -/
def holds (bound : List (String × Int32)) : Condition → Bool
  | compare op a b =>
    match a.value? bound, b.value? bound with
    | some x, some y => op.holds x y
    | _, _ => false
  | negate c => !c.holds bound
  | combine op a b => op.apply (a.holds bound) (b.holds bound)
  | quantify true name first last c =>
    (numbers first last).all fun n => c.holds ((name, n) :: bound)
  | quantify false name first last c =>
    (numbers first last).any fun n => c.holds ((name, n) :: bound)

end Condition

end MplsReach
