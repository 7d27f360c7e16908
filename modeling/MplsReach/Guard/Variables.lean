/-
A supply of variables.

* `Variables`: the numbers that are free, and the variables that were ever made.
* `Variables.alloc`: a new variable under the number that was freed last.
* `Variables.release`: the number of a variable is free again. A variable that is released twice has
  no number any more, and the second time the missing number is what becomes free.
-/
import MplsReach.Fault
import MplsReach.Text.Order
import MplsReach.Text.Quoted

namespace MplsReach.Guard

/-- A variable. -/
structure Variable where
  name : String
  /-- Its number, as long as it has not been released. -/
  number : Option Nat
  /-- Whether transitions have to keep its value. -/
  kept : Bool
deriving DecidableEq, Repr

/-- The numbers that are free, the next one in front, and the variables in the order in which they
were made. -/
structure Variables where
  free : List (Option Nat)
  made : List Variable
deriving DecidableEq, Repr

namespace Variables

/-- Ten free numbers. -/
def start : Variables := ⟨(List.range 10).map some, []⟩

/-- The name of a variable under a number. -/
def nameOf (number : Option Nat) : String := "var_" ++ Text.showOption (number.map toString)

/-- A new variable, if a number is free; variables are known by their position. -/
def alloc (vs : Variables) : Except Fault (Nat × Variables) :=
  match vs.free with
  | [] => .error .outOfRange
  | n :: free => .ok (vs.made.length, ⟨free, vs.made ++ [⟨nameOf n, n, true⟩]⟩)

/-- A variable is released. -/
def release (vs : Variables) (v : Nat) : Variables :=
  ⟨(vs.made[v]?.bind (·.number)) :: vs.free,
    vs.made.modify v fun x => { x with number := none, kept := false }⟩

/-- The name of a variable. -/
def name (vs : Variables) (v : Nat) : String := (vs.made[v]?.map (·.name)).getD ""

/-- Whether the value of a variable is kept. -/
def keeps (vs : Variables) (v : Nat) : Bool := (vs.made[v]?.map (·.kept)).getD false

/-- The positions of the variables that are kept. -/
def kept (vs : Variables) : List Nat := (List.range vs.made.length).filter vs.keeps

/-- The names of the variables that are kept. -/
def keptNames (vs : Variables) : List String := vs.kept.map vs.name

/-- The names that were ever used. -/
def usedNames (vs : Variables) : List String := Text.distinct (vs.made.map (·.name))

end Variables

end MplsReach.Guard
