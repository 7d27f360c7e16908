/-
Guards of transitions, as texts.

* `Guard.Form`: the kinds of guards.
* `Guard.Form.write`: a guard of a kind over the texts of its operands. Every kind but a sum stands
  in round brackets, so a guard can be an operand of a guard.
* `Guard.keeping`: a guard with the demand that variables keep their values.
-/

namespace MplsReach.Guard

/-- The kinds of guards. -/
inductive Form where
  /-- A guard that always holds. -/
  | always
  /-- A guard that is taken as it is written. -/
  | raw
  | both
  | either
  /-- The value of a variable behind the transition. -/
  | assign
  | equal
  | differs
  | less
  /-- A sum, which is a value and no condition. -/
  | sum
deriving DecidableEq, Repr

namespace Form

/-- The sign between the operands. -/
def sign : Form → String
  | both => " & "
  | either => " | "
  | assign => "' = "
  | equal => " = "
  | differs => " != "
  | less => " < "
  | sum => " + "
  | always | raw => ""

/-- A guard over the texts of its operands; a guard of one operand leaves out the second. -/
def write (f : Form) (a b : String) : String :=
  match f with
  | always => "1 = 1"
  | sum => a ++ sum.sign ++ b
  | raw => "(" ++ a ++ ")"
  | f => "(" ++ a ++ f.sign ++ b ++ ")"

/-- Whether a guard of this kind is a condition. -/
def isCondition (f : Form) : Bool := f != sum

/-- Whether there is only one guard of this kind over the same operands. -/
def isShared (f : Form) : Bool := f == both || f == assign

end Form

/-- The demand that a variable keeps its value. -/
def unchanged (name : String) : String := Form.assign.write name name

/-- A guard, if there is one, with the demand that variables keep their values. -/
def keeping (explicit : Option String) (names : List String) : String :=
  match explicit, names with
  | none, [] => Form.always.write "" ""
  | none, n :: ns => ns.foldl (fun g m => Form.both.write g (unchanged m)) (unchanged n)
  | some g, ns => ns.foldl (fun g m => Form.both.write g (unchanged m)) g

end MplsReach.Guard
