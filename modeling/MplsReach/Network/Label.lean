/-
Labels and the actions on a stack of labels.

* `Label`: a named label, or one of the spellings of an absent one.
* `Label.ofArgument`: the label that a written argument stands for.
* `Action`: push, swap, pop, an action that does nothing, and one of no known kind.
* `Action.describe`, `Label.describe`: what they are shown as.
* `Action.tags`: a chain of actions in the name of a node.
-/
import MplsReach.Text.Quoted

namespace MplsReach

/-- The spellings of an absent label, which count as different labels. -/
inductive Absence where
  | unwritten
  | empty
  | epsilon
  /-- A label that was made without a name. -/
  | nameless
deriving DecidableEq, Repr, Hashable

/-- A label, or the absence of one. -/
inductive Label where
  | named (name : String)
  | absent (spelling : Absence)
deriving DecidableEq, Repr, Hashable

namespace Label

/-- The label that a written argument stands for. -/
def ofArgument : Option String → Label
  | none => absent .unwritten
  | some "" => absent .empty
  | some "e" => absent .epsilon
  | some s => named s

/-- The name that an absent label goes by. -/
def absentName : String := "__NOLABEL__"

/-- The name of a label. -/
def name : Label → String
  | named s => s
  | absent _ => absentName

/-- Whether a label is there. -/
def isNamed : Label → Bool
  | named _ => true
  | absent _ => false

/-- The name of a label that is there. -/
def name? : Label → Option String
  | named s => some s
  | absent _ => none

/-- What a label is shown as. -/
def describe : Label → String
  | named s => "<Label " ++ Text.quote s ++ "@>"
  | absent _ => "<NOLABEL>"

end Label

/-- An action on a stack of labels. -/
inductive Action where
  | push (label : Label)
  | swap (label : Label)
  | pop
  | noop
  /-- An action of no known kind. -/
  | unknown
deriving DecidableEq, Repr, Hashable

namespace Action

/-- The label that an action brings in. -/
def label? : Action → Option Label
  | push l => some l
  | swap l => some l
  | _ => none

/-- What an action is shown as. -/
def describe : Action → String
  | push l => "<PUSH " ++ l.describe ++ ">"
  | swap l => "<SWAP " ++ l.describe ++ ">"
  | pop => "<POP>"
  | noop => "<NOOP>"
  | unknown => Text.missing

/-- The short form of an action in the name of a location. -/
def shortForm : Action → String
  | push l => "push(" ++ l.name ++ ")"
  | swap l => "swap(" ++ l.name ++ ")"
  | pop => "pop"
  | noop => "noop"
  | unknown => Text.missing

/-- The letter of an action and the name of its label. -/
def tag : Action → String
  | push l => "p" ++ l.name
  | swap l => "s" ++ l.name
  | pop => "p"
  | noop => "n"
  | unknown => Text.missing

/-- The tags of a chain of actions. -/
def tags : List Action → String
  | [] => "__"
  | as => "__".intercalate (as.map tag)

end Action

end MplsReach
