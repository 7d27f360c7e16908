/-
Reports on chains of actions.

* `Action.sameLabel`: whether two actions bring in the same label, or none.
* `Action.summary`: an action in words; actions that bring in a label have none.
* `Action.chainReport`: all that is told of a chain.
* `Action.ofValue`: the action that a script writes as its kind and its label.
-/
import MplsReach.Report.Network

namespace MplsReach.Action

/-- The action that is written as a kind and, where the kind has one, a label. -/
def ofValue (v : Value) : Except Fault Action :=
  let label := Label.ofArgument (v.item 1).text?
  match v.item 0 with
  | .text "push" => .ok (.push label)
  | .text "swap" => .ok (.swap label)
  | .text "pop" => .ok .pop
  | .text "noop" => .ok .noop
  | kind => .error (.unknownName kind.text?)

/-- The actions that are written in a list. -/
def ofValues (v : Value) : Except Fault (List Action) := v.items.mapM ofValue

/-- Whether two actions bring in the same label, or none. -/
def sameLabel (a b : Action) : Bool := a.label? = b.label?

/-- An action in words. -/
def summary : Action → Except Fault String
  | .pop => .ok "pop"
  | .noop => .ok "noop"
  | .push _ => .error .wrongKind
  | .swap _ | .unknown => .error .missingPart

/-- Each action with the ones behind it. -/
def unwound : List Action → List Value
  | [] => []
  | a :: as => .list [.text a.shortForm, .texts (as.map shortForm)] :: unwound as

/-- A relation between all pairs of actions. -/
def table (r : Action → Action → Bool) (as : List Action) : Value :=
  .list (as.map fun a => .list (as.map fun b => .flag (r a b)))

/-- All that is told of a chain of actions; `styles` are the constructions that use their tags. -/
def chainReport (styles : List String) (as : List Action) : Value :=
  .record
    [("names", .record (styles.map fun s => (s, .text (tags as)))),
     ("rcar", .list (unwound as)), ("rcar2", .list (unwound as)),
     ("eq", table (· == ·) as), ("hash_eq", table sameLabel as),
     ("clone", .list (as.map report)),
     ("labels", .list (as.map fun a => .texts (a.label?.map Label.name).toList)),
     ("repr", .texts (as.map describe)),
     ("desc", .list (as.map fun a => .ofExcept (a.summary.map .text)))]

end MplsReach.Action
