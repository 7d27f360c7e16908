/-
Sessions in which the routing table of one router is made by hand.

Destinations and groups are made first and put together later, so a group can be shared and can grow
after it was added.

* `Tabling`: the interfaces of the router, the groups, the destinations and the table.
* `Tabling.step`: the commands.
-/
import MplsReach.Report.Action
import MplsReach.Session.Basic
import MplsReach.Text.Anonymous

namespace MplsReach.Session

/-- A rule with the label of its destination. -/
structure LabelledRule where
  label : Label
  rule : Rule

/-- A destination in the making, with the numbers of its groups. -/
structure OpenDestination where
  source : Option String
  label : Label
  groups : List Nat

/-- A routing table in the making. -/
structure Tabling where
  interfaces : List (Option String)
  groups : List (List LabelledRule)
  groupKeys : List (Key × Nat)
  destinations : List OpenDestination
  /-- The keys of destinations, with the values that they were given as. -/
  destinationKeys : List (Key × Value × Nat)
  /-- The numbers of the destinations in the table. -/
  table : List ((Option String × Label) × Nat)

namespace Tabling

/-- Nothing is made yet. -/
def empty : Tabling := ⟨[], [], [], [], [], []⟩

/-- The rules of a destination. -/
def rules (t : Tabling) (d : OpenDestination) : List LabelledRule :=
  d.groups.flatMap fun g => t.groups.getD g []

/-- The destinations of the table. -/
def entries (t : Tabling) : List OpenDestination := t.table.filterMap (t.destinations[·.2]?)

/-- The labels of rules. -/
def labels (rs : List LabelledRule) : Except Fault (List Label) := do
  let parts ← rs.mapM fun r => do
    pure ((if r.label.isNamed then [r.label] else []) ++ (← r.rule.actionLabels))
  pure (Text.distinct parts.flatten)

/-- An interface is added unless it is there. -/
def addInterface (name : Value) : Step Tabling (Option String) := do
  let n := name.text?
  modify fun t =>
    if t.interfaces.contains n then t else { t with interfaces := t.interfaces ++ [n] }
  pure n

/-- An interface that is there. -/
def interface (name : Value) : Step Tabling (Option String) := do
  if (← get).interfaces.contains name.text? then pure name.text?
  else throw (.unknownName name.text?)

/-- The number of a destination. -/
def destination (id : Value) : Step Tabling Nat := do
  pure (← find (← get).destinationKeys id).2

/-- The number of a group. -/
def group (id : Value) : Step Tabling Nat := do find (← get).groupKeys id

/-- The destination of a number. -/
def openDestination (n : Nat) : Step Tabling OpenDestination := do
  match (← get).destinations[n]? with
  | some d => pure d
  | none => throw .outOfRange

/-- Groups are added to a destination. -/
def addGroups (d : Nat) (gs : List Nat) : Step Tabling Value :=
  change fun t => { t with destinations := t.destinations.modify d fun x =>
    { x with groups := x.groups ++ gs } }

/-- One command. -/
def step (command : Value) : Step Tabling Value := do
  let arg := command.item
  match (arg 0).asText with
  | "dest" =>
    let i ← addInterface (arg 2)
    let k ← keyOf (arg 1)
    change fun t =>
      { t with
        destinations := t.destinations ++ [⟨i, .ofArgument (arg 3).text?, []⟩]
        destinationKeys := keep k (arg 1, t.destinations.length) t.destinationKeys }
  | "group" =>
    let k ← keyOf (arg 1)
    change fun t =>
      { t with
        groups := t.groups ++ [[]]
        groupKeys := keep k t.groups.length t.groupKeys }
  | "rule" =>
    let g ← group (arg 1)
    let d ← openDestination (← destination (arg 2))
    let out ← addInterface (arg 3)
    let actions ← attempt (Action.ofValues (arg 4))
    change fun t => { t with groups := t.groups.modify g fun rs =>
      rs ++ [⟨d.label, out, actions⟩] }
  | "add_group" =>
    let d ← destination (arg 1)
    addGroups d [← group (arg 2)]
  | "add_groups" =>
    let d ← destination (arg 1)
    addGroups d (← (arg 2).items.mapM group)
  | "set" =>
    let n ← destination (arg 1)
    let d ← openDestination n
    change fun t => { t with table := Dictionary.put Prod.fst ((d.source, d.label), n) t.table }
  | "get" =>
    let i ← interface (arg 1)
    match Dictionary.get? Prod.fst (i, Label.ofArgument (arg 2).text?) (← get).table with
    | some (_, n) =>
      pure (.list (((← get).destinationKeys.filter (·.2.2 = n)).map (·.2.1)))
    | none => throw (.unknownName none)
  | "counts" =>
    let t ← get
    let counts := t.entries.map fun d => (t.rules d).length
    pure (.list [.nat (total counts), .list (counts.map .nat)])
  | "labels" =>
    let t ← get
    pure (.sortedTexts ((← attempt (labels (t.entries.flatMap t.rules))).map (·.name)))
  | "from" =>
    let i ← interface (arg 1)
    pure (.list (((← get).entries.filter (·.source = i)).map fun d => .optional d.label.name?))
  | "repr" =>
    let d ← openDestination (← destination (arg 1))
    pure (.text (Text.withoutSerials
      (Destination.describe ⟨d.source, d.label, d.groups.map fun _ => []⟩)))
  | _ => pure .nothing

end Tabling

end MplsReach.Session
