/-
Routing tables as they are collected from the dumps of routers.

Labels are known by number, because several rules may use one label, which then changes for all of
them.

* `Rule`: what arriving packets a rule is for, where they leave, what is done to their labels, and
  the weight of the rule, of which lower ones come first.
* `Dump`: the topology, the names of all labels, and the tables. A label may have no name.
* `Dump.markBottoms`: every label name gets a mark that says whether the label is the lowest one.
-/
import MplsReach.Dump.Topology
import MplsReach.Scalar
import MplsReach.Text.Quoted
import MplsReach.Text.Replace

namespace MplsReach

namespace Dump

/-- The number of a label. -/
abbrev LabelId := Nat

/-- What a rule does to the labels of a packet. -/
inductive Action where
  | push (label : LabelId)
  | swap (label : LabelId)
  | pop
  /-- Something that is no action. -/
  | alien
deriving DecidableEq, Repr

/-- The packets that a rule is for: those with a label, or those without that arrive on an
interface. -/
inductive Arrival where
  | labelled (label : LabelId)
  | ethernet (interface : Option String)
deriving DecidableEq, Repr

/-- A rule. -/
structure Rule where
  arrival : Arrival
  out : InterfaceId
  actions : List Action
  weight : Scalar
deriving DecidableEq, Repr

/-- The label of a rule for labelled packets. -/
def Rule.label? (r : Rule) : Option LabelId :=
  match r.arrival with
  | .labelled l => some l
  | .ethernet _ => none

/-- Whether two rules are equal. Rules for labelled packets are, if they agree in all parts, where
actions that were made apart differ; any other two rules are equal only if they are one. -/
def Rule.equal (one : Bool) (r s : Rule) : Except Fault Bool :=
  match r.arrival, s.arrival with
  | .labelled l, .labelled m =>
    .ok (one || l = m && r.out = s.out && r.weight.key = s.weight.key && r.actions.isEmpty &&
      s.actions.isEmpty)
  | .ethernet _, .ethernet _ => .ok one
  | _, _ => .error .unsupported

/-- What an action is shown as, given what a label is shown as. -/
def Action.describe (label : String) : Action → String
  | .push _ => "push(" ++ label ++ ")"
  | .swap _ => "swap(" ++ label ++ ")"
  | .pop => "pop"
  | .alien => label

/-- The label that an action brings in. -/
def Action.label? : Action → Option LabelId
  | .push l | .swap l => some l
  | .pop | .alien => none

/-- The rules of a router. -/
structure Table where
  router : Option String
  rules : List Rule
deriving DecidableEq, Repr

end Dump

/-- All that is collected. -/
structure Dump where
  topology : Dump.Topology
  labels : List (Option String)
  tables : List Dump.Table
deriving DecidableEq, Repr

namespace Dump

/-- Nothing collected but the topology. -/
def ofTopology (t : Topology) : Dump := ⟨t, [], []⟩

/-- The name of a label, if it has one. -/
def labelName? (d : Dump) (l : LabelId) : Option String := d.labels.getD l none

/-- The name of a label, empty where it has none. -/
def labelName (d : Dump) (l : LabelId) : String := (d.labelName? l).getD ""

/-- A label that has to have a name. -/
def requireName (d : Dump) (l : LabelId) : Except Fault Unit :=
  if (d.labelName? l).isSome then .ok () else .error .missingPart

/-- A new label. -/
def addLabel (d : Dump) (name : Option String) : Dump × LabelId :=
  ({ d with labels := d.labels ++ [name] }, d.labels.length)

/-- A label gets another name. -/
def rename (d : Dump) (l : LabelId) (f : String → String) : Dump :=
  { d with labels := d.labels.modify l (·.map f) }

/-- The table of a router starts anew. -/
def startTable (d : Dump) (router : Option String) : Dump :=
  { d with tables := Dictionary.put Table.router ⟨router, []⟩ d.tables }

/-- A rule at the end of the table of a router. -/
def addRule (d : Dump) (router : Option String) (r : Rule) : Dump :=
  { d with tables := d.tables.map fun t =>
      if t.router = router then { t with rules := t.rules ++ [r] } else t }

/-- The rules of the table of a router. -/
def rulesOf (d : Dump) (router : Option String) : List Rule :=
  ((Dictionary.get? Table.router router d.tables).map (·.rules)).getD []

/-- What a rule is shown as, given what a label is shown as. A rule for packets without labels is
not shown. -/
def describeRule (d : Dump) (label : String) (r : Rule) : Except Fault String :=
  match r.arrival with
  | .ethernet _ => .error .missingPart
  | .labelled _ =>
    .ok ("(" ++ r.weight.shown ++ ") " ++ label ++ "-" ++
      "-".intercalate (r.actions.map (Action.describe label)) ++ "> " ++
      Text.showOption (d.topology.interfaceName r.out))

/-! ### Marks for the lowest label -/

/-- The mark of a label above another one. -/
def upperMark : String := "(S=0)"

/-- The mark of the lowest label. -/
def lowestMark : String := "(S=1)"

/-- A name with a mark: the other mark is replaced if the name ends in it. -/
def marked (mark other name : String) : String :=
  if Text.endsIn other name then Text.replace other mark name else name ++ mark

/-- Whether a rule is for packets whose label is marked to be above another one. -/
def isUpper (d : Dump) (l : LabelId) : Bool := Text.endsIn upperMark (d.labelName l)

/-- The labels of rules are marked as lowest ones, unless they are marked as upper ones. -/
def markLowest (d : Dump) (labels : List LabelId) : Dump :=
  labels.foldl (fun d l => if d.isUpper l then d else d.rename l (· ++ lowestMark)) d

/-- A copy of a rule for packets whose label is above another one. -/
def addUpper (d : Dump) (router : Option String) (r : Rule) : Except Fault Dump :=
  match r.label? with
  | none => .ok d
  | some l =>
    if r.actions.contains .alien then .error (.refused .unknownAction)
    else
      let (d, l) := d.addLabel (some (Text.replace lowestMark upperMark (d.labelName l)))
      .ok (d.addRule router { r with arrival := .labelled l })

/-- Steps on a state until one of them fails; what was done before is kept. -/
def stepwise {α σ : Type} (f : σ → α → Except Fault σ) : σ → List α → σ × Option Fault
  | s, [] => (s, none)
  | s, a :: as =>
    match f s a with
    | .error e => (s, some e)
    | .ok s => stepwise f s as

/-- The rules of one table are marked, and those for lowest labels get a copy for upper ones unless
the table has a rule for that label. All labels of the rules have to have names. -/
def completeTable (d : Dump) (router : Option String) : Dump × Option Fault :=
  let rules := (d.rulesOf router).filter fun r => r.label?.isSome
  let labels := rules.filterMap Rule.label?
  if labels.any fun l => (d.labelName? l).isNone then (d, some .missingPart) else
  let upper := labels.filter d.isUpper
  let rest := rules.filter fun r => !r.label?.any d.isUpper
  let d := d.markLowest labels
  let taken := upper.map d.labelName
  let unpaired := rest.filter fun r => !r.label?.any fun l => taken.contains (d.labelName l)
  stepwise (fun d r => d.addUpper router r) d unpaired

/-- The labels that an action brings in are marked. Above a label, a pushed label is an upper one
and a swapped one keeps the mark of the packet's label. -/
def markAction (d : Dump) (arrival : Arrival) (a : Action) : Except Fault Dump :=
  match arrival, a with
  | .labelled _, .pop => .ok d
  | .labelled _, .push l => do
    d.requireName l
    pure (d.rename l (marked upperMark lowestMark))
  | .labelled m, .swap l => do
    d.requireName l
    pure (if d.isUpper m then d.rename l (marked upperMark lowestMark)
      else d.rename l (marked lowestMark upperMark))
  | .ethernet _, .pop => .error (.refused .popOnEthernet)
  | .ethernet _, .push l => do
    d.requireName l
    pure (d.rename l fun name =>
      if Text.endsIn upperMark name then Text.replace upperMark lowestMark name
      else name ++ upperMark)
  | .ethernet _, .swap _ => .error (.refused .swapOnEthernet)
  | _, .alien => .error (.refused .unknownRule)

/-- Every label name gets a mark. A failure leaves what was done before. -/
def markBottoms (d : Dump) : Dump × Option Fault :=
  let completed := stepTables (d.tables.map (·.router)) d
  match completed with
  | (d, some e) => (d, some e)
  | (d, none) =>
    stepwise (fun d (arrival, a) => d.markAction arrival a) d
      (d.tables.flatMap fun t => t.rules.flatMap fun r => r.actions.map (r.arrival, ·))
where
  /-- The tables one after the other. -/
  stepTables : List (Option String) → Dump → Dump × Option Fault
    | [], d => (d, none)
    | r :: rs, d =>
      match d.completeTable r with
      | (d, some e) => (d, some e)
      | (d, none) => stepTables rs d

end Dump

end MplsReach
