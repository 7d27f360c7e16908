/-
Reports on what is collected from the dumps of routers.

* `Dump.report`: routers with their interfaces and links, and tables with their rules.
* `Dump.tableReport`: the tables with the kinds of their actions.
-/
import MplsReach.Dump.Table
import MplsReach.Report.Value

namespace MplsReach.Dump

/-- The router and the name of an interface. -/
def Topology.interfaceReports (t : Topology) (i : InterfaceId) : List Value :=
  match t.interface? i with
  | some i => [.optional i.router, .optional i.name]
  | none => [.nothing, .nothing]

/-- The two ends of a link. -/
def Topology.linkReport (t : Topology) (l : Link) : Value :=
  .list (t.interfaceReports l.source ++ t.interfaceReports l.target)

/-- What an action is called. -/
def Action.className : Action → String
  | .push _ => "PushAction"
  | .swap _ => "SwapAction"
  | .pop => "PopAction"
  | .alien => "Label"

/-- The name of a label. -/
def labelReport (d : Dump) (l : LabelId) : Value := .optional (d.labelName? l)

/-- An action and the label that it brings in. -/
def actionReport (d : Dump) : Action → Value
  | .push l => .list [.text "push", d.labelReport l]
  | .swap l => .list [.text "swap", d.labelReport l]
  | .pop => .texts ["pop"]
  | .alien => .nothing

/-- A rule. -/
def ruleReport (d : Dump) (r : Rule) : Value :=
  let rest := [.optional (d.topology.interfaceName r.out), .ofScalar r.weight,
    .list (r.actions.map d.actionReport)]
  match r.arrival with
  | .labelled l => .list (.text "mpls" :: d.labelReport l :: rest)
  | .ethernet i => .list (.text "eth" :: .optional i :: rest)

/-- All that is collected. -/
def report (d : Dump) : Value :=
  .record
    [("routers", .list (d.topology.routers.map fun r =>
        .list [.optional r.name, .list (r.interfaces.map fun i => .optional i.1),
          .list (r.links.map d.topology.linkReport)])),
     ("tables", .list (d.tables.map fun t =>
        .list [.optional t.router, .list (t.rules.map d.ruleReport)]))]

/-- The tables: for each rule its weight, what it is for, and its actions by kind. -/
def tableReport (d : Dump) : Value :=
  .list (d.tables.map fun t => .list [.optional t.router, .list (t.rules.map fun r =>
    .list [.ofScalar r.weight,
      (match r.arrival with
        | .labelled l => d.labelReport l
        | .ethernet i => .optional i),
      .list (r.actions.map fun a =>
        .list (.text a.className :: (a.label?.map d.labelReport).toList))])])

end MplsReach.Dump
