/-
Reports on a network.

* `Network.report`: routers, links and routing in full.
* `Network.countReport`, `labelReport`, `lookupReport`: its sizes, its labels, and what its tables
  answer.
* `Network.descriptions`: its links, destinations, groups and rules as texts.
-/
import MplsReach.Network.Basic
import MplsReach.Report.Value
import MplsReach.Text.Anonymous

namespace MplsReach

/-- An action and the label that it brings in. -/
def Action.report : Action → Value
  | .push l => .list [.text "push", .optional l.name?]
  | .swap l => .list [.text "swap", .optional l.name?]
  | .pop => .texts ["pop"]
  | .noop => .texts ["noop"]
  | .unknown => .nothing

/-- The router and the interface of an endpoint. -/
def Endpoint.reports (p : Endpoint) : List Value := [.optional p.router.name, .optional p.interface]

/-- A destination with its groups in order of priority. -/
def Destination.report (d : Destination) : Value :=
  .list [.optional d.source, .optional d.label.name?, .list (d.groups.map fun g =>
    .list (g.map fun r => .list [.optional r.target, .list (r.actions.map Action.report)]))]

namespace Network

/-- All of a network. -/
def report (n : Network) : Value :=
  .record
    [("routers", .list (n.routers.map fun r =>
        .list [.optional r.name, .optional r.name, .list (r.interfaces.map fun i =>
          .list [.optional i.name, .flag i.external])])),
     ("links", .list (n.links.map fun l => .list (l.source.reports ++ l.target.reports))),
     ("routing", .list (n.tables.map fun t =>
        .list [.optional t.router.name, .list (t.destinations.map Destination.report)]))]

/-- The sizes of a network. -/
def countReport (n : Network) : Value :=
  .record
    [("routers", .nat n.routers.length), ("links", .nat n.links.length),
     ("rules", .nat n.ruleCount),
     ("tables", .list (n.tables.map fun t =>
        .list [.optional t.router.name, .nat t.ruleCount,
          .list (t.destinations.map fun d => .nat d.rules.length)]))]

/-- The labels of a network, of each table and of each destination. -/
def labelReport (n : Network) : Except Fault Value := do
  let all ← n.labels
  let tables ← n.tables.mapM fun t => do
    let own ← t.labels
    let each ← t.destinations.mapM fun d => do pure (names (← d.labels))
    pure (.list [.optional t.router.name, names own, .list each])
  pure (.record [("all", names all), ("tables", .list tables)])
where
  names (ls : List Label) : Value := .sortedTexts (ls.map (·.name))

/-- What the tables answer for each interface and for each label. -/
def lookupReport (n : Network) : Value :=
  .list (n.tables.flatMap fun t =>
    (t.router.interfaces.map fun i =>
      .list [.optional t.router.name, .text "from", .optional i.name,
        .list ((t.destinationsFrom i.name).map fun d => .optional d.label.name?)]) ++
    (t.destinations.map fun d =>
      .list [.optional t.router.name, .text "label", .optional d.label.name?,
        .list ((t.destinationsLabel d.label).map fun d => .optional d.source)]))

/-- Links, destinations, groups and rules as texts. An action of no known kind has none. -/
def descriptions (n : Network) : Except Fault (List String) := do
  let links := n.links.flatMap fun l => [l.label, l.describe]
  let tables ← n.tables.mapM fun t => do
    let ds ← t.destinations.mapM fun d => do
      let gs ← d.groups.mapM fun g => do
        let rs ← g.mapM fun r => do
          if r.actions.contains .unknown then .error Fault.missingPart
          pure [r.describe d, r.outline d]
        pure ("" :: rs.flatten)
      pure (d.describe :: gs.flatten)
    pure ds.flatten
  pure ((links ++ tables.flatten).map Text.withoutSerials)

end Network

end MplsReach
