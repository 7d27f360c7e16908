/-
Networks of label-switching routers.

* `RouterId`: the copy of a network that a router belongs to and its name there.
* `Endpoint`: an interface of a router; `Link`: two endpoints that are connected.
* `Rule`, `Destination`, `Table`: where packets that arrive on an interface with a label go, in
  groups of decreasing priority.
* `Network`: routers, links and tables.
* `Network.ruleCount`, `Network.labels`: what a network holds in all.
-/
import MplsReach.Dictionary
import MplsReach.Fault
import MplsReach.Network.Label
import MplsReach.Text.Order
import MplsReach.Total

namespace MplsReach

/-- A router is known by the copy of the network that it belongs to and by its name there. -/
structure RouterId where
  copy : String
  base : Option String
deriving DecidableEq, Repr, Hashable

/-- The name of a router: in a copy, the name of the copy stands in front. -/
def RouterId.name (r : RouterId) : Option String :=
  if r.copy = "" then r.base else some (r.copy ++ Text.showOption r.base)

/-- What a router is shown as. -/
def RouterId.describe (r : RouterId) : String := "<Router " ++ Text.quoteOption r.name ++ "@>"

/-- An interface of a router. -/
structure Interface where
  name : Option String
  external : Bool
deriving DecidableEq, Repr

/-- What an interface is shown as. -/
def Interface.describeName (name : Option String) : String :=
  "<Interface " ++ Text.quoteOption name ++ "@>"

/-- A router and its interfaces. -/
structure Router where
  id : RouterId
  interfaces : List Interface
deriving DecidableEq, Repr

namespace Router

/-- The name of a router. -/
def name (r : Router) : Option String := r.id.name

/-- Whether a router has an interface of that name. -/
def hasInterface (r : Router) (name : Option String) : Bool :=
  r.interfaces.any (·.name = name)

/-- An interface is added unless the router has one of its name. -/
def addInterface (r : Router) (i : Interface) : Router :=
  if r.hasInterface i.name then r else { r with interfaces := r.interfaces ++ [i] }

end Router

/-- An interface at its router. -/
structure Endpoint where
  router : RouterId
  interface : Option String
deriving DecidableEq, Repr, Hashable

/-- What an endpoint is shown as. -/
def Endpoint.describe (p : Endpoint) : String :=
  "<SI " ++ p.router.describe ++ ":" ++ Interface.describeName p.interface ++ ">"

/-- Two endpoints that are connected; packets cross a link both ways. -/
structure Link where
  source : Endpoint
  target : Endpoint
deriving DecidableEq, Repr

namespace Link

/-- The short name of a link. -/
def label (l : Link) : String :=
  Text.showOption l.source.router.name ++ "_" ++ Text.showOption l.target.router.name

/-- What a link is shown as. -/
def describe (l : Link) : String :=
  "<Link " ++ l.source.describe ++ " -> " ++ l.target.describe ++ ">"

end Link

/-- A packet leaves by an interface after the actions are done to its labels. -/
structure Rule where
  target : Option String
  actions : List Action
deriving DecidableEq, Repr

/-- Rules of one priority. -/
abbrev Group := List Rule

/-- What happens to packets that arrive on an interface with a label: the groups stand by
decreasing priority. -/
structure Destination where
  source : Option String
  label : Label
  groups : List Group
deriving DecidableEq, Repr

namespace Destination

/-- The key of a destination. -/
def key (d : Destination) : Option String × Label := (d.source, d.label)

/-- The rules of all groups, by decreasing priority. -/
def rules (d : Destination) : List Rule := d.groups.flatten

/-- What a destination is shown as. -/
def describe (d : Destination) : String :=
  "(" ++ d.label.describe ++ ")" ++ Interface.describeName d.source ++ ":" ++
    toString d.groups.length ++ " TEGroups"

end Destination

namespace Rule

/-- What a rule of a destination is shown as, with its actions. -/
def describe (r : Rule) (d : Destination) : String :=
  Interface.describeName d.source ++ " -" ++ d.label.describe ++ "-" ++
    "-".intercalate (r.actions.map Action.describe) ++ "> " ++ Interface.describeName r.target

/-- What a rule of a destination is shown as, without its actions. -/
def outline (r : Rule) (d : Destination) : String :=
  "<Rule " ++ Interface.describeName d.source ++ " -> " ++ Interface.describeName r.target ++
    " for " ++ d.label.describe ++ ">"

/-- The labels that the actions bring in; an action of no known kind has no answer. -/
def actionLabels (r : Rule) : Except Fault (List Label) :=
  if r.actions.contains .unknown then .error .missingPart else .ok (r.actions.filterMap (·.label?))

end Rule

/-- The labels of a destination's rules: its own, if it has one and there are rules, and those that
the actions bring in. -/
def Destination.labels (d : Destination) : Except Fault (List Label) := do
  let brought ← d.rules.mapM Rule.actionLabels
  let own := if d.label.isNamed && !d.rules.isEmpty then [d.label] else []
  pure (Text.distinct (own ++ brought.flatten))

/-- The destinations of one router. -/
structure Table where
  router : Router
  destinations : List Destination
deriving DecidableEq, Repr

namespace Table

/-- The destinations for packets that arrive on an interface. -/
def destinationsFrom (t : Table) (i : Option String) : List Destination :=
  t.destinations.filter (·.source = i)

/-- The destinations for packets with a label. -/
def destinationsLabel (t : Table) (l : Label) : List Destination :=
  t.destinations.filter (·.label = l)

/-- The number of rules. -/
def ruleCount (t : Table) : Nat := total (t.destinations.map (·.rules.length))

/-- The labels of all rules. -/
def labels (t : Table) : Except Fault (List Label) := do
  let parts ← t.destinations.mapM Destination.labels
  pure (Text.distinct parts.flatten)

end Table

/-- Routers, the links between them and their tables. -/
structure Network where
  routers : List Router
  links : List Link
  tables : List Table
deriving DecidableEq, Repr

namespace Network

/-- The number of rules. -/
def ruleCount (n : Network) : Nat := total (n.tables.map (·.ruleCount))

/-- The labels of all rules. -/
def labels (n : Network) : Except Fault (List Label) := do
  let parts ← n.tables.mapM Table.labels
  pure (Text.distinct parts.flatten)

/-- The destinations for packets that arrive at an endpoint. -/
def destinationsAt (n : Network) (p : Endpoint) : List Destination :=
  (n.tables.filter (·.router.id = p.router)).flatMap (·.destinationsFrom p.interface)

/-- The endpoints of all routers. -/
def endpoints (n : Network) : List Endpoint :=
  n.routers.flatMap fun r => r.interfaces.map fun i => ⟨r.id, i.name⟩

end Network

end MplsReach
