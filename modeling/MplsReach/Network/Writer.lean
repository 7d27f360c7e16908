/-
Writing a network as two documents.

* `Network.documents`: the elements of the topology and of the routing, or the first fault.
* `Network.writePretty`, `Network.writePlain`: their texts.

A name cannot be written if it is missing or holds a character that documents do not; an action that
does nothing is left out.
-/
import MplsReach.Network.Basic
import MplsReach.Xml.Character
import MplsReach.Xml.Writer

namespace MplsReach

open Xml (Element)

/-- An attribute; its value may hold characters of documents only. -/
def Xml.attribute (name value : String) : Except Fault (String × String) :=
  if value.toList.all Xml.isDocumentChar then .ok (name, value) else .error .badValue

/-- An attribute whose value has to be there. -/
def written (name : String) : Option String → Except Fault (String × String)
  | some value => Xml.attribute name value
  | none => .error .wrongKind

/-! ### Topology -/

/-- A router with its interfaces. -/
def Router.element (r : Router) : Except Fault Element := do
  let name ← written "name" r.name
  let interfaces ← r.interfaces.mapM fun i => do
    pure (Element.mk "interface" [← written "name" i.name] [])
  pure (.mk "router" [name] [.mk "interfaces" [] interfaces])

/-- One side of a link. -/
def Endpoint.element (p : Endpoint) : Except Fault Element := do
  pure (.mk "shared_interface"
    [← written "router" p.router.name, ← written "interface" p.interface] [])

/-- A link; its target is written first. -/
def Link.element (l : Link) : Except Fault Element := do
  let target ← l.target.element
  let source ← l.source.element
  pure (.mk "link" [] [.mk "sides" [] [target, source]])

/-- The topology of a network. -/
def Network.topologyElement (n : Network) : Except Fault Element := do
  let routers ← n.routers.mapM Router.element
  let links ← n.links.mapM Link.element
  pure (.mk "network" [] [.mk "routers" [] routers, .mk "links" [] links])

/-! ### Routing -/

/-- An action, if it is written at all. -/
def Action.element? : Action → Except Fault (Option Element)
  | .push l => do pure (some (.mk "action" [("type", "push"), ← Xml.attribute "arg" l.name] []))
  | .swap l => do pure (some (.mk "action" [("type", "swap"), ← Xml.attribute "arg" l.name] []))
  | .pop => .ok (some (.mk "action" [("type", "pop")] []))
  | .noop => .ok none
  | .unknown => .error .unwritableAction

/-- A rule with its actions. -/
def Rule.element (r : Rule) : Except Fault Element := do
  let target ← written "to" r.target
  let actions ← r.actions.mapM Action.element?
  pure (.mk "route" [target] [.mk "actions" [] (actions.filterMap id)])

/-- A group of rules. -/
def Group.element (g : Group) : Except Fault Element := do
  pure (.mk "te-group" [] [.mk "routes" [] (← g.mapM Rule.element)])

/-- A destination; an absent label is written as an empty one. -/
def Destination.element (d : Destination) : Except Fault Element := do
  let source ← written "from" d.source
  let label ← Xml.attribute "label" (d.label.name?.getD "")
  let groups ← d.groups.mapM Group.element
  pure (.mk "destination" [source, label] [.mk "te-groups" [] groups])

/-- The table of a router. -/
def Table.element (t : Table) : Except Fault Element := do
  let router ← written "for" t.router.name
  let destinations ← t.destinations.mapM Destination.element
  pure (.mk "routing" [router] [.mk "destinations" [] destinations])

/-- The routing of a network. -/
def Network.routingElement (n : Network) : Except Fault Element := do
  pure (.mk "routes" [] [.mk "routings" [] (← n.tables.mapM Table.element)])

/-! ### Networks -/

/-- The topology and the routing of a network. -/
def Network.documents (n : Network) : Except Fault (Element × Element) := do
  let topology ← n.topologyElement
  let routing ← n.routingElement
  pure (topology, routing)

/-- The two documents, one element a line. -/
def Network.writePretty (n : Network) : Except Fault (String × String) := do
  let (topology, routing) ← n.documents
  pure (topology.pretty, routing.pretty)

/-- The two documents without layout, in ASCII. -/
def Network.writePlain (n : Network) : Except Fault (String × String) := do
  let (topology, routing) ← n.documents
  pure (topology.plain, routing.plain)

end MplsReach
