/-
Reading a network from two documents, one for the topology and one for the routing.

* `Network.read`: the network, or the first fault in the order of the documents.
* `Fault.notice`: the line that is printed before a fault of a network is reported.
-/
import MplsReach.Network.Basic
import MplsReach.Xml.Reader

namespace MplsReach

open Xml (Node)

/-- A child that has to be there. -/
def part (node : Node) (name : String) : Except Fault Node :=
  match node.find? name with
  | some n => .ok n
  | none => .error .missingPart

/-- The line that is printed before a fault is reported: an interface that is not there is told with
its router. -/
def Fault.notice : Fault → Option String
  | .linkInterface router interface =>
    some ("Router " ++ Text.showOption router ++ " does not have an interface " ++
      Text.showOption interface)
  | .arrivalInterface router _ => some ("<Router " ++ Text.quoteOption router ++ "@>")
  | _ => none

/-! ### Topology -/

/-- A router with its interfaces. -/
def Router.read (node : Node) : Except Fault Router := do
  let interfaces ← part node "interfaces"
  let router : Router := ⟨⟨"", node.attribute? "name"⟩, []⟩
  pure ((interfaces.findAll "interface").foldl (fun r i =>
    r.addInterface ⟨i.attribute? "name", i.attribute? "external" = some "yes"⟩) router)

/-- All routers; of two with one name the later one stays, in the place of the first. -/
def readRouters (node : Node) : Except Fault (List Router) := do
  let routers ← (node.findAll "router").mapM Router.read
  pure (Dictionary.putAll Router.name [] routers)

/-- One side of a link. -/
def Endpoint.read (routers : List Router) (node : Node) : Except Fault Endpoint := do
  let name := node.attribute? "router"
  let interface := node.attribute? "interface"
  match Dictionary.get? Router.name name routers with
  | none => .error (.unknownName name)
  | some r =>
    if r.hasInterface interface then pure ⟨r.id, interface⟩
    else .error (.linkInterface r.name interface)

/-- A link; sides after the second are checked and left out. -/
def Link.read (routers : List Router) (node : Node) : Except Fault Link := do
  let sides ← part node "sides"
  match ← (sides.findAll "shared_interface").mapM (Endpoint.read routers) with
  | a :: b :: _ => pure ⟨a, b⟩
  | _ => .error .outOfRange

/-! ### Routing -/

/-- An action. -/
def Action.read (node : Node) : Action :=
  let label := Label.ofArgument (node.attribute? "arg")
  match node.attribute? "type" with
  | some "push" => .push label
  | some "swap" => .swap label
  | some "pop" => .pop
  | none => .noop
  | some _ => .unknown

/-- A rule of a router. -/
def Rule.read (router : Router) (node : Node) : Except Fault Rule := do
  let target := node.attribute? "to"
  if !router.hasInterface target then .error (.unknownName target)
  let actions ← part node "actions"
  pure ⟨target, (actions.findAll "action").map Action.read⟩

/-- A group of rules. -/
def Group.read (router : Router) (node : Node) : Except Fault Group := do
  let routes ← part node "routes"
  (routes.findAll "route").mapM (Rule.read router)

/-- A destination of a router. -/
def Destination.read (router : Router) (node : Node) : Except Fault Destination := do
  let source := node.attribute? "from"
  if !router.hasInterface source then .error (.arrivalInterface router.name source)
  let groups ← part node "te-groups"
  let groups ← (groups.findAll "te-group").mapM (Group.read router)
  pure ⟨source, Label.ofArgument (node.attribute? "label"), groups⟩

/-- The table of a router; of two destinations with one key the later one stays, in the place of
the first. -/
def Table.read (routers : List Router) (node : Node) : Except Fault Table := do
  let name := node.attribute? "for"
  match Dictionary.get? Router.name name routers with
  | none => .error (.unknownName name)
  | some router =>
    let destinations ← part node "destinations"
    let read ← (destinations.findAll "destination").mapM (Destination.read router)
    pure ⟨router, Dictionary.putAll Destination.key [] read⟩

/-! ### Networks -/

/-- The routers and links of a topology. -/
def readTopology (text : String) : Except Fault (List Router × List Link) := do
  let root ← Node.read text
  let routers ← readRouters (← part root "routers")
  let links ← part root "links"
  let links ← (links.findAll "link").mapM (Link.read routers)
  pure (routers, links)

/-- The tables of a routing; of two tables of one router the later one stays, in the place of the
first. -/
def readRouting (routers : List Router) (text : String) : Except Fault (List Table) := do
  let root ← Node.read text
  let routings ← part root "routings"
  let tables ← (routings.findAll "routing").mapM (Table.read routers)
  pure (Dictionary.putAll (·.router.id) [] tables)

/-- A network from its topology and its routing. -/
def Network.read (topology routing : String) : Except Fault Network := do
  let (routers, links) ← readTopology topology
  let tables ← readRouting routers routing
  pure ⟨routers, links, tables⟩

end MplsReach
