/-
Collected dumps as networks.

* `Dump.toNetwork`: a rule for labelled packets holds on every interface of its router, one for
  other packets on its own interface; rules of one weight form a group, and lower weights come
  first.
-/
import MplsReach.Dump.Table
import MplsReach.Network.Basic

namespace MplsReach.Dump

/-! ### Routers and links -/

/-- The identity of a router. -/
def routerId (name : Option String) : RouterId := ⟨"", name⟩

/-- A router with one more interface, unless it has it. -/
def addEndpoint (routers : List MplsReach.Router) (router name : Option String) :
    List MplsReach.Router :=
  match Dictionary.get? MplsReach.Router.id (routerId router) routers with
  | some r => Dictionary.put MplsReach.Router.id (r.addInterface ⟨name, false⟩) routers
  | none => routers ++ [MplsReach.Router.addInterface ⟨routerId router, []⟩ ⟨name, false⟩]

/-- The endpoint that an interface becomes. -/
def endpointOf (t : Topology) (i : InterfaceId) : Endpoint :=
  match t.interface? i with
  | some i => ⟨routerId i.router, i.name⟩
  | none => ⟨routerId none, none⟩

/-- Both ends of a link as interfaces. -/
def addLink (t : Topology) (routers : List MplsReach.Router) (l : Link) : List MplsReach.Router :=
  [l.source, l.target].foldl (fun routers i =>
    match t.interface? i with
    | some i => addEndpoint routers i.router i.name
    | none => routers) routers

/-- The interfaces of a router: those of its links, then all others. -/
def addRouter (t : Topology) (routers : List MplsReach.Router) (r : Router) :
    List MplsReach.Router :=
  let routers := r.links.foldl (addLink t) routers
  r.interfaces.foldl (fun routers i => addEndpoint routers r.name i.1) routers

/-- The routers with the interfaces that they or their neighbours name. -/
def routersOf (t : Topology) : List MplsReach.Router :=
  let built := t.routers.foldl (addRouter t) []
  t.routers.map fun r =>
    (Dictionary.get? MplsReach.Router.id (routerId r.name) built).getD ⟨routerId r.name, []⟩

/-- The links, in the order of the routers that they were made at. -/
def linksOf (t : Topology) : List MplsReach.Link :=
  t.routers.flatMap fun r => r.links.map fun l => ⟨endpointOf t l.source, endpointOf t l.target⟩

/-! ### Tables -/

/-- A rule at its destination, with its weight. -/
structure Weighted where
  source : Option String
  label : Label
  weight : Key
  rule : MplsReach.Rule
deriving DecidableEq, Repr

/-- The key of the destination. -/
def Weighted.key (w : Weighted) : Option String × Label := (w.source, w.label)

/-- The label that a label becomes. -/
def label (d : Dump) (l : LabelId) : Label :=
  match d.labelName? l with
  | some name => .named name
  | none => .absent .nameless

/-- An action with its label. -/
def action (d : Dump) : Action → MplsReach.Action
  | .push l => .push (d.label l)
  | .swap l => .swap (d.label l)
  | .pop => .pop
  | .alien => .unknown

/-- An interface that a router has to have. -/
def requireEndpoint (r : MplsReach.Router) (name : Option String) : Except Fault Unit :=
  if r.hasInterface name then .ok () else .error (.unknownName name)

/-- The rules that a rule becomes. -/
def weighted (d : Dump) (router : MplsReach.Router) (r : Rule) :
    Except Fault (List Weighted) := do
  let out := d.topology.interfaceName r.out
  let rule : MplsReach.Rule := ⟨out, r.actions.map d.action⟩
  match r.arrival with
  | .labelled l =>
    if router.interfaces.isEmpty then pure []
    else
      requireEndpoint router out
      pure (router.interfaces.map fun i => ⟨i.name, d.label l, r.weight.key, rule⟩)
  | .ethernet i =>
    requireEndpoint router i
    requireEndpoint router out
    pure [⟨i, .absent .unwritten, r.weight.key, rule⟩]

/-- The destination of a key, with a group for each weight. -/
def destinationOf (rules : List Weighted) (key : Option String × Label) :
    Except Fault MplsReach.Destination := do
  let own := rules.filter (·.key = key)
  let weights ← Key.ascending (Text.distinct (own.map (·.weight)))
  pure ⟨key.1, key.2, weights.map fun w => (own.filter (·.weight = w)).map (·.rule)⟩

/-- The destinations of rules, in the order in which they are first named. -/
def destinationsOf (rules : List Weighted) : Except Fault (List MplsReach.Destination) :=
  (Text.distinct (rules.map Weighted.key)).mapM (destinationOf rules)

/-- The table that a table becomes. -/
def table (d : Dump) (routers : List MplsReach.Router) (t : Table) :
    Except Fault MplsReach.Table := do
  let router := (Dictionary.get? MplsReach.Router.id (routerId t.router) routers).getD
    ⟨routerId t.router, []⟩
  let rules ← t.rules.mapM (d.weighted router)
  pure ⟨router, ← destinationsOf rules.flatten⟩

/-- The network that collected dumps describe. -/
def toNetwork (d : Dump) : Except Fault Network := do
  let routers := routersOf d.topology
  let tables ← d.tables.mapM (d.table routers)
  pure ⟨routers, linksOf d.topology, tables⟩

end MplsReach.Dump
