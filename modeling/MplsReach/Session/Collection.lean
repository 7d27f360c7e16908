/-
Sessions in which routers, interfaces, labels and rules are collected by hand.

* `Collection`: what is collected, with the labels and rules that commands refer to by a key.
* `Collection.step`: the commands.
* `Wording`: what things without a written form of their own are shown as.
-/
import MplsReach.Dump.Conversion
import MplsReach.Report.Dump
import MplsReach.Report.Network
import MplsReach.Session.Basic

namespace MplsReach.Session

/-- What labels and interfaces are shown as inside of texts. -/
structure Wording where
  label : String
  interface : String

/-- What is collected in a session. -/
structure Collection where
  dump : Dump
  labels : List (Key × Dump.LabelId)
  /-- The rules, each with the number of rules that were made before it. -/
  rules : List (Key × Nat × Dump.Rule)
  made : Nat

namespace Collection

/-- Nothing is collected. -/
def empty : Collection := ⟨.ofTopology .empty, [], [], 0⟩

/-- Another topology. -/
def withTopology (t : Dump.Topology) (c : Collection) : Collection :=
  { c with dump := { c.dump with topology := t } }

/-- The router of a name, a new one where there is none. -/
def router (name : Value) : Step Collection (Option String) := do
  modify fun c => c.withTopology (c.dump.topology.ensureRouter name.text?)
  pure name.text?

/-- The interface of a router. -/
def interface (router : Option String) (name : Value) : Step Collection Dump.InterfaceId := do
  attempt ((← get).dump.topology.find router name.text?)

/-- The label under a key. -/
def label (id : Value) : Step Collection Dump.LabelId := do find (← get).labels id

/-- The rule under a key, with its number. -/
def rule (id : Value) : Step Collection (Nat × Dump.Rule) := do find (← get).rules id

/-- An action, given by its kind and the key of its label. -/
def action (v : Value) : Step Collection Dump.Action := do
  match (v.item 0).asText with
  | "pop" => pure .pop
  | "push" => pure (.push (← label (v.item 1)))
  | "swap" => pure (.swap (← label (v.item 1)))
  | _ =>
    let _ ← label (v.item 1)
    pure .alien

/-- A rule is added to the table of a router, which must have one. -/
def addRule (router : Option String) (rule : Dump.Rule) : Step Collection Unit := do
  let c ← get
  if c.dump.tables.any (·.router = router) then
    set { c with dump := c.dump.addRule router rule }
  else throw (.unknownName none)

/-- A new rule. -/
def makeRule (id : Value) (router : Option String) (rule : Dump.Rule) : Step Collection Unit := do
  let k ← keyOf id
  modify fun c => { c with rules := keep k (c.made, rule) c.rules, made := c.made + 1 }
  addRule router rule

/-- An interface that is given by its name, which has to be a text. -/
def interfaceNamed (router : Option String) (name : Value) : Step Collection Dump.InterfaceId :=
  match name with
  | .text _ => interface router name
  | _ => throw .missingPart

/-- A weight. -/
def weight (v : Value) : Scalar := v.scalar?.getD .nothing

/-- An interface is connected to another one, or only leaves its router. -/
def connect (router : Option String) (source : Dump.InterfaceId)
    (target : Option Dump.InterfaceId) : Step Collection Value := do
  let t ← attempt ((← get).dump.topology.connect router source target)
  change (withTopology t)

/-- The link at an interface of a router. -/
def link (r i : Value) : Step Collection Dump.Link := do
  let r ← router r
  let i ← interface r i
  match (← get).dump.topology.linkFrom? r i with
  | some l => pure l
  | none => throw (.unknownName none)

/-- One command. -/
def step (w : Wording) (command : Value) : Step Collection Value := do
  let arg := command.item
  match (arg 0).asText with
  | "router" => pure (.text (Text.showOption (← router (arg 1))))
  | "get_router" =>
    let r ← attempt ((← get).dump.topology.router (arg 1).text?)
    pure (.text (Text.showOption r.name))
  | "iface" =>
    let r ← router (arg 1)
    change fun c => c.withTopology (c.dump.topology.addInterface r (arg 2).text?).1
  | "iface_get" =>
    let r ← router (arg 1)
    let (t, i) := (← get).dump.topology.ensureInterface r (arg 2).text?
    modify (withTopology t)
    pure (.optional (t.interfaceName i))
  | "connect" =>
    let r ← router (arg 1)
    let r' ← router (arg 3)
    let target ← interface r' (arg 4)
    let source ← interfaceNamed r (arg 2)
    connect r source (some target)
  | "connect_obj" =>
    let r ← router (arg 1)
    let source ← interface r (arg 2)
    let r' ← router (arg 3)
    let target ← interface r' (arg 4)
    connect r source (some target)
  | "half" =>
    let r ← router (arg 1)
    let source ← interfaceNamed r (arg 2)
    connect r source none
  | "link" =>
    let l ← link (arg 1) (arg 2)
    pure ((← get).dump.topology.linkReport l)
  | "str_link" =>
    let _ ← link (arg 1) (arg 2)
    pure (.text (w.interface ++ " -> " ++ w.interface))
  | "label" =>
    let k ← keyOf (arg 1)
    change fun c =>
      let (d, l) := c.dump.addLabel (arg 2).text?
      { c with dump := d, labels := keep k l c.labels }
  | "table" =>
    let r ← router (arg 1)
    change fun c => { c with dump := c.dump.startTable r }
  | "rule" =>
    let l ← label (arg 3)
    let r ← router (arg 2)
    let out ← interface r (arg 4)
    let actions ← (arg 5).items.mapM action
    makeRule (arg 1) r ⟨.labelled l, out, actions, weight (arg 6)⟩
    pure .nothing
  | "eth" =>
    let r ← router (arg 2)
    let out ← interface r (arg 4)
    let actions ← (arg 5).items.mapM action
    makeRule (arg 1) r ⟨.ethernet (arg 3).text?, out, actions, weight (arg 6)⟩
    pure .nothing
  | "again" =>
    let (_, rule) ← rule (arg 1)
    addRule (← router (arg 2)) rule
    pure .nothing
  | "eq" =>
    let (m, r) ← rule (arg 1)
    let (n, s) ← rule (arg 2)
    pure (.flag (← attempt (r.equal (m == n) s)))
  | "str_rule" =>
    let (_, r) ← rule (arg 1)
    pure (.text (← attempt ((← get).dump.describeRule w.label r)))
  | "action" =>
    let a ← action (arg 1)
    if a = .alien then throw .missingPart
    let d := (← get).dump
    pure (.list [.text (a.describe w.label), .list (a.label?.map d.labelReport).toList])
  | "clone" =>
    let a ← action (arg 1)
    if a = .alien then throw (.refused .unknownAction)
    pure (.text a.className)
  | "collect" =>
    if (← get).dump.tables.all (·.rules.isEmpty) then pure (.list []) else throw .missingPart
  | "dump" => pure (← get).dump.tableReport
  | "fixup" =>
    let (d, f) := (← get).dump.markBottoms
    modify fun c => { c with dump := d }
    pure (.list [.ofFault f, d.tableReport])
  | "convert" => pure (← attempt (← get).dump.toNetwork).report
  | _ => pure .nothing

end Collection

end MplsReach.Session
