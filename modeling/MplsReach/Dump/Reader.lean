/-
The dumps of routers: the neighbours of each router, and its forwarding table.

* `Topology.read`: neighbours, with an interface at each end of the link to a neighbour.
* `Dump.read`: forwarding tables. An entry for a virtual interface (LSI) is no rule of its own: it
  says where the packets of the rules go that leave by that interface.
* `Dump.collect`: everything, with the lowest labels marked.
-/
import MplsReach.Dump.Actions
import MplsReach.Dump.Addresses
import MplsReach.Dump.Table
import MplsReach.Text.Integer
import MplsReach.Text.Lowercase
import MplsReach.Text.Quoted
import MplsReach.Text.WordCharacter
import MplsReach.Xml.Reader

namespace MplsReach.Dump

/-- A file: its name and its text. -/
structure File where
  name : String
  text : String
deriving Repr

/-- The name of the router that a file belongs to. -/
def File.router (f : File) : Option String := some (Text.withoutEnding f.name)

/-- The root of the document in a file, in no name space. -/
def File.root (f : File) : Except Fault Xml.Node := do
  (← Xml.Node.read f.text).withoutSpaces

/-- The first child of a name, which has to be there. -/
def child (name : String) (n : Xml.Node) : Except Fault Xml.Node :=
  match n.find? name with
  | some c => .ok c
  | none => .error .missingPart

/-- The name of the interface for the link from an interface of another router. -/
def peerName (router interface : Option String) : Option String :=
  some (Text.showOption router ++ "_" ++ Text.showOption interface)

/-! ### Neighbours -/

/-- The name of a system without the number of its routing engine. -/
def systemName (s : String) : String :=
  let back := s.toList.reverse
  let (ending, back) := match back with
    | '\n' :: rest => (['\n'], rest)
    | _ => ([], back)
  match back with
  | d :: 'e' :: 'r' :: '-' :: rest =>
    if Text.isDecimal d then String.ofList (rest.reverse ++ ending) else s
  | _ => s

/-- A link to one neighbour. -/
def Topology.readNeighbour (router : Option String) (t : Topology) (n : Xml.Node) :
    Except Fault Topology := do
  let system := n.find? "system-name"
  let interface ← child "interface-name" n
  let name := interface.leadingText?
  let (t, source) := t.addInterface router name
  let some system := system | .error .missingPart
  let some neighbour := system.leadingText? | .error .wrongKind
  let neighbour := some (systemName neighbour)
  let t := t.ensureRouter neighbour
  let (t, target) := t.addInterface neighbour (peerName router name)
  t.connect router source (some target)

/-- The neighbours of one router. -/
def Topology.readFile (t : Topology) (f : File) : Except Fault Topology := do
  let t := t.ensureRouter f.router
  let information ← child "isis-adjacency-information" (← f.root)
  (information.findAll "isis-adjacency").foldlM (Topology.readNeighbour f.router) t

/-- The neighbours of all routers. -/
def Topology.read (files : List File) : Except Fault Topology :=
  files.foldlM Topology.readFile .empty

/-! ### Forwarding tables -/

/-- What a virtual interface stands for. -/
structure Virtual where
  interface : String
  out : InterfaceId
  actions : List Action
  weight : Int
deriving Repr

/-- What is read of the table of one router. -/
structure Reading where
  dump : Dump
  virtuals : List Virtual

/-- The interface that a next hop leaves by, with a link to the next router if it has none. -/
def nextHop (addresses : List (String × String)) (router : Option String) (via : String)
    (address : Option String) (t : Topology) : Except Fault (Topology × InterfaceId) := do
  let (t, out) := t.ensureInterface router (some via)
  match address with
  | none => pure (t, out)
  | some address =>
    if (t.linkFrom? router out).isSome then pure (t, out)
    else
      let neighbour := match Dictionary.get? Prod.fst address addresses with
        | some entry => entry.2
        | none => Text.strip address
      let t := t.ensureRouter (some neighbour)
      let (t, target) := t.ensureInterface (some neighbour) (peerName router (some via))
      pure (← t.connect router out (some target), out)

/-- The operations in the type of a next hop. -/
def operations (text : String) : Except Fault (List Operation) :=
  Operation.readAll
    ((Text.cutAt ',' (Text.replace "(top)" "" (Text.lowercase text))).map Text.strip)

/-- Operations as actions on new labels. -/
def addActions : Dump → List Operation → Dump × List Action
  | d, [] => (d, [])
  | d, .pop :: os =>
    let (d, as) := d.addActions os
    (d, .pop :: as)
  | d, .push name :: os =>
    let (d, l) := d.addLabel (some name)
    let (d, as) := d.addActions os
    (d, .push l :: as)
  | d, .swap name :: os =>
    let (d, l) := d.addLabel (some name)
    let (d, as) := d.addActions os
    (d, .swap l :: as)

/-- The weight of a next hop: one if none is written. -/
def weightOf (n : Xml.Node) : Except Fault Int :=
  match n.find? "nh-weight" with
  | none => .ok 1
  | some w =>
    match w.leadingText? with
    | none => .error .wrongKind
    | some text =>
      match Text.readHexadecimal? text with
      | some weight => .ok weight
      | none => .error .badValue

/-- Whether a character may stand in a label. -/
def isLabelCharacter (c : Char) : Bool :=
  Text.isWordCharacter c || c = '=' || c = '(' || c = ')'

/-- Whether a character may start the name of an interface. -/
def isInterfaceCharacter (c : Char) : Bool :=
  Text.isWordCharacter c || c = '.' || c = '/' || c = '-'

/-- What an entry of a table is for. -/
inductive Destination where
  | label (name : String)
  | interface (name : String)
  | virtual (name : String)
deriving DecidableEq, Repr

/-- A destination: a label, or an interface up to the first blank. -/
def Destination.read (text : String) : Except Fault Destination :=
  let cs := text.toList
  if !cs.isEmpty && cs.all isLabelCharacter then .ok (.label text)
  else if cs.head?.any isInterfaceCharacter then
    let name := String.ofList (cs.takeWhile (!Text.isBlank ·))
    if "lsi".toList.isPrefixOf (Text.lowercase name).toList then .ok (.virtual name)
    else .ok (.interface name)
  else .error (.refused .unknownDestination)

/-- One next hop of an entry. -/
def Reading.readHop (addresses : List (String × String)) (router : Option String) (entry : Xml.Node)
    (s : Reading) (n : Xml.Node) : Except Fault Reading := do
  match (n.find? "via").bind (·.leadingText?) with
  | none => pure s
  | some via =>
    let address := (← child "to" n).leadingText?
    let (topology, out) ← nextHop addresses router via address s.dump.topology
    let some kind := (← child "nh-type" n).leadingText? | .error .missingPart
    let operations ← operations kind
    let weight ← weightOf n
    let some destination := (← child "rt-destination" entry).leadingText? | .error .wrongKind
    let (d, actions) := ({ s.dump with topology := topology } : Dump).addActions operations
    match ← Destination.read destination with
    | .label name =>
      let (d, l) := d.addLabel (some name)
      pure { s with dump := d.addRule router ⟨.labelled l, out, actions, .number weight⟩ }
    | .interface name =>
      pure { s with dump := d.addRule router ⟨.ethernet (some name), out, actions, .number weight⟩ }
    | .virtual name =>
      pure ⟨d, s.virtuals ++ [⟨name, out, actions, weight⟩]⟩

/-- One entry of a table. -/
def Reading.readEntry (addresses : List (String × String)) (router : Option String) (s : Reading)
    (entry : Xml.Node) : Except Fault Reading :=
  (entry.findAll "nh").foldlM (Reading.readHop addresses router entry) s

/-- A rule that leaves by a virtual interface goes where that interface leads. -/
def Rule.resolve (t : Topology) (r : Rule) (v : Virtual) : Rule :=
  if t.interfaceName r.out = some v.interface then
    { r with out := v.out, actions := r.actions ++ v.actions, weight := .number v.weight }
  else r

/-- The rules of a router, with virtual interfaces resolved one after the other. -/
def resolve (router : Option String) (d : Dump) (vs : List Virtual) : Dump :=
  { d with tables := d.tables.map fun t =>
      if t.router = router then
        { t with rules := t.rules.map fun r => vs.foldl (Rule.resolve d.topology) r }
      else t }

/-- The forwarding table of one router. -/
def readFile (addresses : List (String × String)) (d : Dump) (f : File) :
    Except Fault Dump := do
  let router := f.router
  let _ ← d.topology.router router
  let information ← child "forwarding-table-information" (← f.root)
  let entries := (information.findAll "route-table").flatMap (·.findAll "rt-entry")
  let s ← entries.foldlM (Reading.readEntry addresses router) ⟨d.startTable router, []⟩
  pure (s.dump.resolve router s.virtuals)

/-- The forwarding tables of all routers. -/
def read (addresses : List (String × String)) (t : Topology) (files : List File) :
    Except Fault Dump :=
  files.foldlM (readFile addresses) (.ofTopology t)

/-- Neighbours and forwarding tables, with the lowest labels marked. -/
def collect (addresses : List (String × String)) (neighbours forwarding : List File) :
    Except Fault Dump := do
  let t ← Topology.read neighbours
  let d ← read addresses t forwarding
  match d.markBottoms with
  | (d, none) => pure d
  | (_, some f) => .error f

/-! ### Names for programs

A program that opens the library finds the type and its reader among the parts of dumps, too.
-/

export MplsReach (Dump)

namespace Dump

export MplsReach.Dump (collect)

end Dump

end MplsReach.Dump
