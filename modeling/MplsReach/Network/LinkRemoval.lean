/-
The networks that are left when one link fails for good.

* `Network.withoutLink`: a network without one link, its arrivals and the rules that leave by it.
* `Network.Origin`: where a network was read, after which the files for its links are named.
* `Network.writeVariants`: the files that hold those networks, one directory a link, up to the first
  fault.
-/
import MplsReach.FileTree
import MplsReach.Network.Writer

namespace MplsReach

/-- A destination without the rules that leave by an interface. -/
def Destination.withoutExit (i : Option String) (d : Destination) : Destination :=
  { d with groups := d.groups.map fun g => g.filter (·.target ≠ i) }

/-- A table without the destinations that arrive on an interface and the rules that leave by it. -/
def Table.withoutInterface (i : Option String) (t : Table) : Table :=
  { t with destinations :=
      (t.destinations.filter (·.source ≠ i)).map (·.withoutExit i) }

namespace Network

/-- A network without the use of an endpoint; its router has to have a table. -/
def withoutEndpoint (n : Network) (p : Endpoint) : Except Fault Network :=
  if n.tables.any (·.router.id = p.router) then
    .ok { n with tables := n.tables.map fun t =>
            if t.router.id = p.router then t.withoutInterface p.interface else t }
  else .error (.unknownName none)

/-- A network without its link at a position. -/
def withoutLink (n : Network) (i : Nat) (l : Link) : Except Fault Network := do
  let n ← n.withoutEndpoint l.source
  let n ← n.withoutEndpoint l.target
  pure { n with links := n.links.eraseIdx i }

/-- Where a network was read: the folders of its two documents and their names there. -/
structure Origin where
  topologyFolder : String
  topologyName : String
  routingFolder : String
  routingName : String
deriving DecidableEq, Repr

/-- Both documents in one folder, under their usual names. -/
def Origin.inFolder (folder : String) : Origin := ⟨folder, "topo.xml", folder, "routing.xml"⟩

/-- The directory for a link, named after the folder that a document was read from. -/
def variantDirectory (folder : String) (l : Link) : String := plainPath (folder ++ "_" ++ l.label)

/-- The path of the topology without a link. -/
def Origin.topologyPath (o : Origin) (l : Link) : String :=
  variantDirectory o.topologyFolder l ++ "/" ++ o.topologyName

/-- The path of the routing without a link. -/
def Origin.routingPath (o : Origin) (l : Link) : String :=
  variantDirectory o.routingFolder l ++ "/" ++ o.routingName

/-- The two files for one link. -/
def variant (n : Network) (o : Origin) (i : Nat) (l : Link) :
    Except Fault (List (String × String)) := do
  let (topology, routing) ← (← n.withoutLink i l).writePretty
  pure [(o.topologyPath l, topology), (o.routingPath l, routing)]

/-- The files for one link. Only the directory of the topology is made if it is missing. -/
def writeVariant (n : Network) (o : Origin) (t : FileTree) (i : Nat) (l : Link) :
    FileTree × Option Fault :=
  match n.variant o i l with
  | .error f => (t, some f)
  | .ok files =>
    match t.ensureDirectory (variantDirectory o.topologyFolder l) with
    | (t, none) => t.writeAll files
    | (t, some f) => (t, some f)

/-- The files for the links from a position on. -/
def writeVariantsFrom (n : Network) (o : Origin) :
    Nat → List Link → FileTree → FileTree × Option Fault
  | _, [], t => (t, none)
  | i, l :: ls, t =>
    match n.writeVariant o t i l with
    | (t, none) => writeVariantsFrom n o (i + 1) ls t
    | (t, some f) => (t, some f)

/-- The files for all links of a network that was read somewhere, and the fault that ended the work
if there was one. What was written before stays. -/
def writeVariantsOf (n : Network) (o : Origin) (t : FileTree) : FileTree × Option Fault :=
  n.writeVariantsFrom o 0 n.links t

/-- The files for all links of a network that was read from one folder. -/
def writeVariants (n : Network) (folder : String) (t : FileTree) : FileTree × Option Fault :=
  n.writeVariantsOf (.inFolder folder) t

end Network

end MplsReach
