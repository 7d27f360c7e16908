/-
Routers, interfaces and links as they are collected from the dumps of routers.

Interfaces are known by number: an interface that is added under the name of another one takes its
place at the router, while links to the old one stay.

* `Topology.addInterface`, `Topology.ensureInterface`: an interface that is always new, and one that
  is new only if the router has none of its name.
* `Topology.connect`: a link between two interfaces; an interface is an end of one link at most.
-/
import MplsReach.Dictionary
import MplsReach.Fault

namespace MplsReach.Dump

/-- The number of an interface. -/
abbrev InterfaceId := Nat

/-- A link, seen from the router that it was made at. -/
structure Link where
  source : InterfaceId
  target : InterfaceId
deriving DecidableEq, Repr

/-- An interface of a router, with the link that it is an end of. -/
structure Interface where
  router : Option String
  name : Option String
  link : Option Link
deriving DecidableEq, Repr

/-- A router with its interfaces by name and the links made at it. -/
structure Router where
  name : Option String
  interfaces : List (Option String × InterfaceId)
  links : List Link
deriving DecidableEq, Repr

/-- Routers, and all interfaces there ever were. -/
structure Topology where
  routers : List Router
  interfaces : List Interface
deriving DecidableEq, Repr

namespace Topology

/-- No routers. -/
def empty : Topology := ⟨[], []⟩

/-- The router of a name. -/
def router? (t : Topology) (name : Option String) : Option Router :=
  Dictionary.get? Router.name name t.routers

/-- The router of a name, which has to be there. -/
def router (t : Topology) (name : Option String) : Except Fault Router :=
  match t.router? name with
  | some r => .ok r
  | none => .error (.unknownName name)

/-- A router of the name is there. -/
def ensureRouter (t : Topology) (name : Option String) : Topology :=
  match t.router? name with
  | some _ => t
  | none => { t with routers := t.routers ++ [⟨name, [], []⟩] }

/-- The interface of a number. -/
def interface? (t : Topology) (i : InterfaceId) : Option Interface := t.interfaces[i]?

/-- The name of the interface of a number. -/
def interfaceName (t : Topology) (i : InterfaceId) : Option String :=
  (t.interface? i).bind (·.name)

/-- The interface of a name at a router. -/
def find? (t : Topology) (router name : Option String) : Option InterfaceId := do
  let r ← t.router? router
  let entry ← Dictionary.get? Prod.fst name r.interfaces
  pure entry.2

/-- The interface of a name at a router, which has to be there. -/
def find (t : Topology) (router name : Option String) : Except Fault InterfaceId :=
  match t.find? router name with
  | some i => .ok i
  | none => .error (.unknownName name)

/-- A router, changed. -/
def modifyRouter (t : Topology) (name : Option String) (f : Router → Router) : Topology :=
  { t with routers := t.routers.map fun r => if r.name = name then f r else r }

/-- An interface, changed. -/
def modifyInterface (t : Topology) (i : InterfaceId) (f : Interface → Interface) : Topology :=
  { t with interfaces := t.interfaces.modify i f }

/-- A new interface, in place of the one of its name if there is one. -/
def addInterface (t : Topology) (router name : Option String) :
    Topology × InterfaceId :=
  let i := t.interfaces.length
  let t := t.modifyRouter router fun r =>
    { r with interfaces := Dictionary.put Prod.fst (name, i) r.interfaces }
  ({ t with interfaces := t.interfaces ++ [⟨router, name, none⟩] }, i)

/-- The interface of a name, a new one if there is none. -/
def ensureInterface (t : Topology) (router name : Option String) :
    Topology × InterfaceId :=
  match t.find? router name with
  | some i => (t, i)
  | none => t.addInterface router name

/-- Whether an interface is an end of a link. -/
def isLinked (t : Topology) (i : InterfaceId) : Bool :=
  ((t.interface? i).bind (·.link)).isSome

/-- A link between an interface and another one, which has to be there. -/
def connect (t : Topology) (router : Option String) (source : InterfaceId)
    (target : Option InterfaceId) : Except Fault Topology :=
  if t.isLinked source then .error (.refused .interfaceTaken)
  else match target with
    | none => .error .missingPart
    | some target =>
      if t.isLinked target then .error (.refused .interfaceTaken)
      else
        let link : Link := ⟨source, target⟩
        let t := t.modifyInterface source fun i => { i with link := some link }
        let t := t.modifyInterface target fun i => { i with link := some link }
        .ok (t.modifyRouter router fun r => { r with links := r.links ++ [link] })

/-- The link made at a router from an interface. -/
def linkFrom? (t : Topology) (router : Option String) (source : InterfaceId) : Option Link := do
  let r ← t.router? router
  r.links.find? (·.source = source)

end Topology

end MplsReach.Dump
