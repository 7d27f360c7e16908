/-
Networks nested in themselves: copies of a network take the place of two of its links.

* `Network.copyAs`: a copy of a network under a name.
* `Network.inject`: a copy put into the link at the entry router, and that copy.
* `Network.nest`, `Network.nestTo`: copies within copies to a depth.

The link that a copy is put into has a router whose name ends in `s2` at one end, with an interface
whose name ends in the suffix; the copy is entered at its router that ends in `s1` and left at the
one that ends in `s7`, both by the interface `i1`.
-/
import MplsReach.Network.Basic
import MplsReach.Scalar

namespace MplsReach

/-- The same router in a copy. -/
def RouterId.copyAs (copy : String) (r : RouterId) : RouterId := ⟨copy, r.base⟩

/-- The same endpoint in a copy. -/
def Endpoint.copyAs (copy : String) (p : Endpoint) : Endpoint := ⟨p.router.copyAs copy, p.interface⟩

/-- The same router with its interfaces in a copy. -/
def Router.copyAs (copy : String) (r : Router) : Router := { r with id := r.id.copyAs copy }

namespace Network

/-- A copy of a network under a name. -/
def copyAs (copy : String) (n : Network) : Network where
  routers := Dictionary.putAll Router.name [] (n.routers.map (·.copyAs copy))
  links := n.links.map fun l => ⟨l.source.copyAs copy, l.target.copyAs copy⟩
  tables := n.tables.map fun t => { t with router := t.router.copyAs copy }

/-- Whether a name ends in a suffix; a missing name has no end. -/
def endsIn (suffix : String) : Option String → Except Fault Bool
  | some s => .ok (s.endsWith suffix)
  | none => .error .missingPart

/-- Whether an endpoint belongs to the entry router and leads to the suffix. -/
def isEntry (suffix : String) (p : Endpoint) : Except Fault Bool := do
  if ← endsIn "s2" p.router.name then endsIn suffix p.interface else pure false

/-- Whether one end of a link is at the entry router and leads to the suffix. -/
def isEntryLink (suffix : String) (l : Link) : Except Fault Bool := do
  if ← isEntry suffix l.source then pure true else isEntry suffix l.target

/-- The links before the first one at the entry router, that link, and the links after it. -/
def entryLink (suffix : String) : List Link → Except Fault (List Link × Link × List Link)
  | [] => .error (.refused .noLinkAtEntry)
  | l :: ls => do
    if ← isEntryLink suffix l then pure ([], l, ls)
    else
      let (before, found, after) ← entryLink suffix ls
      pure (l :: before, found, after)

/-- The first router whose name ends in a suffix. -/
def routerEndingIn (suffix : String) (n : Network) : Except Fault Router := do
  let ends ← n.routers.mapM fun r => do pure (r, ← endsIn suffix r.name)
  match ends.find? (·.2) with
  | some (r, _) => pure r
  | none => .error .exhausted

/-- The interface by which a copy is entered and left. -/
def gateway (r : Router) : Except Fault Endpoint :=
  if r.hasInterface (some "i1") then .ok ⟨r.id, some "i1"⟩ else .error (.unknownName (some "i1"))

/-- A copy of the base put into the link of a network at the entry router; the copy ends with the
link back. -/
def inject (base n : Network) (suffix copy : String) : Except Fault (Network × Network) := do
  let sub := base.copyAs copy
  let (before, link, after) ← entryLink suffix n.links
  let entry ← routerEndingIn "s1" sub
  let exit ← routerEndingIn "s7" sub
  let entryEndpoint ← gateway entry
  let exitEndpoint ← gateway exit
  pure ({ n with links := before ++ { link with target := entryEndpoint } :: after },
    { sub with links := sub.links ++ [⟨exitEndpoint, link.target⟩] })

/-- The routers, links and tables of a second network added to a first. -/
def merge (n m : Network) : Network where
  routers := Dictionary.putAll Router.name n.routers m.routers
  links := n.links ++ m.links
  tables := Dictionary.putAll (·.router.id) n.tables m.tables

/-- Copies of the base within a network to a depth; `copy` names the network. -/
def nestWithin (base : Network) : Nat → Network → String → Except Fault Network
  | 0, n, _ => .ok n
  | depth + 1, n, copy => do
    let (n, third) ← inject base n "s3" ("s3" ++ copy)
    let (n, fourth) ← inject base n "s4" ("s4" ++ copy)
    let third ← nestWithin base depth third ("s3" ++ copy)
    let fourth ← nestWithin base depth fourth ("s4" ++ copy)
    pure ((n.merge third).merge fourth)

/-- From which depth on copies within copies are taken to have no end. -/
def endlessDepth : Int := 900

/-- A network nested in itself to a depth. Below zero and from a great depth on there is no end once
the first copies have found their places, because every copy offers the same places again. -/
def nest (base : Network) (depth : Int) : Except Fault Network :=
  if depth < 0 ∨ endlessDepth ≤ depth then do
    let (n, _) ← inject base base "s3" "s3_"
    let _ ← inject base n "s4" "s4_"
    .error .endless
  else nestWithin base depth.toNat base "_"

/-- A network nested in itself to a depth that is given as a plain value. A number that is not whole
is never counted down to zero, and anything else is not counted down at all. -/
def nestTo (base : Network) (depth : Scalar) : Except Fault Network :=
  match depth.key with
  | .whole n => base.nest n
  | .real _ => base.nest (-1)
  | .nothing | .text _ => do
    let _ ← base.nest 1
    .error .wrongKind

end Network

end MplsReach
