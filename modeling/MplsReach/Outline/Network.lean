/-
Outlines of a whole network.

* `Network.outlineAll`: from every interface of every router.
* `Network.outlineChain`: along a chain of routers with the interfaces that a query asks for.
* `Outlining.actionChain`: the nodes of a chain of actions behind an interface.
* `Network.outlineReport`, `Network.actionChainReport`: what they come to.
-/
import MplsReach.Network.Basic
import MplsReach.Outline.Basic
import MplsReach.Report.Shown

namespace MplsReach

/-- Which construction is outlined. -/
inductive Layout where
  /-- Every interface is a start. -/
  | everywhere
  /-- The query is a chain of routers. -/
  | alongChain
deriving DecidableEq, Repr

/-- A router of a chain, with the interfaces by which it is entered and left, as they are written; a
star stands for any interface. -/
structure Stop where
  router : Value
  entry : Value
  exit : Value

/-- The stop that is written as a list. -/
def Stop.ofValue (v : Value) : Stop := ⟨v.item 0, v.item 1, v.item 2⟩

/-- Whether a name, which may be missing, is the one that is written. -/
def isWritten (v : Value) (name : Option String) : Bool :=
  match v with
  | .nothing => name.isNone
  | .text s => name = some s
  | _ => false

/-- Whether an interface is one that is asked for. -/
def matchesInterface (asked : Value) (i : Interface) : Bool :=
  asked.text? = some "*" || isWritten asked i.name

/-! ### Labels -/

/-- The labels as stack symbols. Labels of a network have none, so all that is known is that a
network without labels has no symbols. -/
def Network.hasSymbols (n : Network) : Except Fault Unit := do
  if !(← n.labels).isEmpty then throw .missingPart

/-- The stack symbol of a label: where there are symbols at all no label has one, and otherwise each
label stands for itself. -/
def symbolOf (n : Network) (l : Label) : Except Fault Unit :=
  match n.hasSymbols with
  | .error _ => .ok ()
  | .ok _ => .error (if l.isNamed then .unknownName none else .missingPart)

/-- What is known of the stack symbols of a network. -/
def Network.symbolReport (n : Network) : Value :=
  .ofExcept do
    n.hasSymbols
    pure (.record
      [("labels", .list []), ("lookup", .failure (.unknownName (some "x"))),
       ("nolabel", .failure .missingPart), ("label", .failure (.unknownName none))])

namespace Outlining

/-- The node of an interface. -/
def interfaceNode (r : Router) (i : Interface) (more : List String) : Outlining Unit :=
  node ("_".intercalate (Text.showOption r.name :: Text.showOption i.name :: more))

/-- The node of an interface behind which actions are left to do. -/
def actionNode (router interface fails : String) (as : List Action) : Outlining String := do
  let name := "_".intercalate [router, interface, fails, Action.tags as]
  node name
  pure name

/-- The nodes of a chain of actions: one for each action and one behind the last. -/
def actionChain (layout : Layout) (n : Network) (router interface fails : String) :
    List Action → Outlining String
  | [] => actionNode router interface fails []
  | a :: as => do
    let _ ← actionNode router interface fails (a :: as)
    match a, layout with
    | .push l, _ | .swap l, _ =>
      match symbolOf n l with
      | .ok _ => pure ()
      | .error f => throw f
    | .pop, .alongChain => pure ()
    | _, _ => throw .missingPart
    let _ ← actionChain layout n router interface fails as
    silent

end Outlining

namespace Network

/-- A router by its name. -/
def routerNamed (n : Network) (name : Value) : Outlining Router :=
  match n.routers.find? fun r => isWritten name r.name with
  | some r => pure r
  | none => throw (if name.key?.isSome then .unknownName name.text? else .wrongKind)

/-- The numbers of failures up to a bound, as they stand in names. Only a whole number is a bound
that can be counted up to. -/
def failures (k : Value) : Outlining (List String) :=
  match k with
  | .number _ | .flag _ => pure ((List.range (k.asInt + 1).toNat).map toString)
  | _ => throw .wrongKind

/-- The outline from every interface: it stops at the first one. -/
def outlineAll (n : Network) (k : Value) : Outlining Unit := do
  for r in n.routers do
    for i in r.interfaces do
      Outlining.node "simstart"
      Outlining.interfaceNode r i []
      Outlining.silent
  for _ in n.links do
    for _ in ← failures k do
      throw .missingPart
  throw .missingPart

/-- The outline along a chain: it starts at the first router, crosses the links, stays at the
interfaces that are asked for, and forwards. It stops at the first transition. -/
def outlineChain (n : Network) (chain : List Stop) (k : Value) : Outlining Unit := do
  match chain with
  | [] => throw .outOfRange
  | first :: _ =>
    let r ← n.routerNamed first.router
    for i in r.interfaces.filter (matchesInterface first.entry) do
      Outlining.node "simstart"
      Outlining.interfaceNode r i []
      Outlining.silent
    for _ in n.links do
      for _ in ← failures k do
        throw .missingPart
    for stop in chain do
      let r ← n.routerNamed stop.router
      for i in r.interfaces.filter (matchesInterface stop.entry) do
        Outlining.interfaceNode r i []
        Outlining.silent
      for i in r.interfaces.filter (matchesInterface stop.exit) do
        for b in ← failures k do
          Outlining.interfaceNode r i [b, Action.tags []]
          Outlining.silent
    throw .missingPart

/-- What an outline of a network comes to; no variables are kept behind it. -/
def outlined (n : Network) (settled : Bool) (x : Outlining Value) : Value :=
  let (outcome, o) := x.outline ⟨settled, .start⟩
  .record (("translator", n.symbolReport) :: ("kept", .list []) :: o.report (.ofExcept outcome))

/-- What the outline of a network comes to. -/
def outlineReport (n : Network) (settled : Bool) (layout : Layout) (chain : List Stop)
    (k : Value) : Value :=
  n.outlined settled do
    match k with
    | .number _ | .flag _ | .real _ => pure ()
    | _ => throw .wrongKind
    match layout with
    | .everywhere => n.outlineAll k
    | .alongChain => n.outlineChain chain k
    pure .nothing

/-- What the outline of a chain of actions comes to. -/
def actionChainReport (n : Network) (settled : Bool) (layout : Layout)
    (router interface : String) (fails : Value) (actions : Except Fault (List Action)) : Value :=
  n.outlined settled do
    match actions with
    | .error f => throw f
    | .ok as =>
      if fails.key?.isNone then throw .wrongKind
      pure (.text (← Outlining.actionChain layout n router interface fails.shown as))

end Network

end MplsReach
