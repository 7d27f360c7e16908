/-
Whether a run passes a router twice.

* `endpointsOf`: where the packet is after each step of a run inside of the network.
* `repeatsRouter`: whether a router is left and comes again. Steps that stay at one endpoint are the
  actions of one rule.
-/
import MplsReach.Analysis.Compile

namespace MplsReach

variable {Spent : Type}

/-- The endpoint of a place, if it is one inside of the network. -/
def Place.endpoint? : Place Spent → Option Endpoint
  | .inl (.inr (some (.at p _ _), _)) => some p
  | _ => none

/-- The endpoints that the steps of a run lead to. -/
def endpointsOf (run : List (Transition (Place Spent) StackSymbol)) : List Endpoint :=
  run.filterMap fun t => Place.endpoint? t.target

/-- Whether a router comes again, given the last endpoint and all routers so far. -/
def repeatsAfter (last : Option Endpoint) (routers : List RouterId) : List Endpoint → Bool
  | [] => false
  | p :: ps =>
    if last = some p then repeatsAfter last routers ps
    else if routers.contains p.router then true
    else repeatsAfter (some p) (p.router :: routers) ps

/-- Whether a router comes again. -/
def repeatsRouter (endpoints : List Endpoint) : Bool := repeatsAfter none [] endpoints

end MplsReach
