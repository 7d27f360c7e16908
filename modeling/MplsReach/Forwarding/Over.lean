/-
Forwarding with a bound on the failures at each hop.

* `Network.overForwarding`: a packet may use any rule on entering, and afterwards those rules that
  at most `k` rules take precedence over; failures at different hops are not added up.
-/
import MplsReach.Forwarding.Hop

namespace MplsReach.Network

/-- The ways into the network. -/
def overEntries (n : Network) : List (Transition (Hop Unit) StackSymbol) :=
  n.endpoints.flatMap fun p => (n.offersAt p).map (·.enter p.router ())

/-- The ways over the links. -/
def overCrossings (n : Network) (k : Int) : List (Transition (Hop Unit) StackSymbol) :=
  n.crossings.flatMap fun (left, arrived) =>
    ((n.offersAt arrived).filter fun o => o.before ≤ k).map fun o =>
      o.cross (.at left [] ()) arrived.router ()

/-- Forwarding with at most `k` failures at each hop but the first. -/
def overForwarding (n : Network) (k : Int) : Except Fault (Pda (Hop Unit) StackSymbol) :=
  forwarding (n.overEntries ++ n.overCrossings k) (n.endpoints.map (exit · ()))

end MplsReach.Network
