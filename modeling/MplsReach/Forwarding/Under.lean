/-
Forwarding with a bound on the failures on the whole way.

* `Network.underForwarding`: a packet keeps count of the rules that take precedence over those it
  uses, and their number never exceeds `k`. On entering at an endpoint, the rules behind the first
  one that costs too much are left out.
-/
import MplsReach.Forwarding.Hop

namespace MplsReach.Network

/-- The ways into the network. -/
def underEntries (n : Network) (k : Int) : List (Transition (Hop Nat) StackSymbol) :=
  n.endpoints.flatMap fun p =>
    ((n.offersAt p).takeWhile fun o => o.before ≤ k).map fun o => o.enter p.router o.before

/-- The ways over the links for packets that have spent a number of failures. -/
def underCrossings (n : Network) (k : Int) (spent : Nat) :
    List (Transition (Hop Nat) StackSymbol) :=
  n.crossings.flatMap fun (left, arrived) =>
    ((n.offersAt arrived).filter fun o => ↑(o.before + spent) ≤ k).map fun o =>
      o.cross (.at left [] spent) arrived.router (spent + o.before)

/-- Forwarding with at most `k` failures on the whole way. -/
def underForwarding (n : Network) (k : Int) : Except Fault (Pda (Hop Nat) StackSymbol) :=
  let budgets := List.range (k + 1).toNat
  forwarding (n.underEntries k ++ budgets.flatMap (n.underCrossings k))
    (budgets.flatMap fun spent => n.endpoints.map (exit · spent))

end MplsReach.Network
