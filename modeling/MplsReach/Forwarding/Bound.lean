/-
Bounds on failures that are given as plain values.

* `Scalar.ceiling?`: the greatest whole number that a bound admits.
* `Network.overWithin`, `Network.underWithin`: forwarding within such a bound. Counts can be
  compared with numbers only, and only whole numbers can be counted up to.
-/
import MplsReach.Forwarding.Over
import MplsReach.Forwarding.Under
import MplsReach.Scalar

namespace MplsReach

/-- The greatest whole number that is not above a number, or the greatest of all that matter, `top`,
where no number is above it. -/
def Number.Quantity.floorUpTo (top : Int) : Number.Quantity → Int
  | .finite negative b =>
    let (num, den) := Number.Binary.scaled 2 b.exponent b.mantissa 1
    Int.fdiv (if negative then -(num : Int) else (num : Int)) (den : Int)
  | .infinite true => -1
  | .infinite false | .undefined => top

/-- The greatest whole number that a bound admits; `top` stands for all numbers that matter. -/
def Scalar.ceiling? (top : Int) : Scalar → Option Int
  | .number n => some n
  | .flag b => some (if b then 1 else 0)
  | .real q => some (q.floorUpTo top)
  | .nothing | .text _ => none

namespace Network

/-- A number of failures that no way can exceed. -/
def mostFailures (n : Network) : Int := n.ruleCount

/-- Whether some packet that crosses a link finds groups of rules. -/
def hasChoices (n : Network) : Bool :=
  n.crossings.any fun (_, arrived) => (n.destinationsAt arrived).any fun d => !d.groups.isEmpty

/-- Forwarding within a bound at each hop but the first. The bound is looked at where packets cross
links. -/
def overWithin (n : Network) (bound : Scalar) : Except Fault (Pda (Hop Unit) StackSymbol) :=
  match bound.ceiling? n.mostFailures with
  | some k => n.overForwarding k
  | none =>
    if n.hasChoices then do
      let _ ← forwarding n.overEntries []
      .error .wrongKind
    else n.overForwarding 0

/-- Forwarding within a bound on the whole way. The bound is looked at on entering, and then counted
up to. -/
def underWithin (n : Network) (bound : Scalar) : Except Fault (Pda (Hop Nat) StackSymbol) :=
  match bound, bound.ceiling? n.mostFailures with
  | .real _, some k => do
    let _ ← forwarding (n.underEntries k) []
    .error .wrongKind
  | _, some k => n.underForwarding k
  | _, none => .error .wrongKind

end Network

end MplsReach
