/-
Where a packet is on its way through a network.

* `Hop`: before the network, behind it, or on the way out of an endpoint with actions left to do.
* `Hop.describe`: the name of a hop.
* `Action.op`: an action as an operation on the stack.
* `chains`: the transitions that do the actions of hops, one after the other.
* `Offer`: a rule for arriving packets and the number of rules that take precedence over it.
-/
import MplsReach.Network.Basic
import MplsReach.Pushdown.Basic
import MplsReach.Pushdown.StackSymbol

namespace MplsReach

/-! ### Hops -/

/-- Where a packet is: before the network, behind it, or leaving by an endpoint when the actions are
done. What it has spent on the way is kept along. -/
inductive Hop (Spent : Type) where
  | start
  | finish
  | at (endpoint : Endpoint) (actions : List Action) (spent : Spent)
deriving DecidableEq, Repr, Hashable

namespace Hop

variable {Spent : Type}

/-- The name of a hop: a word, or its parts as a tuple, with the shown form of what is spent. -/
def describe (spent : Spent → List String) : Hop Spent → String
  | start => "simstart"
  | finish => "simend"
  | .at p as e =>
    Text.tuple ([p.router.describe, Interface.describeName p.interface,
      Text.tuple (as.map Action.describe)] ++ spent e)

/-- The name of the router that a packet leaves. -/
def routerName? : Hop Spent → Option (Option String)
  | .at p _ _ => some p.router.name
  | _ => none

/-- Whether actions are left to do. -/
def isBusy : Hop Spent → Bool
  | .at _ (_ :: _) _ => true
  | _ => false

/-- The hops while actions are done at an endpoint, down to the one with none left. -/
def unwind (p : Endpoint) (e : Spent) : List Action → List (Hop Spent)
  | [] => [.at p [] e]
  | a :: as => .at p (a :: as) e :: unwind p e as

/-- A hop and those that follow while its actions are done. -/
def unwound : Hop Spent → List (Hop Spent)
  | .at p as e => unwind p e as
  | h => [h]

end Hop

/-! ### Actions on the stack -/

/-- An action as an operation on the stack. Only push, swap and pop are carried out. -/
def Action.op : Action → Except Fault (Op StackSymbol)
  | .push l => .ok (.push (.ofLabel l))
  | .swap l => .ok (.replace (.ofLabel l))
  | .pop => .ok .pop
  | .noop | .unknown => .error .missingPart

/-- The guard that always holds. -/
def holds : String := "1 = 1"

/-- The transition that does the first action of a hop. -/
def Hop.act {Spent : Type} : Hop Spent → Except Fault (Option (Transition (Hop Spent) StackSymbol))
  | .at p (a :: as) e => do
    pure (some { Transition.plain (.at p (a :: as) e) (.at p as e) .any (← a.op) with
      guard := some holds })
  | _ => .ok none

/-- The transitions that do the actions of hops, each action of each hop once. -/
def chains {Spent : Type} [DecidableEq Spent] (hops : List (Hop Spent)) :
    Except Fault (List (Transition (Hop Spent) StackSymbol)) := do
  pure ((← (Text.distinct (hops.flatMap Hop.unwound)).mapM Hop.act).filterMap id)

/-! ### Rules for arriving packets -/

/-- A rule for packets that arrive with a label, and the number of rules that have to fail before
it is used. -/
structure Offer where
  source : Option String
  label : Label
  rule : Rule
  before : Nat
deriving DecidableEq, Repr

/-- The rules of groups, behind a number of others. -/
def Destination.offersBehind (d : Destination) : Nat → List Group → List Offer
  | _, [] => []
  | n, g :: gs => g.map (⟨d.source, d.label, ·, n⟩) ++ d.offersBehind (n + g.length) gs

/-- The rules of a destination. -/
def Destination.offers (d : Destination) : List Offer := d.offersBehind 0 d.groups

/-- The rules for packets that arrive at an endpoint. -/
def Network.offersAt (n : Network) (p : Endpoint) : List Offer :=
  (n.destinationsAt p).flatMap Destination.offers

/-- The links of a network, in both directions: where a packet leaves and where it arrives. -/
def Network.crossings (n : Network) : List (Endpoint × Endpoint) :=
  n.links.flatMap fun l => [(l.source, l.target), (l.target, l.source)]

namespace Offer

variable {Spent : Type}

/-- Where a packet goes by a rule of the router that it is at. -/
def hop (o : Offer) (r : RouterId) (e : Spent) : Hop Spent :=
  .at ⟨r, o.rule.target⟩ o.rule.actions e

/-- A packet enters the network at a router. -/
def enter (o : Offer) (r : RouterId) (e : Spent) : Transition (Hop Spent) StackSymbol :=
  { Transition.plain .start (o.hop r e) (.on (.ofLabel o.label)) .noop with
    comments := ["To start the simulation"] }

/-- A packet that left by an endpoint arrives at a router. -/
def cross (o : Offer) (left : Hop Spent) (r : RouterId) (e : Spent) :
    Transition (Hop Spent) StackSymbol :=
  { Transition.plain left (o.hop r e) (.on (.ofLabel o.label)) .noop with
    comments := ["Through " ++ Interface.describeName o.source] }

end Offer

/-- A packet that left by an endpoint leaves the network. -/
def exit {Spent : Type} (p : Endpoint) (e : Spent) : Transition (Hop Spent) StackSymbol :=
  .plain (.at p [] e) .finish .any .noop

/-- The automaton of entries, crossings and exits, with the chains of actions between them. -/
def forwarding {Spent : Type} [DecidableEq Spent]
    (moves exits : List (Transition (Hop Spent) StackSymbol)) :
    Except Fault (Pda (Hop Spent) StackSymbol) := do
  let acts ← chains (moves.map (·.target))
  pure (.ofTransitions [.start, .finish] [] [] .start .finish (moves ++ acts ++ exits))

end MplsReach
