/-
From a network and a query to the rules that answer it.

* `Forwarder`: the automaton of a network, with how its hops are written.
* `Place`: the locations of the whole: in the header before, in the network, in the header behind.
* `Forwarder.assemble`: the three parts, one behind the other.
* `compile`: the rules.
-/
import MplsReach.Forwarding.Over
import MplsReach.Forwarding.Under
import MplsReach.Pushdown.Commentary
import MplsReach.Pushdown.Header
import MplsReach.Pushdown.Product
import MplsReach.Query.Automata
import MplsReach.Query.Parser

namespace MplsReach

/-! ### Names -/

/-- The name of a location in the automaton of a header or a path. -/
def numbered (part : String) (n : Nat) : String := part ++ "_" ++ toString n

/-- The name of a location of a builder. -/
def Built.name : Built Nat → String := Built.named (numbered "C")

/-- The name of a hop that is observed by the automaton of a path. -/
def observedHopName {Spent : Type} (spent : Spent → List String) (l : Option (Hop Spent) × Nat) :
    String :=
  observedName (some (match l.1 with
    | some h => h.describe spent
    | none => entranceName)) (numbered "N" l.2)

/-- Where a packet is, with its headers: before the network, in it, or behind it. -/
abbrev Place (Spent : Type) := (Built Nat ⊕ (Option (Hop Spent) × Nat)) ⊕ Nat

/-- The name of a place. -/
def placeName {Spent : Type} (spent : Spent → List String) : Place Spent → String
  | .inl (.inl b) => b.name
  | .inl (.inr l) => observedHopName spent l
  | .inr n => numbered "D" n

/-- How places and symbols are written. -/
def placeNaming {Spent : Type} (spent : Spent → List String) :
    Naming (Place Spent) StackSymbol where
  location := placeName spent
  symbol := StackSymbol.text
  value := StackSymbol.describeValue

/-! ### The parts of a query -/

/-- The three parts that a query is answered with. -/
structure Parts (Spent : Type) where
  build : Pda (Built Nat) StackSymbol
  network : Pda (Option (Hop Spent) × Nat) StackSymbol
  destroy : Pda Nat StackSymbol

variable {Spent : Type} [DecidableEq Spent] [Hashable Spent]

/-- The parts of the automata of a query. -/
def Query.Automata.parts (a : Query.Automata Spent) (p : Pda (Hop Spent) StackSymbol) :
    Parts Spent where
  build := (a.constructing.mapSymbols .ofLabel).builder
  network := p.product a.network
  destroy := (a.destructing.mapSymbols .ofLabel).remover

/-- The header before and the network. -/
def Parts.front (takeOver : Bool) (s : Parts Spent) :
    Pda (Built Nat ⊕ (Option (Hop Spent) × Nat)) StackSymbol :=
  s.build.join takeOver s.network

/-- The three parts, one behind the other. -/
def Parts.whole (takeOver : Bool) (s : Parts Spent) : Pda (Place Spent) StackSymbol :=
  (s.front takeOver).join takeOver s.destroy

/-- The rules for a header that starts and ends at the bottom of the stack. -/
def rulesOf (verbose : Bool) (spent : Spent → List String) (p : Pda (Place Spent) StackSymbol) :
    Except Fault (RuleSystem (Place Spent) StackSymbol) := do
  let some start := p.special? "start" | .error (.unknownName (some "start"))
  let some goal := p.special? "end" | .error (.unknownName (some "end"))
  let p := if verbose then p.annotated (placeNaming spent) else p
  pure (p.compile start goal)

/-- The rules that answer a query about a forwarding automaton. -/
def compileFor (verbose : Bool) (spent : Spent → List String) (q : Query)
    (labels : List Label) (p : Pda (Hop Spent) StackSymbol) :
    Except Fault (RuleSystem (Place Spent) StackSymbol) := do
  let a ← q.automata labels p
  rulesOf verbose spent ((a.parts p).whole true)

end MplsReach
