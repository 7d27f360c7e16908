/-
The three automata of a query about a forwarding automaton.

* `Alphabet.labels`: a name stands for the label of that name; a new name brings a new label.
* `Alphabet.hops`: a name stands for all hops at the router of that name. While actions are left to
  do, the automaton of a path stays where it is, so that a path counts routers.
* `Query.automata`: the headers in front of the network, read from the bottom of the stack upwards,
  the path, and the headers behind the network.
-/
import MplsReach.Dictionary
import MplsReach.Forwarding.Hop
import MplsReach.Query.Drawing

namespace MplsReach.Query

/-- Names stand for labels. -/
def Alphabet.labels : Alphabet Label where
  lookup domain name :=
    match domain.filter (·.name = name) with
    | [] => .ok (domain ++ [.named name], [.named name])
    | as => .ok (domain, as)
  others domain excluded := .ok (domain.filter fun a => !(excluded.map Label.name).contains a.name)
  stays _ := false

/-- Names stand for the hops at a router. -/
def Alphabet.hops {Spent : Type} : Alphabet (Hop Spent) where
  lookup domain name :=
    match domain.filter (·.routerName? = some (some name)) with
    | [] => .error (.unknownName (some name))
    | as => .ok (domain, as)
  others domain excluded :=
    .ok (domain.filter fun a => !(excluded.map Hop.routerName?).contains a.routerName?)
  stays := Hop.isBusy

/-- Labels, the last one of each name. -/
def labelDomain (labels : List Label) : List Label := Dictionary.putAll Label.name [] labels

/-- The automata of a query. -/
structure Automata (Spent : Type) where
  constructing : Nfa Nat Label
  network : Nfa Nat (Hop Spent)
  destructing : Nfa Nat Label

/-- The automata of a query. Labels that the first header names are known to the last one. -/
def automata {Spent : Type} [DecidableEq Spent] (q : Query) (labels : List Label)
    (p : Pda (Hop Spent) StackSymbol) : Except Fault (Automata Spent) := do
  let (constructing, domain) ←
    Alphabet.labels.automaton (labelDomain labels) (q.constructing.map Atom.reverse)
  let hops := p.locations.filter (·.routerName?.isSome)
  let network ← Alphabet.hops.automatonBetween hops p.initial p.final (some q.network)
  let (destructing, _) ← Alphabet.labels.automaton domain q.destructing
  pure ⟨constructing, network, destructing⟩

end MplsReach.Query
