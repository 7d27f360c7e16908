/-
Which symbols can be on top of the stack at which location.

* `Transition.topsAfter`: what is on top after a step; after a pop it may be any symbol.
* `Pda.tops`: the pairs of location and top that can be found from the start in this way.
-/
import MplsReach.Grouping
import MplsReach.Pushdown.Basic
import MplsReach.Search

namespace MplsReach

variable {Loc Sym : Type} [DecidableEq Loc] [DecidableEq Sym] [Hashable Loc] [Hashable Sym]

/-- What can be on top after an operation. -/
def Op.topsAfter (symbols : List Sym) (a : Sym) : Op Sym → List Sym
  | .noop => [a]
  | .pop => symbols
  | .push b | .replace b | .pushReplace b _ => [b]

/-- What can be on top after a step from a top, if there is one. -/
def Transition.topsAfter (symbols : List Sym) (t : Transition Loc Sym) (a : Sym) : List Sym :=
  if t.input.admits a then t.op.topsAfter symbols a else []

/-- The pairs of location and top after one step, given the transitions that leave a location. -/
def topSteps (symbols : List Sym) (outgoing : Loc → List (Transition Loc Sym)) (h : Loc × Sym) :
    List (Loc × Sym) :=
  (outgoing h.1).flatMap fun t => (t.topsAfter symbols h.2).map (t.target, ·)

/-- The pairs of location and top that can be found from the given one in a number of rounds. -/
def topsFrom (symbols : List Sym) (outgoing : Loc → List (Transition Loc Sym)) (rounds : Nat)
    (h : Loc × Sym) : List (Loc × Sym) :=
  (Search.closure (topSteps symbols outgoing) rounds [h]).found

namespace Pda

/-- As many pairs of location and top as there can be. -/
def topRounds (p : Pda Loc Sym) : Nat :=
  (1 + p.transitions.length) * (1 + p.symbols.length + p.transitions.length)

/-- The pairs of location and top that can be found from the initial location. -/
def tops (p : Pda Loc Sym) (start : Sym) : List (Loc × Sym) :=
  let index := groupBy Transition.source p.transitions
  topsFrom p.symbols (index.getD · []) p.topRounds (p.initial, start)

end Pda

end MplsReach
