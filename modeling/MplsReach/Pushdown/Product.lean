/-
A pushdown automaton whose runs are observed by an automaton over its locations.

* `Pda.product`: each step reads the location that it leads to. A new location in front of the
  automaton, `none`, makes the first step read the initial location.
-/
import MplsReach.Automaton.Nfa
import MplsReach.Pushdown.Concat

namespace MplsReach

/-- The name of the new location. -/
def entranceName : String := "apda_start"

namespace Pda

variable {Loc ν Sym : Type} [DecidableEq Loc] [DecidableEq ν] [DecidableEq Sym]

/-- The steps from the new location, which read the initial location. -/
def productEntries (p : Pda Loc Sym) (a : Nfa ν Loc) : List (Transition (Option Loc × ν) Sym) :=
  (a.edges.filter (·.symbol = some p.initial)).map fun e =>
    .plain (none, a.initial) (some p.initial, e.target) .any .noop

/-- The steps that read nothing, at each location. -/
def productSilent (p : Pda Loc Sym) (a : Nfa ν Loc) : List (Transition (Option Loc × ν) Sym) :=
  (a.edges.filter (·.symbol = none)).flatMap fun e =>
    (none :: p.locations.map some).map fun l =>
      .plain (l, e.source) (l, e.target) .any .noop

/-- The steps of the automaton, which read the location that they lead to. -/
def productSteps (p : Pda Loc Sym) (a : Nfa ν Loc) : List (Transition (Option Loc × ν) Sym) :=
  a.edges.flatMap fun e =>
    (p.transitions.filter (some ·.target = e.symbol)).map fun t =>
      { t.copied with source := (some t.source, e.source), target := (some t.target, e.target) }

/-- The runs of the automaton whose locations are read by the other one. -/
def product (p : Pda Loc Sym) (a : Nfa ν Loc) : Pda (Option Loc × ν) Sym :=
  .ofTransitions [(none, a.initial), (some p.final, a.final)] [] []
    (none, a.initial) (some p.final, a.final)
    (p.productEntries a ++ p.productSilent a ++ p.productSteps a)

end Pda

end MplsReach
