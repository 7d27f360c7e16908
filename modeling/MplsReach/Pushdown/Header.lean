/-
Automata over stack symbols as pushdown automata that put words on the stack or take them off.

* `Nfa.builder`: puts a word on the stack, its first symbol lowest, under a marker that stays on
  top meanwhile.
* `Nfa.plainBuilder`: does the same without a marker.
* `Nfa.remover`: takes a word off the stack, its first symbol first.
-/
import MplsReach.Automaton.Nfa
import MplsReach.Pushdown.Basic
import MplsReach.Pushdown.StackSymbol

namespace MplsReach

/-- A location of a builder: before the marker is put, after it is taken off, and in between. -/
inductive Built (ν : Type) where
  | start
  | finish
  | at (location : ν)
deriving DecidableEq, Repr, Hashable

/-- The name of a location of a builder, by the names of the locations in between. -/
def Built.named {ν : Type} (name : ν → String) : Built ν → String
  | .start => "build_0"
  | .finish => "build_1"
  | .at q => name q

namespace Nfa

variable {ν : Type} [DecidableEq ν]

/-- Puts a word of the automaton on the stack, under a marker. -/
def builder (a : Nfa ν StackSymbol) : Pda (Built ν) StackSymbol :=
  .ofTransitions [.start, .finish] [.bottom] [("start", .bottom)] .start .finish
    (a.edges.map (fun e =>
      match e.symbol with
      | some s => .plain (.at e.source) (.at e.target) (.on .marker) (.pushReplace .marker s)
      | none => .plain (.at e.source) (.at e.target) .any .noop) ++
    [.plain .start (.at a.initial) (.on .bottom) (.push .marker),
     .plain (.at a.final) .finish (.on .marker) .pop])

/-- Puts a word of the automaton on the stack. -/
def plainBuilder (a : Nfa ν StackSymbol) : Pda ν StackSymbol :=
  .ofTransitions [a.initial, a.final] [.bottom] [("start", .bottom)] a.initial a.final
    (a.edges.map fun e =>
      match e.symbol with
      | some s => .plain e.source e.target .any (.push s)
      | none => .plain e.source e.target .any .noop)

/-- Takes a word of the automaton off the stack. -/
def remover (a : Nfa ν StackSymbol) : Pda ν StackSymbol :=
  .ofTransitions [a.initial, a.final] [.bottom] [("end", .bottom)] a.initial a.final
    (a.edges.map fun e =>
      match e.symbol with
      | some s => .plain e.source e.target (.on s) .pop
      | none => .plain e.source e.target .any .noop)

end Nfa

end MplsReach
