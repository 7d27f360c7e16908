/-
Outlines: which nodes a construction joins and under which guards, without the transitions.

A construction asks for nodes and states guards, and stops where a transition would have to be made.

* `Outline`: the nodes that were asked for and the guards that were stated, in order.
* `Outlining`: a construction that leaves an outline and may stop with a fault.
* `Outlining.node`, `silent`, `guarded`: what constructions are made of.
-/
import MplsReach.Guard.Basic
import MplsReach.Guard.Variables
import MplsReach.Report.Value

namespace MplsReach

/-- Nodes and guards of a construction. -/
structure Outline where
  nodes : List String
  guards : List String
deriving DecidableEq, Repr

/-- The nodes and variables that a construction finds. -/
structure Ground where
  /-- Whether all nodes are there; otherwise none can be had. -/
  settled : Bool
  supply : Guard.Variables

/-- A construction that leaves an outline. -/
abbrev Outlining := ReaderT Ground (ExceptT Fault (StateM Outline))

namespace Outlining

variable {α : Type}

/-- A node. -/
def node (name : String) : Outlining Unit := do
  if !(← read).settled then throw .wrongKind
  modify fun o => { o with nodes := o.nodes ++ [name] }

/-- A transition over several labels at once, which there is none of. -/
def silent : Outlining α := throw .missingPart

/-- A transition under a guard: all variables but some keep their values. It lacks the automaton
that it would belong to. -/
def guarded (explicit : Option String) (excluded : List Nat) : Outlining α := do
  let vs := (← read).supply
  let names := (vs.kept.filter (!excluded.contains ·)).map vs.name
  modify fun o => { o with guards := o.guards ++ [Guard.keeping explicit names] }
  throw .wrongKind

/-- The outcome of a construction and its outline. -/
def outline (x : Outlining α) (g : Ground) : Except Fault α × Outline := (x.run g).run.run ⟨[], []⟩

end Outlining

/-- What a construction came to. -/
def Outline.report (o : Outline) (outcome : Value) : List (String × Value) :=
  [("result", outcome), ("nodes", .texts o.nodes), ("guards", .texts o.guards)]

end MplsReach
