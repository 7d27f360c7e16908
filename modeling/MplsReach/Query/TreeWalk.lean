/-
Walks over a syntax tree.

* `Walk`: from left to right, or from right to left; the latter leaves every list that it passes in
  reverse order.
* `Tree.walk`: the events of a walk, the tree afterwards, and what ended it.
-/
import MplsReach.Query.Tree

namespace MplsReach.Query

/-- The direction of a walk. -/
inductive Walk where
  | forward
  | backward
deriving DecidableEq, Repr

/-- A walk in progress: the tree and the events so far. -/
abbrev Walking := ExceptT Fault (StateM (Tree × List String))

/-- The event of a token. -/
def Token.event (t : Token) : String := t.kind.name ++ " " ++ t.text

/-- One more event. -/
def Walking.log (event : String) : Walking Unit := modify fun (t, es) => (t, es ++ [event])

namespace Walk

/-- Children in the order of a walk. -/
def order (w : Walk) (cs : List (Option NodeId)) : List (Option NodeId) :=
  match w with
  | forward => cs
  | backward => cs.reverse

/-- A walk over a node and all below it. The children of the root and the nodes in a list must be
there; any other child may be missing. -/
def visit (w : Walk) : Nat → Option NodeId → Walking Unit
  | _, none => throw .missingPart
  | 0, some _ => throw .endless
  | bound + 1, some n => do
    match (← get).1.shape? n with
    | some (.leaf t) => Walking.log t.event
    | some (.branch k cs) =>
      Walking.log ("in " ++ k.name)
      for c in w.order cs do
        if c.isSome || k = .start then w.visit bound c
      Walking.log ("out " ++ k.name)
    | some (.series k _) =>
      Walking.log ("in " ++ k.name)
      if w = .backward then modify fun (t, es) => (t.reverseItems n, es)
      match (← get).1.shape? n with
      | some (.series _ items) => for c in items do w.visit bound c
      | _ => pure ()
      Walking.log ("out " ++ k.name)
    | none => throw .missingPart

end Walk

/-- The events of a walk over a node and all below it, and the tree that it leaves. -/
def Tree.walk (t : Tree) (w : Walk) (n : Option NodeId) : Except Fault (List String) × Tree :=
  match (w.visit t.depthBound n).run.run (t, []) with
  | (.ok (), t, es) => (.ok es, t)
  | (.error f, t, _) => (.error f, t)

/-- The event of meeting a node alone. -/
def Shape.event : Shape → String
  | .leaf t => t.event
  | s => "case " ++ s.name

end MplsReach.Query
