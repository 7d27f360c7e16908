/-
Parts of pushdown automata with an entry and an exit, joined to larger ones.

* `Workshop.connected`, `Workshop.forward`: the transitions that are linked to a location in either
  direction, and those that can follow from it. A transition that fires on any top hinders both.
* `Fragment`: a part, with the symbols that it starts with, ends with and uses.
* `Fragments.flatten`: a fragment and all that follow, as one fragment.
-/
import MplsReach.Pushdown.Workshop

namespace MplsReach

namespace Workshop

/-! ### Searches -/

/-- Whether a transition fires on any top. -/
def isAny (t : Transition Nat String) : Bool :=
  match t.input with
  | .any => true
  | _ => false

/-- The transitions with the given ones, found by following links from locations for a number of
rounds. -/
def spread (neighbours : Nat → List (Transition Nat String))
    (ends : Transition Nat String → List Nat) (rounds start : Nat) : List Nat :=
  (Search.closure (fun l => (neighbours l).flatMap ends) rounds [start]).found.reverse

/-- The transitions at a location. -/
def touching (w : Workshop) (l : Nat) : List (Transition Nat String) :=
  w.transitions.filter fun t => t.source = l || t.target = l

/-- The locations and transitions that are linked to a location in either direction. -/
def connected (w : Workshop) (l : Nat) : Except Fault (List Nat × List (Transition Nat String)) :=
  let ls := spread w.touching (fun t => [t.source, t.target]) (w.names.length + 1) l
  let ts := w.transitions.filter fun t => ls.contains t.source || ls.contains t.target
  if ts.any isAny then .error .missingPart else .ok (ls, ts)

/-- The locations and transitions that can follow from a location. -/
def forward (w : Workshop) (l : Nat) : Except Fault (List Nat × List (Transition Nat String)) :=
  let ls := spread w.outgoing (fun t => [t.target]) (w.names.length + 1) l
  let ts := w.transitions.filter fun t => ls.contains t.source
  if ts.any isAny then .error .missingPart else .ok (ls, ts)

/-- The symbols of the transitions that can follow from a location. -/
def alphabet (w : Workshop) (l : Nat) : Except Fault (List String) := do
  let (_, ts) ← w.forward l
  pure (Text.distinct (ts.flatMap (·.symbols)))

end Workshop

/-! ### Fragments -/

/-- A part of an automaton. -/
structure Fragment where
  entry : Nat
  entrySymbols : List String
  exit : Nat
  exitSymbols : List String
  symbols : List String
deriving Repr

/-- Fragments, and which of them follow which. -/
structure Fragments where
  fragments : List Fragment
  links : List (Nat × Nat)
deriving Repr

namespace Fragments

/-- No fragments. -/
def empty : Fragments := ⟨[], []⟩

/-- The fragments that follow a fragment, as often as they were linked. -/
def following (s : Fragments) (f : Nat) : List Nat :=
  (s.links.filter (·.1 = f)).map (·.2)

/-- Whether a fragment could hand over a symbol to one that follows it. -/
def meets (s : Fragments) (f g : Nat) : Bool :=
  match s.fragments[f]?, s.fragments[g]? with
  | some f, some g => f.exitSymbols.any g.entrySymbols.contains
  | _, _ => false

/-- A fragment and all that follow, as one fragment. Exactly one of them may be the last one, and
none may hand over symbols to another one. -/
def flatten (w : Workshop) (s : Fragments) (f : Nat) : Except Fault Fragment := do
  let all := (Search.closure s.following (s.fragments.length + 1) [f]).found
  if all.any fun g => (s.following g).any (s.meets g) then throw .missingPart
  match all.filter fun g => (s.following g).isEmpty with
  | [last] =>
    match s.fragments[f]?, s.fragments[last]? with
    | some f, some last =>
      pure ⟨f.entry, f.entrySymbols, last.exit, last.exitSymbols, ← w.alphabet f.entry⟩
    | _, _ => throw (.unknownName none)
  | _ => throw (.refused .exitFragments)

end Fragments

end MplsReach
