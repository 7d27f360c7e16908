/-
Where an automaton can be after a word.

* `arrivals?`: the locations at the ends of all ways that read a word. Every way is followed, so the
  search is endless if silent edges form a cycle on one of them.
* `accepts?`: whether a location is among them.
-/
import MplsReach.Automaton.Nfa

namespace MplsReach

variable {ν Sym α : Type} [DecidableEq ν]

/-- The locations at the ends of the ways that read a word. So many silent edges may follow each
other; if there are more, the search is endless. -/
def arrivalsWithin (reads : Sym → α → Bool) (edges : List (Edge ν Sym)) (limit : Nat)
    (word : List α) (left : Nat) (q : ν) : Option (List ν) := do
  let silent : ν → Option (List ν) := match _h : left with
    | 0 => fun _ => none
    | left + 1 => arrivalsWithin reads edges limit word left
  let read : Sym → ν → Option (List ν) := match _h : word with
    | [] => fun _ _ => some []
    | c :: rest => fun s r =>
      if reads s c then arrivalsWithin reads edges limit rest limit r else some []
  let ends ← (edges.filter (·.source = q)).mapM fun e =>
    match e.symbol with
    | none => silent e.target
    | some s => read s e.target
  pure (ends.flatten ++ if word.isEmpty then [q] else [])
termination_by (word.length, left)

/-- The locations at the ends of the ways that read a word, unless the search is endless. A way
with more silent edges in a row than there are edges goes through a cycle of them. -/
def arrivals? (reads : Sym → α → Bool) (edges : List (Edge ν Sym)) (q : ν) (word : List α) :
    Option (List ν) :=
  arrivalsWithin reads edges edges.length word edges.length q

/-- Whether some way that reads a word ends at a location, unless the search is endless. -/
def accepts? (reads : Sym → α → Bool) (edges : List (Edge ν Sym)) (q final : ν)
    (word : List α) : Option Bool :=
  (arrivals? reads edges q word).map (·.contains final)

end MplsReach
