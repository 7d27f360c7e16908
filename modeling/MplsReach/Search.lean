/-
Everything that can be found from given elements by a successor function.

* `Search.closure`: the elements found, each once, in the order of discovery reversed; every element
  is looked at at most once, so as many rounds as there are elements are enough.
-/
import Std.Data.HashSet

namespace MplsReach.Search

variable {α : Type} [BEq α] [Hashable α]

/-- What has been found: all of it, and the part that has not been looked at. -/
structure Front (α : Type) [BEq α] [Hashable α] where
  seen : Std.HashSet α
  found : List α
  waiting : List α

/-- Nothing found. -/
def Front.empty : Front α := ⟨∅, [], []⟩

/-- An element, unless it has been found before. -/
def Front.add (f : Front α) (a : α) : Front α :=
  if f.seen.contains a then f else ⟨f.seen.insert a, a :: f.found, a :: f.waiting⟩

/-- Looks at waiting elements for a number of rounds. -/
def explore (next : α → List α) : Nat → Front α → Front α
  | 0, f => f
  | rounds + 1, f =>
    match f.waiting with
    | [] => f
    | a :: rest => explore next rounds ((next a).foldl Front.add { f with waiting := rest })

/-- The elements found from the given ones in a number of rounds. -/
def closure (next : α → List α) (rounds : Nat) (start : List α) : Front α :=
  explore next rounds (start.foldl Front.add .empty)

end MplsReach.Search
