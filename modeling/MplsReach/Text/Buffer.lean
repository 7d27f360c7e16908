/-
Positions in a text that may be counted from its end.

* `at?`, `setAt?`: the character at a position; a negative position counts from the end.
* `slice`: the characters between two positions, which may lie outside of the text or be missing.
-/
import MplsReach.Fault

namespace MplsReach.Text

/-- A position counted from the start, if it lies in a text of that length. -/
def position? (length : Nat) (i : Int) : Option Nat :=
  let n := if i < 0 then i + length else i
  if 0 ≤ n ∧ n < length then some n.toNat else none

/-- The entry at a position. -/
def at? {α : Type} (as : List α) (i : Int) : Option α := (position? as.length i).bind (as[·]?)

/-- A list with another entry at a position. -/
def setAt? {α : Type} (as : List α) (i : Int) (a : α) : Option (List α) :=
  (position? as.length i).map fun n => as.set n a

/-- A position counted from the start and moved into a text of that length. -/
def clampedPosition (length : Nat) (i : Int) : Nat :=
  min length (if i < 0 then i + length else i).toNat

/-- The entries from one position up to another; missing positions are the start and the end. -/
def slice {α : Type} (as : List α) (start finish : Option Int) : List α :=
  let a := (start.map (clampedPosition as.length)).getD 0
  let b := (finish.map (clampedPosition as.length)).getD as.length
  (as.take b).drop a

end MplsReach.Text
