/-
Plain values, and what they are compared by.

* `Scalar`: nothing, a flag, a number or a text.
* `Key`: what plain values are compared by. A flag is the number zero or one, and numbers are equal
  if their values are, whichever way they are written.
* `Key.rank?`: the place of a number among all numbers.
* `Key.ascending`: keys in ascending order, if each can be compared with each.
-/
import MplsReach.Fault
import MplsReach.Number.Binary
import MplsReach.Text.Order
import MplsReach.Text.Quoted

namespace MplsReach

/-- A plain value. -/
inductive Scalar where
  | nothing
  | flag (b : Bool)
  | number (n : Int)
  /-- A number that is written with a decimal point or an exponent. -/
  | real (q : Number.Quantity)
  | text (s : String)
deriving DecidableEq, Repr

/-- What plain values are compared by. -/
inductive Key where
  | nothing
  | whole (n : Int)
  /-- A number that is not whole. -/
  | real (q : Number.Quantity)
  | text (s : String)
deriving DecidableEq, Repr

/-- The key of a number. -/
def Key.ofQuantity (q : Number.Quantity) : Key :=
  match q.whole? with
  | some n => .whole n
  | none => .real q

namespace Scalar

/-- What a flag is shown as. -/
def showFlag (b : Bool) : String := if b then "True" else "False"

/-- What a plain value is shown as. -/
def shown : Scalar → String
  | nothing => Text.missing
  | flag b => showFlag b
  | number n => toString n
  | real q => q.write
  | text s => s

/-- What a plain value is compared by. -/
def key : Scalar → Key
  | nothing => .nothing
  | flag b => .whole (if b then 1 else 0)
  | number n => .whole n
  | real q => .ofQuantity q
  | text s => .text s

end Scalar

namespace Key

/-- How many steps of the finest number there are up to one. -/
def finest : Int := Nat.pow 2 Number.Binary.leastExponent.natAbs

/-- More steps of the finest number than there are up to any finite one. -/
def beyond : Int := finest * finest * finest

/-- The place of a number among all numbers, in steps of the finest one. -/
def rank? : Key → Option Int
  | whole n => some (n * finest)
  | real (.finite negative b) =>
    let size : Int := b.mantissa * Nat.pow 2 (b.exponent - Number.Binary.leastExponent).toNat
    some (if negative then -size else size)
  | real (.infinite negative) => some (if negative then -beyond else beyond)
  | _ => none

/-- The text of a key. -/
def text? : Key → Option String
  | text s => some s
  | _ => none

/-- Keys in ascending order. Numbers can be compared with numbers and texts with texts. -/
def ascending (ks : List Key) : Except Fault (List Key) :=
  if ks.length ≤ 1 then .ok ks
  else if ks.all (·.rank?.isSome) then
    .ok (ks.mergeSort fun a b => a.rank?.getD 0 ≤ b.rank?.getD 0)
  else if ks.all (·.text?.isSome) then
    .ok ((Text.sorted (ks.filterMap text?)).map text)
  else .error .wrongKind

end Key

end MplsReach
