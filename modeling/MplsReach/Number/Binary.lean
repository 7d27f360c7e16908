/-
Numbers of 53 binary digits.

* `Binary`: a whole number and the power of two that it counts.
* `Binary.nearest`: the number that is nearest to a quotient; of two, the one with an even mantissa.
* `Binary.shortest`: the decimal with the fewest digits to which a number is the nearest one.
* `Quantity`: a signed number, which may be infinite or undefined; `Quantity.read?` and
  `Quantity.write`.
-/
import MplsReach.Number.Decimal

namespace MplsReach.Number

/-- The number `mantissa * 2 ^ exponent`. -/
structure Binary where
  mantissa : Nat
  exponent : Int
deriving DecidableEq, Repr

namespace Binary

/-- The number of binary digits of a mantissa. -/
def width : Nat := 53

/-- The least number that is too large for a mantissa. -/
def full : Nat := Nat.pow 2 width

/-- The least mantissa of full width. -/
def half : Nat := Nat.pow 2 (width - 1)

/-- The least exponent. -/
def leastExponent : Int := -1074

/-- The greatest exponent of a mantissa with all its digits. -/
def greatestExponent : Int := 971

/-- A quotient multiplied by a power of a base, as a quotient. -/
def scaled (base : Nat) (e : Int) (num den : Nat) : Nat × Nat :=
  if 0 ≤ e then (num * Nat.pow base e.toNat, den) else (num, den * Nat.pow base e.natAbs)

/-- The whole number nearest to a quotient, an even one of two. -/
def roundQuotient (num den : Nat) : Nat :=
  let q := num / den
  let r := num % den
  if den < 2 * r ∨ (2 * r = den ∧ q % 2 = 1) then q + 1 else q

/-- The exponent with which a positive quotient has a mantissa of full width, or the least one. -/
def exponentOf (num den : Nat) : Int :=
  let e : Int := (Nat.log2 num : Int) - Nat.log2 den - width
  let (n, d) := scaled 2 (-e) num den
  max leastExponent (if n / d < full then e else e + 1)

/-- The number nearest to a quotient, if it is not too large. -/
def nearest (num den : Nat) : Option Binary :=
  if num = 0 then some ⟨0, leastExponent⟩
  else
    let e := exponentOf num den
    let (n, d) := scaled 2 (-e) num den
    let m := roundQuotient n d
    let b : Binary := if m = full then ⟨half, e + 1⟩ else ⟨m, e⟩
    if b.exponent ≤ greatestExponent then some b else none

/-- A number that counts a power of two more, if it is not too large. -/
def scale (b : Binary) (n : Nat) : Option Binary :=
  let (num, den) := scaled 2 (b.exponent + n) b.mantissa 1
  nearest num den

/-- The number nearest to a decimal, if it is not too large. -/
def ofDecimal (d : Decimal) : Option Binary :=
  let magnitude : Int := (toString d.coefficient).length + d.exponent
  if d.coefficient = 0 ∨ magnitude < -400 then some ⟨0, leastExponent⟩
  else if 400 < magnitude then none
  else
    let (num, den) := scaled 10 d.exponent d.coefficient 1
    nearest num den

/-! ### The shortest decimal -/

/-- A positive number as a quotient, with the ends of the interval of quotients that are nearest to
it over the same denominator. -/
structure Interval where
  low : Nat
  value : Nat
  high : Nat
  den : Nat
  /-- Whether the ends belong to the interval. -/
  closed : Bool

/-- The interval of a number. -/
def interval (b : Binary) : Interval :=
  let below := if b.mantissa = half ∧ leastExponent < b.exponent then 1 else 2
  let (n, d) := scaled 2 (b.exponent - 2) 1 1
  ⟨(4 * b.mantissa - below) * n, 4 * b.mantissa * n, (4 * b.mantissa + 2) * n, d,
    b.mantissa % 2 = 0⟩

/-- Whether a decimal lies in an interval. -/
def Interval.contains (i : Interval) (d : Decimal) : Bool :=
  let (n, m) := scaled 10 d.exponent d.coefficient 1
  let x := n * i.den
  if i.closed then decide (i.low * m ≤ x ∧ x ≤ i.high * m)
  else decide (i.low * m < x ∧ x < i.high * m)

/-- The least power of ten that is greater than a quotient, with a bound on the search. -/
def magnitude (num den : Nat) : Nat → Int → Int
  | 0, e => e
  | fuel + 1, e =>
    let (n, d) := scaled 10 e 1 1
    if num * d < n * den then e else magnitude num den fuel (e + 1)

/-- The decimal that counts a power of ten and is nearest to a number, if the interval holds one. -/
def onGrid? (i : Interval) (e : Int) : Option Decimal :=
  let (n, d) := scaled 10 (-e) i.value i.den
  let below : Decimal := ⟨n / d, e⟩
  let above : Decimal := ⟨n / d + 1, e⟩
  match i.contains below, i.contains above with
  | true, true => some (if 2 * (n % d) ≤ d then below else above)
  | true, false => some below
  | false, true => some above
  | false, false => none

/-- The decimal with the fewest digits to which a number is the nearest one. -/
def shortest (b : Binary) : Decimal :=
  if b.mantissa = 0 then ⟨0, 0⟩
  else
    let i := b.interval
    let top := magnitude i.value i.den 700 (-350)
    ((List.range 17).findSome? fun k => onGrid? i (top - 1 - (k : Nat))).getD ⟨0, 0⟩

end Binary

/-! ### Signed numbers -/

/-- A signed number, which may be infinite or undefined. -/
inductive Quantity where
  | finite (negative : Bool) (size : Binary)
  | infinite (negative : Bool)
  | undefined
deriving DecidableEq, Repr

namespace Quantity

/-- A size that may be too large. -/
def ofSize (negative : Bool) : Option Binary → Quantity
  | some b => .finite negative b
  | none => .infinite negative

/-- A decimal with a sign. -/
def ofDecimal (negative : Bool) (d : Decimal) : Quantity := ofSize negative (Binary.ofDecimal d)

/-- A number without its sign. -/
def readSize? (negative : Bool) (cs : List Char) : Option Quantity :=
  match String.ofList (cs.map Char.toLower) with
  | "inf" | "infinity" => some (.infinite negative)
  | "nan" => some .undefined
  | _ => (readDecimal? cs).map (ofDecimal negative)

/-- The number of a text. -/
def read? (s : String) : Option Quantity :=
  match if s.toList.all (·.toNat < 128) then s.toList else s.toList.map Text.plainDigit with
  | '-' :: cs => readSize? true cs
  | '+' :: cs => readSize? false cs
  | cs => readSize? false cs

/-- Whether a number is zero, of either sign. -/
def isZero : Quantity → Bool
  | .finite _ b => b.mantissa == 0
  | _ => false

/-- The whole number that a number is equal to, if there is one. -/
def whole? : Quantity → Option Int
  | .finite negative b =>
    let (num, den) := Binary.scaled 2 b.exponent b.mantissa 1
    if num % den = 0 then
      some (if negative then -((num / den : Nat) : Int) else ((num / den : Nat) : Int))
    else none
  | _ => none

/-- The number nearest to a sum with a whole number. -/
def addWhole (n : Int) : Quantity → Quantity
  | .finite negative b =>
    let (num, den) := Binary.scaled 2 b.exponent b.mantissa 1
    let sum := (if negative then -(num : Int) else (num : Int)) + n * (den : Int)
    ofSize (sum < 0) (Binary.nearest sum.natAbs den)
  | x => x

/-- A number multiplied by a power of two. -/
def scale (n : Nat) : Quantity → Quantity
  | .finite negative b => ofSize negative (b.scale n)
  | x => x

/-- A number as text, with the fewest digits that tell it from its neighbours. -/
def write : Quantity → String
  | .finite negative b => (if negative then "-" else "") ++ b.shortest.write
  | .infinite negative => if negative then "-inf" else "inf"
  | .undefined => "nan"

end Quantity

end MplsReach.Number
