/-
Decimal numerals.

* `Decimal`: a whole number of digits and the power of ten that it counts.
* `Decimal.write`: a decimal as text, with an exponent only if it is very large or very small.
* `readDecimal?`: the decimal of a text, with an optional fraction and an optional exponent.
-/
import MplsReach.Text.Integer

namespace MplsReach.Number

/-- The number `coefficient * 10 ^ exponent`. -/
structure Decimal where
  coefficient : Nat
  exponent : Int
deriving DecidableEq, Repr

/-! ### Writing -/

/-- Zeros. -/
def zeros (n : Nat) : List Char := List.replicate n '0'

/-- The digits of a number without the zeros at its end, and how many zeros those are. -/
def significant (n : Nat) : List Char × Nat :=
  let ds := (toString n).toList.reverse
  let kept := ds.dropWhile (· = '0')
  (kept.reverse, ds.length - kept.length)

/-- A signed exponent of at least two digits. -/
def writeExponent (e : Int) : List Char :=
  let ds := (toString e.natAbs).toList
  (if e < 0 then '-' else '+') :: (zeros (2 - ds.length) ++ ds)

/-- Digits with a decimal point behind the first `point` of them. -/
def pointed (ds : List Char) (point : Int) : List Char :=
  if point ≤ 0 then '0' :: '.' :: (zeros point.natAbs ++ ds)
  else if ds.length ≤ point.toNat then ds ++ zeros (point.toNat - ds.length) ++ ['.', '0']
  else ds.take point.toNat ++ '.' :: ds.drop point.toNat

/-- Digits as a multiple of a power of ten. -/
def scientific (ds : List Char) (point : Int) : List Char :=
  let front := match ds with
    | d :: e :: rest => d :: '.' :: e :: rest
    | ds => ds
  front ++ 'e' :: writeExponent (point - 1)

/-- A decimal as text: at least one digit stands behind the point, and numbers from `10 ^ 16` on or
below `10 ^ -4` have an exponent instead. -/
def Decimal.write (d : Decimal) : String :=
  if d.coefficient = 0 then "0.0"
  else
    let (ds, dropped) := significant d.coefficient
    let point := ds.length + dropped + d.exponent
    String.ofList (if -3 ≤ point ∧ point ≤ 16 then pointed ds point else scientific ds point)

/-! ### Reading -/

/-- The digits at the front, where a single underscore may stand between two of them, and the rest;
`inside` tells that a digit stands in front. -/
def takeDigits (inside : Bool) : List Char → List Nat × List Char
  | [] => ([], [])
  | '_' :: c :: cs =>
    match inside, Text.decimalDigit? c with
    | true, some d => let (ds, rest) := takeDigits true cs; (d :: ds, rest)
    | _, _ => ([], '_' :: c :: cs)
  | c :: cs =>
    match Text.decimalDigit? c with
    | some d => let (ds, rest) := takeDigits true cs; (d :: ds, rest)
    | none => ([], c :: cs)

/-- The number that digits stand for. -/
def ofDigits (ds : List Nat) : Nat := ds.foldl (fun n d => 10 * n + d) 0

/-- An exponent, which may be left out. -/
def readExponent? : List Char → Option Int
  | [] => some 0
  | e :: cs =>
    let (negative, cs) := match cs with
      | '-' :: cs => (true, cs)
      | '+' :: cs => (false, cs)
      | cs => (false, cs)
    match e == 'e' || e == 'E', takeDigits false cs with
    | true, (d :: ds, []) =>
      let n : Int := ofDigits (d :: ds)
      some (if negative then -n else n)
    | _, _ => none

/-- The decimal of a text. -/
def readDecimal? (cs : List Char) : Option Decimal := do
  let (whole, rest) := takeDigits false cs
  let (fraction, rest) := match rest with
    | '.' :: rest => takeDigits false rest
    | rest => ([], rest)
  if whole.isEmpty && fraction.isEmpty then none
  let e ← readExponent? rest
  pure ⟨ofDigits (whole ++ fraction), e - fraction.length⟩

end MplsReach.Number
