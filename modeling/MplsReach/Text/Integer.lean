/-
Whole numbers written in decimal or in hexadecimal.

A sign may stand in front, single underscores may stand between digits, and blanks may stand around.
Digits and blanks of all scripts count once any character of another script occurs. In front of a
hexadecimal number the mark of the base may stand. A decimal number has at most 4300 digits.

* `readInteger?`: the number that a text denotes in decimal.
* `readHexadecimal?`: the number that a text denotes in hexadecimal.
-/
import MplsReach.Text.Blank
import MplsReach.Text.Digit

namespace MplsReach.Text

/-- The value of a decimal digit. -/
def decimalDigit? (c : Char) : Option Nat :=
  if '0' ≤ c && c ≤ '9' then some (c.toNat - 48) else none

/-- The value of a hexadecimal digit. -/
def hexDigit? (c : Char) : Option Nat :=
  if '0' ≤ c && c ≤ '9' then some (c.toNat - 48)
  else if 'a' ≤ c && c ≤ 'f' then some (c.toNat - 87)
  else if 'A' ≤ c && c ≤ 'F' then some (c.toNat - 55)
  else none

/-- Blanks around a number. -/
def isNumberBlank (c : Char) : Bool := c = ' ' || ('\t' ≤ c && c ≤ '\r')

/-- A character of another script as the digit or the blank that it stands for. -/
def plainDigit (c : Char) : Char :=
  if c.toNat < 127 then c
  else if isBlank c then ' '
  else match digitValue? c with
    | some d => Char.ofNat (48 + d)
    | none => '?'

/-- Digits with single underscores between them, added to a number. -/
def moreDigits? (base : Nat) (digit? : Char → Option Nat) : Nat → List Char → Option Nat
  | n, [] => some n
  | n, '_' :: c :: cs => do moreDigits? base digit? (base * n + (← digit? c)) cs
  | n, c :: cs => do moreDigits? base digit? (base * n + (← digit? c)) cs

/-- A number that starts with a digit. -/
def digits? (base : Nat) (digit? : Char → Option Nat) : List Char → Option Nat
  | [] => none
  | c :: cs => do moreDigits? base digit? (← digit? c) cs

/-- A hexadecimal number without sign; the mark of the base may be followed by an underscore. -/
def markedNumber? : List Char → Option Nat
  | '0' :: x :: cs =>
    if x = 'x' || x = 'X' then
      match cs with
      | '_' :: ds => digits? 16 hexDigit? ds
      | ds => digits? 16 hexDigit? ds
    else digits? 16 hexDigit? ('0' :: x :: cs)
  | cs => digits? 16 hexDigit? cs

/-- A number with blanks around it and a sign in front. -/
def readSigned? (number? : List Char → Option Nat) (s : String) : Option Int :=
  let cs := if s.toList.all (·.toNat < 128) then s.toList else s.toList.map plainDigit
  match stripBy isNumberBlank cs with
  | '+' :: ds => (number? ds).map fun n => n
  | '-' :: ds => (number? ds).map fun n => -n
  | ds => (number? ds).map fun n => n

/-- How many digits a decimal number may have. -/
def mostDigits : Nat := 4300

/-- A decimal number without sign, if it is not too long. -/
def decimalNumber? (cs : List Char) : Option Nat :=
  if (cs.filter (· ≠ '_')).length > mostDigits then none else digits? 10 decimalDigit? cs

/-- The number that a text denotes in decimal. -/
def readInteger? (s : String) : Option Int := readSigned? decimalNumber? s

/-- The number that a text denotes in hexadecimal. -/
def readHexadecimal? (s : String) : Option Int := readSigned? markedNumber? s

end MplsReach.Text
