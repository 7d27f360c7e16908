/-
Quoted texts: a text between quotes, with everything that is not shown as itself escaped.

* `quote`: single quotes, unless the text holds a single quote and no double quote.
* `quoteOption`: a missing text is written as a bare word.
* `tuple`: values in round brackets, with a comma after a single one.
-/
import MplsReach.Text.Printable

namespace MplsReach.Text

/-- A number in hexadecimal, with leading zeros up to a width. -/
def hex (width n : Nat) : String :=
  let digits := Nat.toDigits 16 n
  String.ofList (List.replicate (width - digits.length) '0' ++ digits)

/-- One character inside quotes. -/
def quoteChar (mark c : Char) : String :=
  if c = mark || c = '\\' then String.ofList ['\\', c]
  else if c = '\n' then "\\n"
  else if c = '\r' then "\\r"
  else if c = '\t' then "\\t"
  else if isPrintable c then String.singleton c
  else if c.toNat < 0x100 then "\\x" ++ hex 2 c.toNat
  else if c.toNat < 0x10000 then "\\u" ++ hex 4 c.toNat
  else "\\U" ++ hex 8 c.toNat

/-- The quote that a text is written in. -/
def quoteMark (s : String) : Char :=
  if s.toList.contains '\'' && !s.toList.contains '"' then '"' else '\''

/-- A text in quotes. -/
def quote (s : String) : String :=
  let mark := quoteMark s
  String.singleton mark ++ String.join (s.toList.map (quoteChar mark)) ++ String.singleton mark

/-- The word for a missing value. -/
def missing : String := "None"

/-- A text in quotes, or the word for a missing one. -/
def quoteOption : Option String → String
  | some s => quote s
  | none => missing

/-- A text, or the word for a missing one. -/
def showOption : Option String → String
  | some s => s
  | none => missing

/-- Values in round brackets. -/
def tuple : List String → String
  | [a] => "(" ++ a ++ ",)"
  | as => "(" ++ ", ".intercalate as ++ ")"

end MplsReach.Text
