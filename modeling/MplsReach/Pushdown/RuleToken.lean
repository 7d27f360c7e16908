/-
The words and signs of rule files.

* `RuleToken`: a word, a number, a text in quotes, a sign, or a stray character.
* `RuleToken.next`: the longest thing that starts at a character, and what is left behind it.
* `RuleToken.scan`: all of them. Blanks and remarks are left out; a remark ends with its line.

A character that starts nothing else is stray: so is a quote that is not closed, and the mark of a
remark on a line that has no end.
-/

namespace MplsReach

/-- A piece of a rule file. -/
inductive RuleToken where
  | word (s : String)
  | number (n : Int32)
  | quoted (s : String)
  /-- A sign or a key word. -/
  | sign (s : String)
  | stray (c : Char)
deriving DecidableEq

namespace RuleToken

/-- Whether a word can start with a character. -/
def startsWord (c : Char) : Bool := c.isAlpha || c = '_'

/-- Whether a word can go on with a character. -/
def inWord (c : Char) : Bool := c.isAlphanum || c = '_' || c = '.'

/-- The words with a meaning of their own. -/
def keyWords : List String := ["global", "local", "bool", "int", "define", "atoms", "A", "E"]

/-- The signs; of two that start alike the longer one comes first. -/
def signs : List String :=
  ["-->", "<=>", "==", "<<", "<=", "!=", ">=", "'", "|", "&", "^", "!", "+", "*", "-", "/", "=",
    "(", ")", ",", ";", "[", "]", "<", ">"]

/-- The two signs for equal truth are one. -/
def ofSign (s : String) : RuleToken := sign (if s = "<=>" then "==" else s)

/-- A word, which may be a key word. -/
def ofWord (s : String) : RuleToken := if keyWords.contains s then sign s else word s

/-- The largest number that digits can denote; larger ones denote it too. -/
def largest : Nat := 9223372036854775807

/-- The number that digits denote, of which the lowest 32 bits count. -/
def ofDigits (cs : List Char) : RuleToken :=
  number (Int32.ofNat (min largest (cs.foldl (fun n c => 10 * n + (c.toNat - 48)) 0)))

/-- The piece that starts with a character, if it counts, and what is left behind it. -/
def next (c : Char) (cs : List Char) : Option RuleToken × List Char :=
  if c = ' ' || c = '\t' || c = '\n' then (none, cs)
  else if startsWord c then
    (some (ofWord (String.ofList (c :: cs.takeWhile inWord))), cs.dropWhile inWord)
  else if c.isDigit then
    (some (ofDigits (c :: cs.takeWhile Char.isDigit)), cs.dropWhile Char.isDigit)
  else if c = '"' && cs.contains '"' then
    (some (quoted (String.ofList (cs.takeWhile (· ≠ '"')))), (cs.dropWhile (· ≠ '"')).drop 1)
  else if ['#', '%', '\x7b', '\x7d'].contains c && cs.contains '\n' then
    (none, cs.dropWhile (· ≠ '\n'))
  else
    match signs.find? fun s => s.toList.isPrefixOf (c :: cs) with
    | some s => (some (ofSign s), cs.drop (s.length - 1))
    | none => (some (stray c), cs)

/-- What is left behind a piece is no longer than what stands behind its first character. -/
theorem length_next_le (c : Char) (cs : List Char) : (next c cs).2.length ≤ cs.length := by
  unfold next
  repeat' split
  all_goals first
    | exact Nat.le_refl _
    | exact (List.dropWhile_sublist _).length_le
    | exact Nat.le_trans (List.drop_sublist _ _).length_le (List.dropWhile_sublist _).length_le
    | exact (List.drop_sublist _ _).length_le

/-- The pieces of a text. -/
def scan : List Char → List RuleToken
  | [] => []
  | c :: cs => (next c cs).1.toList ++ scan (next c cs).2
termination_by cs => cs.length
decreasing_by exact Nat.lt_succ_of_le (length_next_le c cs)

/-- The stray characters of some pieces. -/
def strays (ts : List RuleToken) : List Char :=
  ts.filterMap fun
    | stray c => some c
    | _ => none

end RuleToken

end MplsReach
