/-
Reading a text from its front.

* `Notice`: how grave a remark of the reader is.
* `Cursor`: what is left of the text, the last notice, the identifiers taken so far, the nodes of
  the entities that have been read, and what entities have cost.
* `Scan`: a reader; it fails where a text is malformed.
* `Scan.name`, `Scan.qualifiedName`, `Scan.literal`, `Scan.characterReference`: the small parts that
  all markup is made of.

A document in which nothing is malformed is still turned down if the last notice given while reading
it is an error; so each notice replaces the one before it.
-/
import MplsReach.Xml.Node

namespace MplsReach.Xml

/-- How grave a notice is. -/
inductive Notice where
  | warning
  | error
deriving DecidableEq, Repr

/-- How far a text has been read. -/
structure Cursor where
  rest : List Char
  notice : Option Notice
  /-- The values of identifying attributes. -/
  ids : List String
  /-- The entities that have been read as content: what they stand for, and what that cost. -/
  replaced : List (String × List Node × Nat)
  /-- What the entities so far have cost. -/
  expansion : Nat

/-- The start of a text. -/
def Cursor.start (cs : List Char) : Cursor := ⟨cs, none, [], [], 0⟩

/-- A reader of a text. -/
abbrev Scan := StateT Cursor Option

/-! ### Cutting -/

/-- The text up to the first occurrence of a pattern, and the text after it; `front` holds the text
before in reverse order. -/
def cutBeforeAux (pattern : List Char) (front : List Char) :
    List Char → Option (List Char × List Char)
  | [] => if pattern.isEmpty then some (front.reverse, []) else none
  | c :: cs =>
    if pattern.isPrefixOf (c :: cs) then some (front.reverse, (c :: cs).drop pattern.length)
    else cutBeforeAux pattern (c :: front) cs

/-- The text up to the first occurrence of a pattern, and the text after it. -/
def cutBefore (pattern cs : List Char) : Option (List Char × List Char) :=
  cutBeforeAux pattern [] cs

namespace Scan

/-! ### Moving -/

/-- What is left of the text. -/
def rest : Scan (List Char) := do return (← get).rest

/-- Goes on with this text. -/
def goTo (cs : List Char) : Scan Unit := modify fun c => { c with rest := cs }

/-- Gives a notice. -/
def give (n : Notice) : Scan Unit := modify fun c => { c with notice := some n }

/-- Fails unless the condition holds. -/
def demand (b : Bool) : Scan Unit := if b then pure () else failure

/-- Skips blanks; whether there are any. -/
def skipSpaces : Scan Bool := do
  let cs ← rest
  goTo (cs.dropWhile isSpace)
  return cs.head?.any isSpace

/-- Skips blanks, of which there must be one. -/
def spaces : Scan Unit := do demand (← skipSpaces)

/-- Skips a word if the text goes on with it; whether it does. -/
def accept (word : String) : Scan Bool := do
  let cs ← rest
  if word.toList.isPrefixOf cs then
    goTo (cs.drop word.length)
    return true
  else return false

/-- Skips a word, with which the text must go on. -/
def expect (word : String) : Scan Unit := do demand (← accept word)

/-- Whether the text goes on with a character. -/
def isNext (c : Char) : Scan Bool := do return (← rest).head? = some c

/-- The characters up to a word, which is skipped; all are characters of documents. -/
def upTo (word : String) : Scan (List Char) := do
  match cutBefore word.toList (← rest) with
  | some (body, r) =>
    demand (body.all isDocumentChar)
    goTo r
    return body
  | none => failure

/-- Reads another text to its end, and then goes on where it was. -/
def within {α : Type} (cs : List Char) (scan : Scan α) : Scan α := do
  let outer ← rest
  goTo cs
  let a ← scan
  demand (← rest).isEmpty
  goTo outer
  return a

/-- Counts a cost of entities; there is a limit to all of it. -/
def charge (cost : Nat) : Scan Unit := do
  let c ← get
  demand (c.expansion + cost ≤ 1000000)
  set { c with expansion := c.expansion + cost }

/-- Counts a reference to an entity and the text that stands for it. -/
def expand (cs : List Char) : Scan Unit := charge ((String.ofList cs).utf8ByteSize + 20)

/-- The nodes that an entity stands for. Its text is read where it is first referred to; from then
on the nodes are known, and nothing is noticed about them again. -/
def replacement (entity : String) (cs : List Char) (read : Scan (List Node)) :
    Scan (List Node) := do
  match (← get).replaced.lookup entity with
  | some (nodes, cost) =>
    charge cost
    return nodes
  | none =>
    let before := (← get).expansion
    expand cs
    let nodes ← read
    modify fun c =>
      { c with replaced := (entity, nodes, c.expansion - before) :: c.replaced }
    return nodes

/-! ### Names -/

/-- The longest run of characters that satisfy a test. -/
def run (p : Char → Bool) : Scan (List Char) := do
  let (front, r) := (← rest).span p
  goTo r
  return front

/-- A name in which colons count as letters, if there is one. -/
def name? : Scan (Option String) := do
  match (← rest).head? with
  | some c =>
    if isNameStart c || c = ':' then
      return some (String.ofList (← run fun c => isNameChar c || c = ':'))
    else return none
  | none => return none

/-- A name in which colons count as letters. -/
def name : Scan String := do
  match ← name? with
  | some s => return s
  | none => failure

/-- A name without a colon, if there is one. -/
def plainName? : Scan (Option String) := do
  if (← rest).head?.any isNameStart then return some (String.ofList (← run isNameChar))
  else return none

/-- A name as a name space prefix, if there is one, and the rest. A name with an empty part or with
several colons is an error. -/
def qualifiedName : Scan (Option String × String) := do
  match ← plainName? with
  | none =>
    let s ← name
    give .error
    return (none, s)
  | some front =>
    if !(← accept ":") then return (none, front)
    match ← plainName? with
    | none =>
      give .error
      let s ← run fun c => isNameChar c || c = ':'
      return (none, front ++ ":" ++ String.ofList s)
    | some back =>
      if !(← accept ":") then return (some front, back)
      give .error
      let s ← name?
      return (some front, back ++ ":" ++ s.getD "")

/-! ### Literals and references -/

/-- A literal in quotes of one kind: its characters as they stand. -/
def literal : Scan (List Char) := do
  if ← accept "\"" then upTo "\""
  else
    expect "'"
    upTo "'"

/-- The value of a hexadecimal digit. -/
def hexValue? (c : Char) : Option Nat :=
  if c.isDigit then some (c.toNat - 48)
  else if 'a' ≤ c && c ≤ 'f' then some (c.toNat - 87)
  else if 'A' ≤ c && c ≤ 'F' then some (c.toNat - 55)
  else none

/-- A number written with the digits of a base. -/
def numeral? (base : Nat) (cs : List Char) : Option Nat :=
  if cs.isEmpty then none
  else cs.foldlM (fun n c => (hexValue? c).bind fun d =>
    if d < base then some (n * base + d) else none) 0

/-- A character that a document may hold, by its number. -/
def charOfNumber? (n : Nat) : Option Char :=
  if h : n.isValidChar then
    let c := Char.ofNatAux n h
    if isDocumentChar c then some c else none
  else none

/-- A reference to a character by its number, after the ampersand and the number sign. -/
def characterReference : Scan Char := do
  let base := if ← accept "x" then 16 else 10
  let digits ← run (hexValue? · |>.isSome)
  expect ";"
  match (numeral? base digits).bind charOfNumber? with
  | some c => return c
  | none => failure

/-- The characters that have names of their own. -/
def namedChar? : String → Option Char
  | "amp" => some '&'
  | "lt" => some '<'
  | "gt" => some '>'
  | "quot" => some '"'
  | "apos" => some '\''
  | _ => none

/-! ### Remarks -/

/-- A comment after its opening: two hyphens stand only at its end. -/
def comment : Scan Unit := do
  discard (upTo "--")
  expect ">"

/-- An instruction after its opening. Its target is no declaration of the document in any case; one
that starts like it gets a warning unless it is a known one, and a colon in it is an error. -/
def instruction : Scan Unit := do
  let target ← name
  let front := (target.toList.take 3).map Char.toLower
  if front = "xml".toList then
    demand (target.length ≠ 3)
    if target ≠ "xml-stylesheet" && target ≠ "xml-model" then give .warning
  if target.toList.contains ':' then give .error
  if !(← accept "?>") then
    spaces
    discard (upTo "?>")

end Scan

end MplsReach.Xml
