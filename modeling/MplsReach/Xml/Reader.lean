/-
Reading a document.

* `Scan.prologue`: what a document says about itself: its character set, and whether it stands
  alone.
* `Scan.document`: the root element of a document.
* `Node.read`: the root element of a text, or the fault that it is malformed.
-/
import MplsReach.Fault
import MplsReach.Xml.Charset
import MplsReach.Xml.Content
import MplsReach.Xml.Subset

namespace MplsReach.Xml

namespace Scan

/-! ### What a document says about itself -/

/-- An entry of the declaration after its name: the text in quotes. -/
def entry : Scan String := do
  discard skipSpaces
  expect "="
  discard skipSpaces
  return String.ofList (← literal)

/-- Whether a version is one that can be read. -/
def isVersion (s : String) : Bool :=
  match s.toList with
  | '1' :: '.' :: ds => ds.all (·.isDigit)
  | _ => false

/-- Whether a text has the form of a character set's name. -/
def isCharsetName (s : String) : Bool :=
  s.toList.head?.any Char.isAlpha &&
    s.toList.all fun c => c.isAlphanum || c = '.' || c = '_' || c = '-'

/-- The declaration of a document after its opening: a version other than the first gets a warning;
then the name of a character set and whether the document stands alone may follow. -/
def declaredProperties : Scan (Option Charset × Bool) := do
  spaces
  expect "version"
  let version ← entry
  demand (isVersion version)
  if version ≠ "1.0" then give .warning
  let spaced ← skipSpaces
  let named ← accept "encoding"
  let charset ← if named then do
      demand spaced
      let name ← entry
      demand (isCharsetName name)
      match Charset.ofName? name with
      | some c => pure (some c)
      | none => failure
    else pure none
  let spaced ← if named then skipSpaces else pure spaced
  let standalone ← if ← accept "standalone" then do
      demand spaced
      let answer ← entry
      demand (answer = "yes" || answer = "no")
      pure (answer == "yes")
    else pure false
  discard skipSpaces
  expect "?>"
  return (charset, standalone)

/-- The mark that may stand in front of a document. -/
def byteOrderMark : Char := Char.ofNat 0xFEFF

/-- What a document says about itself: whether it stands alone. Its text goes on in the character
set that it names; a mark in front has the last word on that. -/
def prologue : Scan Bool := do
  let marked ← isNext byteOrderMark
  if marked then goTo ((← rest).drop 1)
  match ← rest with
  | '<' :: '?' :: 'x' :: 'm' :: 'l' :: c :: cs =>
    if !isSpace c then return false
    goTo (c :: cs)
    let (charset, standalone) ← declaredProperties
    match charset with
    | some charset =>
      if !marked then
        match charset.decode? (← rest) with
        | some cs => goTo cs
        | none => failure
    | none => pure ()
    return standalone
  | _ => return false

/-! ### Documents -/

/-- Blanks, comments and instructions outside of the root. -/
def remarks : (fuel : Nat) → Scan Unit
  | 0 => failure
  | n + 1 => do
    discard skipSpaces
    if ← accept "<!--" then
      comment
      remarks n
    else if ← accept "<?" then
      instruction
      remarks n

/-- The root element of a document. -/
def document : Scan Node := do
  let standalone ← prologue
  let fuel := (← rest).length + 1
  remarks fuel
  let d ← if ← accept "<!DOCTYPE" then documentType standalone
    else pure (.empty standalone)
  remarks fuel
  expect "<"
  let nodes ← element d
  remarks fuel
  demand (← rest).isEmpty
  match nodes with
  | [node] => return node
  | _ => failure

end Scan

/-- The root of a document given as characters: nothing is malformed, and the last notice is no
error. -/
def document? (cs : List Char) : Option Node :=
  match StateT.run Scan.document (.start cs) with
  | some (node, cursor) => if cursor.notice = some .error then none else some node
  | none => none

/-- The root element of a document. -/
def Node.read (s : String) : Except Fault Node :=
  match document? s.toList with
  | some n => .ok n
  | none => .error .malformedXml

end MplsReach.Xml
