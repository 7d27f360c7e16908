/-
Values of attributes.

* `Scan.attributeValue`: a value in quotes, with its references resolved and its blanks as spaces.
-/
import MplsReach.Text.Blank
import MplsReach.Text.Lines
import MplsReach.Xml.DocumentType
import MplsReach.Xml.Scan

namespace MplsReach.Xml.Scan

/-- Characters of a value that stand for themselves; blanks become spaces. -/
def valueText (cs : List Char) : Scan (List Char) := do
  demand (cs.all fun c => c ≠ '<' && isDocumentChar c)
  return cs.map fun c => if isSpace c then ' ' else c

/-- A reference to an entity that is not declared: an error, or worse where all declarations are
known. -/
def undeclared (d : DocumentType) : Scan Unit := do
  demand !d.isClosed
  give .error

/-- What a reference in a value stands for; `expandText` resolves the text of an entity. -/
def valueReference (d : DocumentType) (expandText : List Char → Scan (List Char)) :
    Scan (List Char) := do
  if ← accept "#" then return [← characterReference]
  let name ← name
  expect ";"
  match namedChar? name, d.entities.lookup name with
  | some c, _ => return [c]
  | none, some (.internal cs) =>
    expand cs
    expandText cs
  | none, some .external => failure
  | none, none =>
    undeclared d
    return []

/-- What follows an ampersand in a value: a reference, then text. -/
def valuePart (d : DocumentType) (expandText : List Char → Scan (List Char)) (cs : List Char) :
    Scan (List Char) := do
  let outer ← rest
  goTo cs
  let front ← valueReference d expandText
  let back ← valueText (← rest)
  goTo outer
  return front ++ back

/-- A value given as characters, with less than `depth` levels of entities. -/
def resolveValue (d : DocumentType) : (depth : Nat) → List Char → Scan (List Char)
  | 0, _ => failure
  | depth + 1, cs =>
    match Text.cutWhere (· = '&') cs with
    | [] => return []
    | part :: parts => do
      let front ← valueText part
      let back ← parts.mapM (valuePart d (resolveValue d depth))
      return front ++ back.flatten

/-- How deep entities may refer to each other. -/
def entityDepth : Nat := 40

/-- A value in quotes. -/
def attributeValue (d : DocumentType) : Scan (List Char) := do
  let raw ← literal
  resolveValue d (entityDepth + 1) (Text.unifyNewlines raw)

end MplsReach.Xml.Scan
