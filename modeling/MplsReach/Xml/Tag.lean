/-
Opening tags.

* `Tag`: an element's name and attributes in its own scope, and whether blanks count in it.
* `Scan.tag`: an opening tag, and whether it closes the element at once.

Notices come in a fixed order: on the names and declarations as they are written, then on attributes
without a name space or with the same name, then on the element's name, then on identifiers.
-/
import MplsReach.Xml.AttributeValue
import MplsReach.Xml.Scope

namespace MplsReach.Xml

/-- The start of an element. -/
structure Tag where
  written : Written
  scope : Scope
  name : Name
  attributes : List (Name × String)
  keepsBlanks : Bool

/-- What has been read of the attributes in a tag. -/
structure TagReading where
  declared : Scope
  plain : List (Written × String)
  keepsBlanks : Bool

namespace Scan

/-! ### One attribute -/

/-- The attribute that says whether blanks count. -/
def blankRule (w : Written) (value : String) (keepsBlanks : Bool) : Scan Bool := do
  if w = ⟨some "xml", "space"⟩ then
    match value with
    | "default" => return false
    | "preserve" => return true
    | _ =>
      give .warning
      return keepsBlanks
  return keepsBlanks

/-- One attribute of an element. -/
def oneAttribute (d : DocumentType) (element : Written) : Scan (Written × String) := do
  let (pre, base) ← qualifiedName
  let w : Written := ⟨pre, base⟩
  discard skipSpaces
  expect "="
  discard skipSpaces
  let value ← attributeValue d
  let value := if d.isTyped (element.text, w.text) then joinWords value else value
  return (w, String.ofList value)

/-- An attribute's part in a tag. -/
def placeAttribute (r : TagReading) (w : Written) (value : String) : Scan TagReading := do
  let keepsBlanks ← blankRule w value r.keepsBlanks
  let r := { r with keepsBlanks }
  match ← attributeRole w value with
  | .declares pre space =>
    demand !(r.declared.any (·.1 = pre))
    return { r with declared := r.declared ++ [(pre, space)] }
  | .void => return r
  | .plain => return { r with plain := r.plain ++ [(w, value)] }

/-- The attributes of a tag and whether it is closed at once; `spaced` says that a blank stands in
front. -/
def attributes (d : DocumentType) (element : Written) :
    (fuel : Nat) → (spaced : Bool) → TagReading → Scan (TagReading × Bool)
  | 0, _, _ => failure
  | n + 1, spaced, r => do
    if ← accept ">" then return (r, false)
    if ← accept "/>" then return (r, true)
    demand spaced
    let (w, value) ← oneAttribute d element
    let r ← placeAttribute r w value
    attributes d element n (← skipSpaces) r

/-! ### Defaults -/

/-- A declared name with its prefix apart. -/
def splitWritten (name : String) : Written :=
  match name.toList.span (· ≠ ':') with
  | (front, _ :: back) =>
    if front.isEmpty then ⟨none, name⟩ else ⟨some (String.ofList front), String.ofList back⟩
  | _ => ⟨none, name⟩

/-- A default attribute, unless the tag has it. -/
def placeDefault (r : TagReading) (name value : String) : TagReading :=
  let w := splitWritten name
  let space? : Option (Option String) :=
    if w = ⟨none, "xmlns"⟩ then some none
    else if w.pre = some "xmlns" then some (some w.base)
    else none
  match space? with
  | some pre =>
    if r.declared.any (·.1 = pre) then r
    else { r with declared := r.declared ++ [(pre, value)] }
  | none =>
    if r.plain.any (·.1 = w) then r else { r with plain := r.plain ++ [(w, value)] }

/-! ### Names -/

/-- Notices on attributes: no two are written alike, and no two have one name. -/
def checkAttributes (scope : Scope) : List (Written × String) → (seen : List Written) → Scan Unit
  | [], _ => return
  | (w, _) :: as, seen => do
    if scope.isLost w then give .error
    demand !(seen.contains w)
    if w.pre.isSome && seen.any (fun v => scope.attributeName v = scope.attributeName w) then
      give .error
    checkAttributes scope as (w :: seen)

/-- Registers an identifier; one that is taken is an error. -/
def identify (value : String) : Scan Unit := do
  if value ≠ "" then
    let c ← get
    if c.ids.contains value then give .error
    else set { c with ids := value :: c.ids }

/-- Notices on identifiers. -/
def identifiers (d : DocumentType) (element : Written) : List (Written × String) → Scan Unit
  | [] => return
  | (w, value) :: as => do
    if w = ⟨some "xml", "id"⟩ then
      if !isPlainName ((value.toList.dropWhile isSpace).reverse.dropWhile isSpace).reverse then
        give .error
      identify value
    else if d.identifies (element.text, w.text) then identify value
    identifiers d element as

/-- An opening tag after its bracket, in the scope of the element around it, and whether it closes
the element at once. -/
def tag (d : DocumentType) (fuel : Nat) (outer : Scope) (keepsBlanks : Bool) :
    Scan (Tag × Bool) := do
  let (pre, base) ← qualifiedName
  let w : Written := ⟨pre, base⟩
  let spaced ← skipSpaces
  let (r, closed) ← attributes d w fuel spaced ⟨[], [], keepsBlanks⟩
  let r := (d.defaultsOf w.text).foldl (fun r a => placeDefault r a.1 a.2) r
  let scope := r.declared ++ outer
  checkAttributes scope r.plain []
  if scope.isLost w then give .error
  identifiers d w r.plain
  let attributes := r.plain.map fun a => (scope.attributeName a.1, a.2)
  return (⟨w, scope, scope.elementName w, attributes, r.keepsBlanks⟩, closed)

end Scan

end MplsReach.Xml
