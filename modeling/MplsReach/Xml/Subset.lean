/-
The declarations that a document carries in itself.

* `Scan.externalId`: where a thing that is kept elsewhere is found.
* `Scan.declaration`: one declaration of an element's content, of attributes, of an entity or of a
  notation.
* `Scan.documentType`: the document type of a document.

Entities for declarations stand between declarations; nothing that is kept elsewhere is fetched.
-/
import MplsReach.Xml.AttributeValue
import MplsReach.Xml.Uri

namespace MplsReach.Xml.Scan

/-! ### Things kept elsewhere -/

/-- Where a thing is kept. -/
inductive Outside where
  | absent
  /-- Known by a public identifier only. -/
  | known
  | located (uri : List Char)

/-- A public identifier. -/
def publicLiteral : Scan Unit := do
  let cs ← literal
  demand (cs.all isPublicChar)

/-- Where a thing is kept; a public identifier needs a place beside it unless `alone`. -/
def externalId (alone : Bool) : Scan Outside := do
  if ← accept "SYSTEM" then
    spaces
    return .located (← literal)
  if ← accept "PUBLIC" then
    spaces
    publicLiteral
    let spaced ← skipSpaces
    let quoted := (← isNext '"') || (← isNext '\'')
    if alone && !(spaced && quoted) then return .known
    demand spaced
    return .located (← literal)
  return .absent

/-- Notices on the place of an entity; it has no fragment. -/
def checkPlace (uri : List Char) : Scan Unit := do
  match Uri.form? uri with
  | none => give .error
  | some _ => demand !(uri.contains '#')

/-! ### Content of elements -/

/-- How often a part may occur. -/
def quantifier : Scan Unit := do
  if !(← accept "?") then
    if !(← accept "*") then discard (accept "+")

mutual

/-- One part of a content model. -/
def particle : (fuel : Nat) → Scan Unit
  | 0 => failure
  | n + 1 => do
    if ← accept "(" then group n else discard name
    quantifier

/-- A group of parts after its opening. -/
def group : (fuel : Nat) → Scan Unit
  | 0 => failure
  | n + 1 => do
    discard skipSpaces
    particle n
    discard skipSpaces
    separated n none

/-- The further parts of a group; one kind of separator stands between them. -/
def separated : (fuel : Nat) → (separator : Option Char) → Scan Unit
  | 0, _ => failure
  | n + 1, separator => do
    if ← accept ")" then return
    match ← rest with
    | c :: r =>
      demand ((c = ',' || c = '|') && separator.all (· = c))
      goTo r
      discard skipSpaces
      particle n
      discard skipSpaces
      separated n (some c)
    | [] => failure

end

/-- The names of a mixed content model, to its end. -/
def mixedNames : (fuel : Nat) → Scan Unit
  | 0 => failure
  | n + 1 => do
    if ← accept "|" then
      discard skipSpaces
      discard name
      discard skipSpaces
      mixedNames n
    else expect ")*"

/-- A content model. -/
def contentKind : Scan ContentKind := do
  if ← accept "EMPTY" then return .other
  if ← accept "ANY" then return .other
  expect "("
  let fuel := (← rest).length
  let inner ← rest
  discard skipSpaces
  if ← accept "#PCDATA" then
    discard skipSpaces
    if ← accept ")" then discard (accept "*") else mixedNames fuel
    return .other
  goTo inner
  group fuel
  quantifier
  return .elements

/-- The declaration of an element after its opening; a second one is an error. -/
def elementDeclaration (d : DocumentType) : Scan DocumentType := do
  spaces
  let element ← name
  spaces
  let kind ← contentKind
  discard skipSpaces
  expect ">"
  if (d.contents.lookup element).isSome then give .error
  return d.declareContent element kind

/-! ### Attributes -/

/-- The tokens of a list of values, after its opening. -/
def tokens : (fuel : Nat) → (seen : List (List Char)) → Scan Unit
  | 0, _ => failure
  | n + 1, seen => do
    discard skipSpaces
    let t ← run fun c => isNameChar c || c = ':'
    demand !t.isEmpty
    if seen.contains t then give .error
    discard skipSpaces
    if ← accept "|" then tokens n (t :: seen) else expect ")"

/-- The kind of an attribute's values. -/
def valueKind : Scan ValueKind := do
  if ← accept "CDATA" then return .text
  if ← accept "IDREFS" then return .references
  if ← accept "IDREF" then return .reference
  if ← accept "ID" then return .id
  if ← accept "ENTITY" then return .reference
  if ← accept "ENTITIES" then return .references
  if ← accept "NMTOKENS" then return .tokens
  if ← accept "NMTOKEN" then return .token
  let named ← accept "NOTATION"
  if named then spaces
  expect "("
  tokens (← rest).length []
  return if named then .reference else .tokens

/-- The default of an attribute, if it has one. -/
def defaultValue? (d : DocumentType) : Scan (Option (List Char)) := do
  if ← accept "#REQUIRED" then return none
  if ← accept "#IMPLIED" then return none
  if ← accept "#FIXED" then spaces
  return some (← attributeValue d)

/-- Notices on the declaration of an attribute. -/
def checkAttribute (d : DocumentType) (key : AttributeKey) (kind : ValueKind)
    (value : Option (List Char)) : Scan Unit := do
  if key.2 = "xml:id" && kind ≠ .id then give .error
  if value.any fun v => !kind.admits v then give .error
  if (d.attributes.lookup key).isSome then give .warning

/-- The attributes of an element, to the end of their declaration. -/
def attributeDeclarations (element : String) : (fuel : Nat) → DocumentType → Scan DocumentType
  | 0, _ => failure
  | n + 1, d => do
    if ← accept ">" then return d
    let key := (element, ← name)
    spaces
    let kind ← valueKind
    spaces
    let value ← defaultValue? d
    let value := if kind = .text then value else value.map joinWords
    let spaced ← skipSpaces
    demand (spaced || (← isNext '>'))
    checkAttribute d key kind value
    attributeDeclarations element n (d.declareAttribute key kind (value.map String.ofList))

/-- The declaration of attributes after its opening. -/
def attributeListDeclaration (d : DocumentType) : Scan DocumentType := do
  spaces
  let element ← name
  discard skipSpaces
  attributeDeclarations element (← rest).length d

/-! ### Entities -/

/-- The text of an entity as its value gives it: references to characters are resolved, those to
entities stay. References to entities for declarations stand only inside such entities. -/
def entityText (d : DocumentType) (inner : Bool) (includeText : List Char → Scan (List Char)) :
    (fuel : Nat) → Scan (List Char)
  | 0 => failure
  | n + 1 => do
    match ← rest with
    | [] => return []
    | '&' :: '#' :: r =>
      goTo r
      let c ← characterReference
      return c :: (← entityText d inner includeText n)
    | '&' :: r =>
      goTo r
      let s ← name
      expect ";"
      return '&' :: s.toList ++ ';' :: (← entityText d inner includeText n)
    | '%' :: r =>
      demand inner
      goTo r
      let s ← name
      expect ";"
      match d.parameters.lookup s with
      | some (.internal cs) =>
        expand cs
        let front ← includeText cs
        return front ++ (← entityText d inner includeText n)
      | _ => failure
    | _ =>
      let front ← run fun c => c ≠ '&' && c ≠ '%'
      return front ++ (← entityText d inner includeText n)

/-- The text of a value that stands for an entity, with less than `depth` levels of entities. -/
def resolveEntity (d : DocumentType) (inner : Bool) : (depth : Nat) → List Char → Scan (List Char)
  | 0, _ => failure
  | depth + 1, cs =>
    within cs (entityText d inner (resolveEntity d inner depth) (cs.length + 1))

/-- Whether an entity may stand for a character that has a name of its own. -/
def redeclares (c : Char) (e : Entity) : Bool :=
  match e with
  | .internal ['&', '#', 'x', a, b, ';'] =>
    numeral? 16 [a, b] = some c.toNat
  | .internal ['&', '#', a, b, ';'] => numeral? 10 [a, b] = some c.toNat
  | .internal [a] => a = c && c ≠ '&' && c ≠ '<'
  | _ => false

/-- An entity's value, or the place where it is kept. -/
def entityBody (d : DocumentType) (inner : Bool) : Scan Entity := do
  if (← isNext '"') || (← isNext '\'') then
    let raw ← literal
    return .internal (← resolveEntity d inner (entityDepth + 1) (Text.unifyNewlines raw))
  match ← externalId false with
  | .located uri =>
    checkPlace uri
    return .external
  | _ => failure

/-- The notation of an entity that is no text, if one is named. -/
def entityNotation : Scan Unit := do
  let spaced ← skipSpaces
  demand (spaced || (← isNext '>'))
  if ← accept "NDATA" then
    spaces
    discard name?

/-- The declaration of an entity after its opening; a colon in its name is an error. -/
def entityDeclaration (d : DocumentType) (inner : Bool) : Scan DocumentType := do
  spaces
  let parameter ← accept "%"
  if parameter then spaces
  let name ← name
  if name.toList.contains ':' then give .error
  spaces
  let body ← entityBody d inner
  if !parameter && body = .external then entityNotation
  discard skipSpaces
  expect ">"
  if parameter then return d.declareParameter name body
  match namedChar? name with
  | some c =>
    if !redeclares c body then give .warning
    return d
  | none => return d.declareEntity name body

/-- The declaration of a notation after its opening. -/
def notationDeclaration : Scan Unit := do
  spaces
  let name ← name
  if name.toList.contains ':' then give .error
  spaces
  match ← externalId true with
  | .absent => failure
  | _ =>
    discard skipSpaces
    expect ">"

/-! ### Declarations -/

/-- One declaration, comment or instruction. -/
def declaration (inner : Bool) (d : DocumentType) : Scan DocumentType := do
  if ← accept "<!--" then
    comment
    return d
  if ← accept "<?" then
    instruction
    return d
  if ← accept "<!ELEMENT" then elementDeclaration d
  else if ← accept "<!ATTLIST" then attributeListDeclaration d
  else if ← accept "<!ENTITY" then entityDeclaration d inner
  else
    expect "<!NOTATION"
    notationDeclaration
    return d

/-- Declarations up to the end of the text, or up to a bracket outside of all entities;
`includeText` reads the text of an entity for declarations. -/
def declarations (includeText : DocumentType → List Char → Scan DocumentType) (inner : Bool) :
    (fuel : Nat) → DocumentType → Scan DocumentType
  | 0, _ => failure
  | n + 1, d => do
    discard skipSpaces
    match ← rest with
    | [] =>
      demand inner
      return d
    | ']' :: r =>
      demand !inner
      goTo r
      return d
    | '%' :: r =>
      goTo r
      let name ← name
      expect ";"
      let d := { d with hasOutside := true }
      match d.parameters.lookup name with
      | some (.internal cs) =>
        expand cs
        declarations includeText inner n (← includeText d cs)
      | some .external =>
        give .warning
        declarations includeText inner n d
      | none =>
        demand !d.standalone
        give .warning
        declarations includeText inner n d
    | _ => declarations includeText inner n (← declaration inner d)

/-- The declarations in an entity's text, with `depth` levels of entities at most. -/
def includedDeclarations : (depth : Nat) → DocumentType → List Char → Scan DocumentType
  | 0, _, _ => failure
  | depth + 1, d, cs =>
    within cs (declarations (includedDeclarations depth) true (cs.length + 1) d)

/-- The document type of a document after its opening. -/
def documentType (standalone : Bool) : Scan DocumentType := do
  spaces
  discard name
  discard skipSpaces
  let d := DocumentType.empty standalone
  let d ← match ← externalId false with
    | .absent => pure d
    | _ => pure { d with hasOutside := true }
  discard skipSpaces
  let d ← if ← accept "[" then
      declarations (includedDeclarations entityDepth) false ((← rest).length + 1) d
    else pure d
  discard skipSpaces
  expect ">"
  return d

end MplsReach.Xml.Scan
