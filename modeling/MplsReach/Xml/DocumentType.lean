/-
What the document type of a document declares.

* `Entity`: a piece of text with a name, or one that is kept elsewhere.
* `ContentKind`: whether character data may stand in an element.
* `ValueKind`: what values an attribute may have.
* `DocumentType`: all declarations; where two speak of the same thing the first one counts.

Attributes are known by the names of their element and themselves as they are written, prefixes
included.
-/
import MplsReach.Text.Blank
import MplsReach.Xml.Character

namespace MplsReach.Xml

/-- A piece of text with a name. -/
inductive Entity where
  | internal (text : List Char)
  /-- Kept elsewhere, and never fetched. -/
  | external
deriving DecidableEq, Repr

/-- Whether character data may stand in an element. -/
inductive ContentKind where
  /-- Only elements. -/
  | elements
  /-- Character data, anything, or nothing at all. -/
  | other
deriving DecidableEq, Repr

/-- What values an attribute may have. -/
inductive ValueKind where
  | text
  | id
  /-- One name of something declared elsewhere. -/
  | reference
  | references
  | token
  /-- Tokens, or one of a list of tokens. -/
  | tokens
deriving DecidableEq, Repr

/-- An attribute: the names of its element and itself. -/
abbrev AttributeKey := String × String

/-- The declarations of a document type. -/
structure DocumentType where
  entities : List (String × Entity)
  /-- Entities for use in declarations. -/
  parameters : List (String × Entity)
  contents : List (String × ContentKind)
  /-- Every declared attribute. -/
  attributes : List (AttributeKey × ValueKind)
  /-- The first declaration of each attribute that takes more than plain text. -/
  typed : List (AttributeKey × ValueKind)
  defaults : List (AttributeKey × String)
  /-- Whether declarations may stand outside the document. -/
  hasOutside : Bool
  /-- Whether the document says that it depends on no declaration outside. -/
  standalone : Bool

namespace DocumentType

/-- No declarations. -/
def empty (standalone : Bool) : DocumentType := ⟨[], [], [], [], [], [], false, standalone⟩

/-- Whether a reference to an entity that is not declared makes the document malformed. -/
def isClosed (d : DocumentType) : Bool := d.standalone || !d.hasOutside

/-- Whether values of an attribute are lists of words. -/
def isTyped (d : DocumentType) (key : AttributeKey) : Bool := (d.typed.lookup key).isSome

/-- Whether an attribute identifies its element. -/
def identifies (d : DocumentType) (key : AttributeKey) : Bool :=
  d.attributes.lookup key = some .id

/-- The attributes that an element has without being written, in the order of declaration. -/
def defaultsOf (d : DocumentType) (element : String) : List (String × String) :=
  (d.defaults.filter (·.1.1 = element)).map fun a => (a.1.2, a.2)

/-! ### Declaring -/

/-- An entity; the first declaration of a name counts. -/
def declareEntity (d : DocumentType) (name : String) (e : Entity) : DocumentType :=
  if (d.entities.lookup name).isSome then d else { d with entities := d.entities ++ [(name, e)] }

/-- An entity for declarations; the first declaration of a name counts. -/
def declareParameter (d : DocumentType) (name : String) (e : Entity) : DocumentType :=
  if (d.parameters.lookup name).isSome then d
  else { d with parameters := d.parameters ++ [(name, e)] }

/-- The content of an element; the first declaration of a name counts. -/
def declareContent (d : DocumentType) (name : String) (k : ContentKind) : DocumentType :=
  if (d.contents.lookup name).isSome then d else { d with contents := d.contents ++ [(name, k)] }

/-- An attribute with its default, if it has one. A default counts unless an earlier declaration
gave the attribute a type; of several defaults the first counts. -/
def declareAttribute (d : DocumentType) (key : AttributeKey) (kind : ValueKind)
    (default : Option String) : DocumentType :=
  let attributes :=
    if (d.attributes.lookup key).isSome then d.attributes else d.attributes ++ [(key, kind)]
  let defaults := match default with
    | some v => if d.isTyped key || (d.defaults.lookup key).isSome then d.defaults
      else d.defaults ++ [(key, v)]
    | none => d.defaults
  let typed := if kind = .text || d.isTyped key then d.typed else d.typed ++ [(key, kind)]
  { d with attributes, defaults, typed }

end DocumentType

/-! ### Values -/

/-- Words cut at spaces; several spaces count as one. -/
def spacedWords (cs : List Char) : List (List Char) :=
  (Text.cutWhere (· = ' ') cs).filter (!·.isEmpty)

/-- The words of a value with one space between them. -/
def joinWords (cs : List Char) : List Char := [' '].intercalate (spacedWords cs)

/-- Whether an attribute of a kind may have a value. -/
def ValueKind.admits (kind : ValueKind) (cs : List Char) : Bool :=
  match kind with
  | text => true
  | id | reference => isName cs
  | references => !(spacedWords cs).isEmpty && (spacedWords cs).all isName
  | token => isNameToken cs
  | tokens => !(spacedWords cs).isEmpty && (spacedWords cs).all isNameToken

end MplsReach.Xml
