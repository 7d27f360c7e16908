/-
Documents as trees of elements.

* `Name`: a local name, in a name space or in none.
* `Node`: an element with its attributes and children, a piece of text, or a remark (a comment or an
  instruction).
* `Node.findAll`, `Node.find?`, `Node.attribute?`: look-ups by names that are in no name space.
* `Node.leadingText?`: the text in front of the first child that is not text.
* `Node.withoutSpaces`: the same tree with every element in no name space.
-/
import MplsReach.Fault
import MplsReach.Xml.Character

namespace MplsReach.Xml

/-- A name with its name space. -/
structure Name where
  space : Option String
  base : String
deriving DecidableEq, Repr

/-- A node of a document. -/
inductive Node where
  | element (name : Name) (attributes : List (Name × String)) (children : List Node)
  | text (s : String)
  | remark
deriving Repr

namespace Node

/-- The children of an element; text and remarks have none. -/
def children : Node → List Node
  | element _ _ cs => cs
  | _ => []

/-- Whether a node is a piece of text. -/
def isText : Node → Bool
  | text _ => true
  | _ => false

/-- Whether a node is an element with a name that is in no name space. -/
def isNamed (name : String) : Node → Bool
  | element n _ _ => n.space.isNone && n.base = name
  | _ => false

/-- The children of that name, in order. -/
def findAll (name : String) (node : Node) : List Node :=
  node.children.filter (·.isNamed name)

/-- The first child of that name. -/
def find? (name : String) (node : Node) : Option Node :=
  node.children.find? (·.isNamed name)

/-- The value of an attribute that is in no name space. -/
def attribute? (name : String) : Node → Option String
  | element _ as _ => (as.find? fun a => a.1.space.isNone && a.1.base = name).map (·.2)
  | _ => none

/-- The run of text nodes at the front of a list of nodes. -/
def leadingTexts : List Node → List String
  | text s :: ns => s :: leadingTexts ns
  | _ => []

/-- The text in front of the first child that is not text, if there is any text node. -/
def leadingText? (node : Node) : Option String :=
  match leadingTexts node.children with
  | [] => none
  | ss => some (String.join ss)

/-! ### Without name spaces -/

/-- Whether a local name can be given to an element or attribute of its own. A colon in it asks for
a prefix, and only one prefix is known where names are given. -/
def isGivable (base : String) : Bool :=
  !base.toList.contains ':' ||
    ("xsl:".toList.isPrefixOf base.toList && isPlainName (base.toList.drop 4))

mutual

/-- The same tree with every element and attribute in no name space. -/
def withoutSpaces : Node → Except Fault Node
  | element n as cs => do
    if !isGivable n.base then throw .unboundName
    if as.any fun a => !isGivable a.1.base || a.1.base = "xmlns" then throw .unboundName
    let cs ← withoutSpacesAll cs
    return element ⟨none, n.base⟩ (as.map fun a => (⟨none, a.1.base⟩, a.2)) cs
  | text s => return text s
  | remark => return remark

/-- The same trees with every element and attribute in no name space. -/
def withoutSpacesAll : List Node → Except Fault (List Node)
  | [] => return []
  | n :: ns => do
    let n ← withoutSpaces n
    return n :: (← withoutSpacesAll ns)

end

end Node

end MplsReach.Xml
