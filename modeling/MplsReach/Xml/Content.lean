/-
The content of elements.

* `OpenElement`: an element whose end has not been read.
* `Stack`: the open elements, around the nodes that stand outside of all of them.
* `Stack.step`: one piece of content: a tag, a remark, a reference or character data.
* `Scan.expandEntity`: the nodes that the text of an entity stands for.

A chunk of blanks is layout, and dropped, where the element is declared to hold only elements, or
where it can only be layout: in front of the first child unless the element ends there, and after a
child unless the content starts or goes on with text.
-/
import MplsReach.Xml.CharacterData
import MplsReach.Xml.Tag

namespace MplsReach.Xml

/-- An element that is still open; its children stand in reverse order. -/
structure OpenElement where
  tag : Tag
  children : List Node

/-- The open elements: the innermost one and those around it, the last of which stands for the text
as a whole. -/
structure Stack where
  top : OpenElement
  below : List OpenElement

namespace Stack

/-- Nothing read yet, in a scope. -/
def start (scope : Scope) : Stack := ⟨⟨⟨⟨none, ""⟩, scope, ⟨none, ""⟩, [], false⟩, []⟩, []⟩

/-- A node added to the innermost element. -/
def add (s : Stack) (node : Node) : Stack :=
  { s with top := { s.top with children := node :: s.top.children } }

/-- Text added to the innermost element. -/
def addText (s : Stack) (cs : List Char) : Stack := s.add (.text (String.ofList cs))

/-! ### Layout -/

/-- Whether the content read so far starts or ends with text. -/
def touchesText (children : List Node) : Bool :=
  children.head?.any Node.isText || children.getLast?.any Node.isText

/-- Whether blanks are layout, given the children before and the text after them. -/
def looksLikeLayout (children : List Node) (after : List Char) : Bool :=
  match after with
  | '<' :: '/' :: _ => !children.isEmpty && !touchesText children
  | '<' :: _ | '\r' :: _ => !touchesText children
  | _ => false

/-- Whether a chunk is layout in the innermost element. -/
def isLayout (d : DocumentType) (s : Stack) (chunk after : List Char) : Bool :=
  chunk.all isSpace && !s.top.tag.keepsBlanks &&
    match d.contents.lookup s.top.tag.name.base with
    | some .elements => true
    | some .other => false
    | none => looksLikeLayout s.top.children after

/-- A chunk of character data. -/
def addChunk (d : DocumentType) (s : Stack) (chunk : CharacterData.Chunk) : Stack :=
  if s.isLayout d chunk.1 chunk.2 then s else s.addText chunk.1

/-! ### Pieces -/

/-- The deepest level at which an element may stand. -/
def depthLimit : Nat := 257

/-- An opening tag after its bracket. -/
def opening (d : DocumentType) (fuel : Nat) (s : Stack) : Scan Stack := do
  Scan.demand (s.below.length < depthLimit)
  let (tag, closed) ← Scan.tag d fuel s.top.tag.scope s.top.tag.keepsBlanks
  if closed then return s.add (.element tag.name tag.attributes [])
  else return ⟨⟨tag, []⟩, s.top :: s.below⟩

/-- A closing tag after its bracket and slash: it closes the innermost element, by the same name. -/
def closing (s : Stack) : Scan Stack := do
  match s.below with
  | [] => failure
  | outer :: below =>
    Scan.expect s.top.tag.written.text
    discard Scan.skipSpaces
    Scan.expect ">"
    let node := Node.element s.top.tag.name s.top.tag.attributes s.top.children.reverse
    return add ⟨outer, below⟩ node

/-- A reference to an entity after its ampersand; `expandEntity` reads the text of an entity. -/
def reference (d : DocumentType) (expandEntity : Scope → List Char → Scan (List Node))
    (s : Stack) : Scan Stack := do
  let name ← Scan.name
  Scan.expect ";"
  match Scan.namedChar? name, d.entities.lookup name with
  | some c, _ => return s.addText [c]
  | none, some (.internal cs) =>
    let nodes ← Scan.replacement name cs (expandEntity s.top.tag.scope cs)
    return nodes.foldl add s
  | none, some .external => failure
  | none, none =>
    Scan.undeclared d
    return s.add .remark

/-- A run of character data; the end of a verbatim section does not stand in it. -/
def characterData (d : DocumentType) (s : Stack) : Scan Stack := do
  let cs ← Scan.rest
  let body := cs.takeWhile fun c => c ≠ '<' && c ≠ '&'
  Scan.demand (cutBefore [']', ']', '>'] body).isNone
  let (chunks, after) := CharacterData.chunks cs
  Scan.demand (after.head?.all fun c => c = '<' || c = '&')
  Scan.goTo after
  return chunks.foldl (addChunk d) s

/-- One piece of content. -/
def step (d : DocumentType) (fuel : Nat) (expandEntity : Scope → List Char → Scan (List Node))
    (s : Stack) : Scan Stack := do
  match ← Scan.rest with
  | '<' :: '/' :: r =>
    Scan.goTo r
    s.closing
  | '<' :: '!' :: '-' :: '-' :: r =>
    Scan.goTo r
    Scan.comment
    return s.add .remark
  | '<' :: '!' :: '[' :: 'C' :: 'D' :: 'A' :: 'T' :: 'A' :: '[' :: r =>
    Scan.goTo r
    let cs ← Scan.upTo "]]>"
    return s.addText (Text.unifyNewlines cs)
  | '<' :: '?' :: r =>
    Scan.goTo r
    Scan.instruction
    return s.add .remark
  | '<' :: r =>
    Scan.goTo r
    s.opening d fuel
  | '&' :: '#' :: r =>
    Scan.goTo r
    return s.addText [← Scan.characterReference]
  | '&' :: r =>
    Scan.goTo r
    s.reference d expandEntity
  | _ => s.characterData d

/-- Content until a condition on the open elements and the rest of the text holds. -/
def run (d : DocumentType) (fuel : Nat) (expandEntity : Scope → List Char → Scan (List Node))
    (isDone : Stack → List Char → Bool) : (pieces : Nat) → Stack → Scan Stack
  | 0, _ => failure
  | n + 1, s => do
    if isDone s (← Scan.rest) then return s
    run d fuel expandEntity isDone n (← s.step d fuel expandEntity)

end Stack

namespace Scan

/-- The nodes that the text of an entity stands for, with `depth` levels of entities at most. -/
def expandEntity (d : DocumentType) : (depth : Nat) → Scope → List Char → Scan (List Node)
  | 0, _, _ => failure
  | depth + 1, scope, cs => within cs do
    let fuel := cs.length + 1
    let s ← Stack.run d fuel (expandEntity d depth) (fun _ rest => rest.isEmpty) fuel
      (.start scope)
    demand s.below.isEmpty
    return s.top.children.reverse

/-- An element after its bracket, to its end. -/
def element (d : DocumentType) : Scan (List Node) := do
  let fuel := (← rest).length + 1
  let s ← (Stack.start .outermost).opening d fuel
  let s ← s.run d fuel (expandEntity d entityDepth) (fun s _ => s.below.isEmpty) fuel
  return s.top.children

end Scan

end MplsReach.Xml
