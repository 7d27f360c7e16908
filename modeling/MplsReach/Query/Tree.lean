/-
Syntax trees that can be changed in place.

The nodes of a tree are known by number, because a node may be moved, and because a node in a list
does not know the node above it.

* `Shape`: a node is a token, or has a fixed number of children with a name each, or a list of
  children.
* `Tree.ofQuery`: the tree of a query.
* `Tree.setChild`, `removeChild`, `replaceChild`: changes that keep the node above in step.
* `Form`: what a node and all below it look like at one time; `Tree.form` reads it off.
* `Tree.add`: a form as new nodes.
-/
import MplsReach.Query.Ast

namespace MplsReach.Query

/-! ### Kinds of nodes -/

/-- The kinds of nodes whose children have names. -/
inductive BranchKind where
  | start | query
  | simpleSymbol | tupleSymbol | literal
  | simpleAtom | any | alternative | quantified
  | zeroOrMore | oneOrMore | zeroOrOne
deriving DecidableEq, Repr

namespace BranchKind

/-- The name of a kind. -/
def name : BranchKind → String
  | start => "Start"
  | query => "AQuery"
  | simpleSymbol => "ASimpleSymbol"
  | tupleSymbol => "ATupleSymbol"
  | literal => "ALiteralSymbolType"
  | simpleAtom => "ASimpleAtom"
  | any => "AAnyAtom"
  | alternative => "AAlternativeAtom"
  | quantified => "AQuantifiedAtom"
  | zeroOrMore => "AZeroOrMoreQuantifier"
  | oneOrMore => "AOneOrMoreQuantifier"
  | zeroOrOne => "AZeroOrOneQuantifier"

/-- The names of the children. -/
def fields : BranchKind → List String
  | start => ["PQuery", "EOF"]
  | query => ["Constructing", "Network", "Destructing"]
  | simpleSymbol => ["SymbolType"]
  | tupleSymbol => ["Router", "Interface", "Failures", "Ops"]
  | literal => ["Word"]
  | simpleAtom => ["Symbol"]
  | alternative => ["Left", "Right"]
  | quantified => ["Atom", "Quantifier"]
  | any | zeroOrMore | oneOrMore | zeroOrOne => []

/-- All kinds. -/
def all : List BranchKind :=
  [start, query, simpleSymbol, tupleSymbol, literal, simpleAtom, any, alternative, quantified,
   zeroOrMore, oneOrMore, zeroOrOne]

/-- The kind of a quantifier. -/
def ofQuantifier : Quantifier → BranchKind
  | .zeroOrMore => zeroOrMore
  | .oneOrMore => oneOrMore
  | .zeroOrOne => zeroOrOne

/-- The quantifier of a kind, if it is one of a quantifier. -/
def quantifier? : BranchKind → Option Quantifier
  | zeroOrMore => some .zeroOrMore
  | oneOrMore => some .oneOrMore
  | zeroOrOne => some .zeroOrOne
  | _ => none

end BranchKind

/-- The kinds of nodes with a list of children. -/
inductive SeriesKind where
  | sequence | negativeSet | positiveSet
deriving DecidableEq, Repr

namespace SeriesKind

/-- The name of a kind. -/
def name : SeriesKind → String
  | sequence => "ASequenceAtom"
  | negativeSet => "ANegativeSetAtom"
  | positiveSet => "APositiveSetAtom"

/-- The name of the list of children. -/
def field : SeriesKind → String
  | sequence => "Atoms"
  | negativeSet | positiveSet => "Symbols"

/-- All kinds. -/
def all : List SeriesKind := [sequence, negativeSet, positiveSet]

end SeriesKind

/-! ### Trees -/

/-- The number of a node. -/
abbrev NodeId := Nat

/-- What a node is, with its children, any of which may be missing. -/
inductive Shape where
  | leaf (token : Token)
  | branch (kind : BranchKind) (children : List (Option NodeId))
  | series (kind : SeriesKind) (items : List (Option NodeId))
deriving Repr

/-- The name of what a node is. -/
def Shape.name : Shape → String
  | leaf t => t.kind.name
  | branch k _ => k.name
  | series k _ => k.name

/-- A node, and the node above it, if it knows one. -/
structure Node where
  shape : Shape
  parent : Option NodeId
deriving Repr

/-- Nodes by their numbers. -/
structure Tree where
  nodes : List Node
  root : NodeId
deriving Repr

namespace Tree

/-- No nodes. -/
def empty : Tree := ⟨[], 0⟩

/-- The node of a number. -/
def node? (t : Tree) (n : NodeId) : Option Node := t.nodes[n]?

/-- What a node is. -/
def shape? (t : Tree) (n : NodeId) : Option Shape := (t.node? n).map (·.shape)

/-- The node above a node. -/
def parent? (t : Tree) (n : NodeId) : Option NodeId := (t.node? n).bind (·.parent)

/-- Another shape for a node. -/
def setShape (t : Tree) (n : NodeId) (s : Shape) : Tree :=
  { t with nodes := t.nodes.modify n fun x => { x with shape := s } }

/-- Another node above a node. -/
def setParent (t : Tree) (parent : Option NodeId) : Option NodeId → Tree
  | some n => { t with nodes := t.nodes.modify n fun x => { x with parent := parent } }
  | none => t

/-- A node is taken out of the children of another node, where it stands first. -/
def removeChild (t : Tree) (n : NodeId) (child : Option NodeId) : Tree :=
  match t.shape? n with
  | some (.branch k cs) => t.setShape n (.branch k (dropFirst cs))
  | some (.series k is) => t.setShape n (.series k (is.erase child))
  | _ => t
where
  dropFirst : List (Option NodeId) → List (Option NodeId)
    | [] => []
    | c :: cs => if c = child then none :: cs else c :: dropFirst cs

/-- A node becomes the child of another node in place of the one there, and leaves the node that
was above it. -/
def setChild (t : Tree) (n : NodeId) (position : Nat) (child : Option NodeId) : Tree :=
  let t := t.setParent none (childAt t)
  let t := match child.bind t.parent? with
    | some above => t.removeChild above child
    | none => t
  let t := t.setParent (some n) child
  match t.shape? n with
  | some (.branch k cs) => t.setShape n (.branch k (cs.set position child))
  | _ => t
where
  childAt (t : Tree) : Option NodeId :=
    match t.shape? n with
    | some (.branch _ cs) => (cs[position]?).join
    | _ => none

/-- A child is replaced by another node. A list of children refuses. -/
def replaceChild (t : Tree) (n : NodeId) (old new : Option NodeId) : Except Fault Tree :=
  match t.shape? n with
  | some (.branch _ cs) =>
    match cs.findIdx? (· = old) with
    | some i => .ok (t.setChild n i new)
    | none => .ok t
  | some (.series ..) => .error .wrongKind
  | _ => .ok t

/-- The children of a list are put in reverse order. -/
def reverseItems (t : Tree) (n : NodeId) : Tree :=
  match t.shape? n with
  | some (.series k is) => t.setShape n (.series k is.reverse)
  | _ => t

end Tree

/-! ### Forms -/

/-- What a node and all below it look like. -/
inductive Form where
  | missing
  | leaf (token : Token)
  | branch (kind : BranchKind) (children : List Form)
  | series (kind : SeriesKind) (items : List Form)
deriving Inhabited

namespace Form

/-- The form of a word that may be left out. -/
def ofWord : Option Token → Form
  | some t => .branch .literal [.leaf t]
  | none => .missing

/-- The form of a symbol. -/
def ofSymbol : Symbol → Form
  | .simple t => .branch .simpleSymbol [ofWord (some t)]
  | .tuple r i f o => .branch .tupleSymbol [ofWord r, ofWord i, ofWord f, ofWord o]

mutual

/-- The form of an expression. -/
def ofAtom : Atom → Form
  | .simple s => .branch .simpleAtom [ofSymbol s]
  | .any => .branch .any []
  | .positiveSet ss => .series .positiveSet (ss.map ofSymbol)
  | .negativeSet ss => .series .negativeSet (ss.map ofSymbol)
  | .sequence as => .series .sequence (ofAtoms as)
  | .alternative l r => .branch .alternative [ofAtom l, ofAtom r]
  | .quantified a q => .branch .quantified [ofAtom a, .branch (.ofQuantifier q) []]

/-- The forms of expressions. -/
def ofAtoms : List Atom → List Form
  | [] => []
  | a :: as => ofAtom a :: ofAtoms as

end

/-- The form of an expression that may be left out. -/
def ofOption : Option Atom → Form
  | some a => ofAtom a
  | none => .missing

/-- The form of a query and the token at its end. -/
def ofQuery (q : Query) (ending : Token) : Form :=
  .branch .start
    [.branch .query [ofOption q.constructing, ofAtom q.network, ofOption q.destructing],
     .leaf ending]

mutual

/-- The tokens of a form, one after the other. A list that is not empty has no written form. -/
def render : Form → Except Fault String
  | .missing => .ok ""
  | .leaf t => .ok t.render
  | .branch _ cs => renderAll cs
  | .series _ [] => .ok ""
  | .series _ (_ :: _) => .error .undefinedName

/-- The tokens of forms, one after the other. -/
def renderAll : List Form → Except Fault String
  | [] => .ok ""
  | f :: fs => do
    let s ← render f
    pure (s ++ (← renderAll fs))

end

mutual

/-- A copy. The token at the end of a query loses a text that was given to it. -/
def copy : Form → Except Fault Form
  | .missing => .ok .missing
  | .leaf t => .ok (.leaf (if t.kind = .ending then { t with text := "" } else t))
  | .branch k cs => do pure (.branch k (← copyAll cs))
  | .series k is => do pure (.series k (← copyItems is))

/-- Copies of children. -/
def copyAll : List Form → Except Fault (List Form)
  | [] => .ok []
  | f :: fs => do pure ((← copy f) :: (← copyAll fs))

/-- Copies of the nodes in a list, none of which may be missing. -/
def copyItems : List Form → Except Fault (List Form)
  | [] => .ok []
  | .missing :: _ => .error .missingPart
  | f :: fs => do pure ((← copy f) :: (← copyItems fs))

end

/-- A new node of a kind, without children. A word needs a text. -/
def blank (name : String) : Except Fault Form :=
  match BranchKind.all.find? (·.name = name) with
  | some k => .ok (.branch k (k.fields.map fun _ => .missing))
  | none =>
    match SeriesKind.all.find? (·.name = name) with
    | some k => .ok (.series k [])
    | none =>
      match TokenKind.ofName? name with
      | some .word | some .blank => .error .wrongKind
      | some k => .ok (.leaf ⟨k, k.fixedText?.getD "", 0, 0⟩)
      | none => .error .missingPart

end Form

namespace Tree

/-- One more node. -/
def addNode (t : Tree) (s : Shape) : Tree × NodeId :=
  ({ t with nodes := t.nodes ++ [⟨s, none⟩] }, t.nodes.length)

mutual

/-- A form as new nodes, each of which knows the node above it unless it stands in a list. -/
def add (t : Tree) : Form → Tree × Option NodeId
  | .missing => (t, none)
  | .leaf token =>
    let (t, n) := t.addNode (.leaf token)
    (t, some n)
  | .branch k fs =>
    let (t, cs) := t.addAll fs
    let (t, n) := t.addNode (.branch k cs)
    (cs.foldl (fun t c => t.setParent (some n) c) t, some n)
  | .series k fs =>
    let (t, is) := t.addAll fs
    let (t, n) := t.addNode (.series k is)
    (t, some n)

/-- Forms as new nodes. -/
def addAll (t : Tree) : List Form → Tree × List (Option NodeId)
  | [] => (t, [])
  | f :: fs =>
    let (t, n) := t.add f
    let (t, ns) := t.addAll fs
    (t, n :: ns)

end

/-- The tree of a query and the token at its end. -/
def ofQuery (q : Query) (ending : Token) : Tree :=
  let (t, n) := empty.add (.ofQuery q ending)
  { t with root := n.getD 0 }

/-- The form of a node, by descents that are not longer than a bound. -/
def formWithin (t : Tree) : Nat → Option NodeId → Except Fault Form
  | _, none => .ok .missing
  | 0, some _ => .error .endless
  | bound + 1, some n =>
    match t.shape? n with
    | some (.leaf token) => .ok (.leaf token)
    | some (.branch k cs) => do pure (.branch k (← cs.mapM (t.formWithin bound)))
    | some (.series k is) => do pure (.series k (← is.mapM (t.formWithin bound)))
    | none => .ok .missing

/-- No descent without a cycle is longer than the number of nodes. -/
def depthBound (t : Tree) : Nat := t.nodes.length + 1

/-- The form of a node. -/
def form (t : Tree) (n : Option NodeId) : Except Fault Form := t.formWithin t.depthBound n

end Tree

end MplsReach.Query
