/-
Syntax trees drawn as automata.

A tree that was changed by hand need not be an expression: children may be missing, and any node
may stand anywhere. A drawing follows the tree as far as it makes sense. The symbols of an automaton
are names, one of which may be missing.

* `Drawer`: who draws. A builder puts the parts of every sequence in reverse order before it draws
  them, in the tree as well; a bare drawer knows no symbols.
* `Drawing.atom`: a node between two locations.
* `Tree.draw`: the automaton of a node, and the tree afterwards.
-/
import MplsReach.Query.Drawing
import MplsReach.Query.Tree

namespace MplsReach.Query

/-- Who draws. -/
inductive Drawer where
  | bare
  | builder
  | remover
deriving DecidableEq, Repr

/-- What is drawn so far. -/
structure Drawing where
  tree : Tree
  /-- The sequences that are in reverse order. -/
  reversed : List NodeId
  sketch : Sketch (Option String)
  /-- Whether there are edges for single characters, which are no symbols. -/
  hasCharacters : Bool

/-- A drawing in progress. -/
abbrev Draws := ExceptT Fault (StateM Drawing)

/-- What a node stands for when it is not drawn. -/
inductive Meaning where
  | symbols (names : List (Option String))
  | text (s : String)
  | nothing

namespace Drawing

/-- A change of the sketch. -/
def changeSketch (f : Sketch (Option String) → Sketch (Option String)) : Draws Unit :=
  modify fun d => { d with sketch := f d.sketch }

/-- A location that must be there. -/
def require (q : Option Nat) : Draws Nat :=
  match q with
  | some q => pure q
  | none => throw .missingPart

/-- A name, which is known from then on. -/
def know (name : Option String) : Draws (List (Option String)) := do
  changeSketch fun s => { s with
    domain := Text.distinct (s.domain ++ [name])
    symbols := s.symbols ++ [name] }
  pure [name]

/-- The known names without some. -/
def others (excluded : List (Option String)) : Draws (List (Option String)) := do
  pure ((← get).sketch.domain.filter (!excluded.contains ·))

/-- An edge for each name. -/
def place (source target : Option Nat) (as : List (Option String)) : Draws Unit := do
  if as.isEmpty then pure ()
  else
    let source ← require source
    let target ← require target
    changeSketch fun s => { s with
      edges := s.edges ++ as.map fun a => ⟨source, some a, target⟩
      symbols := s.symbols ++ as }

/-- An edge for each character. -/
def placeCharacters (source target : Option Nat) (cs : List Char) : Draws Unit := do
  if cs.isEmpty then pure ()
  else
    let _ ← require source
    let _ ← require target
    modify fun d => { d with hasCharacters := true }

/-- An edge that reads nothing. -/
def silent (source target : Option Nat) : Draws Unit := do
  let source ← require source
  let target ← require target
  changeSketch fun s => s.silent source target

/-- One more location. -/
def fresh : Draws Nat := do
  let n := (← get).sketch.size
  changeSketch fun s => { s with size := n + 1 }
  pure n

/-- A builder meets a sequence: whether it is the first time, and then it is put in reverse
order. -/
def turn (drawer : Drawer) (n : NodeId) : Draws Bool := do
  if drawer = .builder then
    if (← get).reversed.contains n then pure false
    else
      modify fun d => { d with tree := d.tree.reverseItems n, reversed := n :: d.reversed }
      pure true
  else pure true

/-- The name that the word below a node stands for. -/
def name (children : List (Option NodeId)) : Draws String := do
  let some (some word) := children[0]? | throw .missingPart
  match (← get).tree.shape? word with
  | some (.leaf t) => pure t.name
  | _ => throw .missingPart

/-- What a node stands for. -/
def meaning (drawer : Drawer) : Nat → Option NodeId → Draws Meaning
  | _, none => throw .missingPart
  | 0, some _ => throw .endless
  | bound + 1, some n => do
    match (← get).tree.shape? n with
    | some (.branch .simpleSymbol cs) =>
      if drawer = .bare then pure .nothing
      else
        match ← meaning drawer bound (cs[0]?).join with
        | .text s => pure (.symbols (← know (some s)))
        | .nothing => pure (.symbols (← know none))
        | .symbols _ => throw .wrongKind
    | some (.branch .tupleSymbol _) =>
      if drawer = .bare then pure .nothing else throw .unsupported
    | some (.branch .literal cs) => pure (.text (← name cs))
    | some (.branch .simpleAtom _) | some (.branch .any _) | some (.branch .alternative _)
    | some (.branch .quantified _) => throw .wrongKind
    | some (.series .sequence _) => if ← turn drawer n then throw .wrongKind else pure .nothing
    | some (.series _ _) => throw .wrongKind
    | _ => pure .nothing

/-- What the nodes of a set stand for: names, and the characters of texts. -/
def meanings (drawer : Drawer) (bound : Nat) :
    List (Option NodeId) → Draws (List (Option String) × List Char)
  | [] => pure ([], [])
  | n :: ns => do
    match ← meaning drawer bound n with
    | .nothing => throw .wrongKind
    | .symbols as =>
      let (bs, cs) ← meanings drawer bound ns
      pure (as ++ bs, cs)
    | .text s =>
      let (bs, cs) ← meanings drawer bound ns
      pure (bs, s.toList ++ cs)

mutual

/-- A node between two locations, and where it leads to. -/
def atom (drawer : Drawer) (source target : Option Nat) :
    Nat → Option NodeId → Draws (Option Nat)
  | _, none => throw .missingPart
  | 0, some _ => throw .endless
  | bound + 1, some n => do
    match (← get).tree.shape? n with
    | some (.branch .simpleAtom cs) =>
      match ← meaning drawer bound (cs[0]?).join with
      | .symbols as => place source target as
      | .text s => placeCharacters source target s.toList
      | .nothing => throw .wrongKind
      pure target
    | some (.branch .any _) =>
      if drawer = .bare then throw .unsupported
      place source target (← others [])
      pure target
    | some (.branch .alternative cs) =>
      let _ ← atom drawer source target bound (cs[0]?).join
      let _ ← atom drawer source target bound (cs[1]?).join
      pure target
    | some (.branch .quantified cs) =>
      let _ ← atom drawer source target bound (cs[0]?).join
      match (cs[1]?).join.bind (← get).tree.shape? with
      | some (.branch .zeroOrMore _) =>
        silent target source
        silent source target
      | some (.branch .oneOrMore _) => silent target source
      | some (.branch .zeroOrOne _) => silent source target
      | _ => throw (.refused .unknownQuantifier)
      pure target
    | some (.series .sequence _) =>
      if ← turn drawer n then
        match (← get).tree.shape? n with
        | some (.series _ items) => atoms drawer source target bound items
        | _ => throw .missingPart
        pure target
      else pure none
    | some (.series .negativeSet items) =>
      let (as, cs) ← meanings drawer bound items
      if drawer = .bare then throw .unsupported
      if !cs.isEmpty then throw .missingPart
      place source target (← others as)
      pure target
    | some (.series .positiveSet items) =>
      let (as, cs) ← meanings drawer bound items
      place source target (Text.distinct as)
      placeCharacters source target (Text.distinct cs)
      pure target
    | some (.branch .simpleSymbol _) | some (.branch .tupleSymbol _) =>
      if drawer = .bare then pure none else throw .wrongKind
    | some (.branch .literal _) => throw .wrongKind
    | _ => pure none
termination_by bound => (bound, 0)

/-- Nodes one behind the other. -/
def atoms (drawer : Drawer) (source target : Option Nat) (bound : Nat) :
    List (Option NodeId) → Draws Unit
  | [] => throw .outOfRange
  | [n] => do
    let _ ← atom drawer source target bound n
    pure ()
  | n :: m :: ns => do
    let middle ← fresh
    let reached ← atom drawer source (some middle) bound n
    atoms drawer reached target bound (m :: ns)
termination_by ns => (bound, ns.length)

end

end Drawing

/-- The automaton of a node, and the tree that drawing it leaves. Without a node, one location is
both ends. An automaton with edges for single characters is none. -/
def Tree.draw (t : Tree) (drawer : Drawer) (known : List String) (n : Option NodeId) :
    Except Fault (Nfa Nat (Option String)) × Tree :=
  let domain := (Text.distinct known).map some
  match n with
  | none => (.ok ((Sketch.blank domain 1).finish 0 0), t)
  | some _ =>
    match (Drawing.atom drawer (some 0) (some 1) t.depthBound n).run.run
        ⟨t, [], .blank domain 2, false⟩ with
    | (.ok _, d) =>
      (if d.hasCharacters then .error .missingPart else .ok (d.sketch.finish 0 1), d.tree)
    | (.error f, d) => (.error f, d.tree)

end MplsReach.Query
