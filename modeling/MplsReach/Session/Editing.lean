/-
Sessions in which the syntax tree of a query is looked at and changed.

* `Editing`: the tree, with the values that were attached to its nodes.
* `Spot`: what a path through the tree leads to.
* `Editing.step`: the commands.
-/
import MplsReach.Analysis.Compile
import MplsReach.Query.TreeDrawing
import MplsReach.Query.TreeWalk
import MplsReach.Report.Automata
import MplsReach.Report.Query
import MplsReach.Report.Shown
import MplsReach.Session.Basic
import MplsReach.Text.Buffer

namespace MplsReach.Session

open MplsReach.Query

/-- What a value can be attached to: a node, which may be missing, or a part of a token. -/
abbrev Holder := Option NodeId ⊕ Key

/-- The values that are attached, once there was one. -/
abbrev Attachments := Option (List (Holder × Value))

/-- A tree under inspection. -/
structure Editing where
  tree : Tree
  /-- Values that were attached on the way down. -/
  before : Attachments
  /-- Values that were attached on the way up. -/
  behind : Attachments

/-- What a path leads to: a node, which may be missing, a list of nodes, which may be the children
of one, or a part of a token. -/
inductive Spot where
  | node (n : Option NodeId)
  | items (ns : List (Option NodeId)) (owner : Option NodeId)
  | detail (v : Value)

namespace Editing

/-- The tree of a query, with nothing attached. -/
def ofQuery (q : Query) (ending : Token) : Editing := ⟨.ofQuery q ending, none, none⟩

/-- Another tree. -/
def withTree (t : Tree) (e : Editing) : Editing := { e with tree := t }

/-! ### Paths -/

/-- The entry of a list at a position, which counts from the end if it is negative. -/
def entry {α : Type} (as : List α) (position : Value) : Except Fault α := do
  match Text.at? as (← position.position) with
  | some a => .ok a
  | none => .error .outOfRange

/-- The part of a token of a name. -/
def detail? (t : Token) : String → Option Value
  | "Text" => some (.text t.text)
  | "Line" => some (.number t.line)
  | "Pos" => some (.number t.column)
  | _ => none

/-- The child of a name. -/
def child (t : Tree) (n : NodeId) (name : String) : Except Fault Spot :=
  if name = "Parent" then .ok (.node (t.parent? n))
  else
    match t.shape? n with
    | some (.branch k cs) =>
      match k.fields.findIdx? (· = name) with
      | some i => .ok (.node (cs[i]?).join)
      | none => .error .missingPart
    | some (.series k is) => if k.field = name then .ok (.items is n) else .error .missingPart
    | some (.leaf token) =>
      match detail? token name with
      | some v => .ok (.detail v)
      | none => .error .missingPart
    | none => .error .missingPart

/-- One step of a path: the name of a child, or a position in a list or in a text. -/
def follow (t : Tree) (s : Spot) (step : Value) : Except Fault Spot :=
  match step, s with
  | .text name, .node (some n) => child t n name
  | .text _, _ => .error .missingPart
  | step, .items ns _ => (entry ns step).map .node
  | step, .detail (.text s) => (entry s.toList step).map fun c => .detail (.text c.toString)
  | _, _ => .error .wrongKind

/-- What a path from the root leads to. -/
def spot (path : Value) : Step Editing Spot := do
  let t := (← get).tree
  let some steps := path.elements? | throw .wrongKind
  attempt (steps.foldlM (follow t) (.node (some t.root)))

/-- The node that a path leads to. -/
def existing (path : Value) : Step Editing NodeId := do
  match ← spot path with
  | .node (some n) => pure n
  | _ => throw .missingPart

/-- The form of a node. -/
def form (n : Option NodeId) : Step Editing Form := do
  attempt ((← get).tree.form n)

/-- The forms of what a path leads to. -/
def report (path : Value) : Step Editing Value := do
  match ← spot path with
  | .node n => pure (← form n).report
  | .items ns _ => pure (.list (Form.reportAll (← ns.mapM form)))
  | .detail v => pure v

/-- A copy of a node. -/
def copied (n : NodeId) : Step Editing Form := do
  attempt (← form (some n)).copy

/-- A new node: none, an empty one of a kind, or a copy of one that a path leads to. -/
def made (spec : Value) : Step Editing (Option NodeId) := do
  let f ← match spec with
    | .nothing => pure .missing
    | .text name => attempt (Form.blank name)
    | path => copied (← existing path)
  let (t, n) := (← get).tree.add f
  modify (withTree t)
  pure n

/-! ### Texts -/

/-- The text of a form, between quotes where it is asked for; a missing one never stands between
quotes. -/
def rendered (quoted : Bool) (n : Option NodeId) : Step Editing String := do
  match n with
  | none => pure Text.missing
  | some _ =>
    let s ← attempt (← form n).render
    pure (if quoted then "'" ++ s ++ "'" else s)

/-- The text of what a path leads to. -/
def text (quoted : Bool) (path : Value) : Step Editing Value := do
  match ← spot path with
  | .node n => pure (.text (← rendered quoted n))
  | .items ns _ => pure (.text ("[" ++ ", ".intercalate (← ns.mapM (rendered true)) ++ "]"))
  | .detail v => pure (.text (if quoted then v.quoted else v.shown))

/-! ### Changes -/

/-- Something of a node can be set under a name: a child, the node above it, or a part of a
token. -/
def demandSettable (n : NodeId) (name : String) : Step Editing Unit := do
  let known := match (← get).tree.shape? n with
    | some (.branch k _) => k.fields
    | some (.series k _) => [k.field]
    | some (.leaf _) => ["Text", "Line", "Pos"]
    | none => []
  if name ≠ "Parent" && !known.contains name then throw .missingPart

/-- A node, or a list of nodes, becomes a child. A list of children takes lists only, and is empty
when it has refused or was given itself; any other child must not be a list. -/
def assign (n : NodeId) (name : String) (value : Spot) : Step Editing Value := do
  let t := (← get).tree
  match t.shape? n, value with
  | some (.branch k cs), value =>
    match k.fields.findIdx? (· = name), value with
    | some i, .node c => change (withTree (t.setChild n i c))
    | some i, _ =>
      modify (withTree (t.setParent none (cs[i]?).join))
      throw .missingPart
    | none, .node c => change (withTree (t.setParent c n))
    | none, _ => change (withTree (t.setParent none n))
  | some (.series k _), value =>
    match decide (k.field = name), value with
    | true, .items is owner =>
      change (withTree (t.setShape n (.series k (if owner = some n then [] else is))))
    | true, _ =>
      modify (withTree (t.setShape n (.series k [])))
      throw .wrongKind
    | false, .node c => change (withTree (t.setParent c n))
    | false, _ => change (withTree (t.setParent none n))
  | some (.leaf token), value =>
    match name, value with
    | "Parent", .node c => change (withTree (t.setParent c n))
    | "Text", .detail (.text s) =>
      let token ← attempt (token.withText s)
      change (withTree (t.setShape n (.leaf token)))
    | "Line", .detail (.number i) =>
      change (withTree (t.setShape n (.leaf { token with line := i })))
    | "Pos", .detail (.number i) =>
      change (withTree (t.setShape n (.leaf { token with column := i })))
    | _, _ => pure .nothing
  | none, _ => throw .missingPart

/-- The events of a walk from where a path leads to. -/
def walk (w : Walk) (path : Value) : Step Editing (List String) := do
  let n ← existing path
  let (es, t) := (← get).tree.walk w (some n)
  modify (withTree t)
  attempt es

/-- What values are attached to where a path leads to; nothing can be attached to a list. -/
def holder? : Spot → Option Holder
  | .node n => some (.inl n)
  | .items .. => none
  | .detail v => v.key?.map .inr

/-- A value is attached; nothing takes away what is attached. -/
def attach (h : Holder) (v : Value) (table : Attachments) : Attachments :=
  match v with
  | .nothing => some ((table.getD []).filter (·.1 ≠ h))
  | v => some (Dictionary.put Prod.fst (h, v) (table.getD []))

/-- What is attached to what a path leads to. A list is refused where something was attached
before. -/
def attached (s : Spot) (table : Attachments) : Except Fault Value :=
  match table, holder? s with
  | none, _ => .ok .nothing
  | some table, some h => .ok (((Dictionary.get? Prod.fst h table).map (·.2)).getD .nothing)
  | some _, none => .error .wrongKind

/-- The report on an automaton over names. Names cannot be sorted together with a missing one. -/
def reportDrawn (part : String) (a : Nfa Nat (Option String)) : Step Editing Value := do
  if a.symbols.contains none && a.symbols.any (·.isSome) then throw .wrongKind
  let symbols := Text.sorted (a.symbols.filterMap id)
  let loc := numbered part
  pure (.record
    [("initial", .text (loc a.initial)), ("final", .text (loc a.final)),
     ("symbols", .list (a.symbols.filter (·.isNone) ++ symbols.map some |>.map .optional)),
     ("locations", .sortedTexts (a.locations.map loc)),
     ("transitions", .sortedTexts (a.edges.map (Edge.written loc Text.showOption)))])

/-- The drawer of a name, and what the names of its locations begin with. -/
def drawer (name : String) : Drawer × String :=
  match name with
  | "Constructing" => (.builder, "C")
  | "Destructing" => (.remover, "D")
  | _ => (.bare, "X")

/-- One command. -/
def step (command : Value) : Step Editing Value := do
  let arg := command.item
  match (arg 0).asText with
  | "dump" => report (arg 1)
  | "str" => text false (arg 1)
  | "repr" => text true (arg 1)
  | "clone" => pure (← copied (← existing (arg 1))).report
  | "walk" => pure (.texts (← walk .forward (arg 1)))
  | "rwalk" => pure (.texts (← walk .backward (arg 1)))
  | "case" =>
    let n ← existing (arg 1)
    pure (.texts (((← get).tree.shape? n).map Shape.event).toList)
  | "apply" =>
    match (arg 1).asText with
    | "DepthFirstAdapter" =>
      let _ ← walk .forward (arg 2)
      pure .nothing
    | "ReversedDepthFirstAdapter" =>
      let _ ← walk .backward (arg 2)
      pure .nothing
    | _ =>
      let _ ← existing (arg 2)
      pure .nothing
  | "parent" =>
    let n ← existing (arg 1)
    let t := (← get).tree
    pure (.optional (((t.parent? n).bind t.shape?).map Shape.name))
  | "remove" =>
    let n ← existing (arg 1)
    match ← spot (arg 2) with
    | .node c => change fun e => e.withTree (e.tree.removeChild n c)
    | _ => pure .nothing
  | "replace" =>
    let n ← existing (arg 1)
    let old ← spot (arg 2)
    let new ← made (arg 3)
    match old, (← get).tree.shape? n with
    | .node old, _ => change (withTree (← attempt ((← get).tree.replaceChild n old new)))
    | _, some (.series ..) => throw .wrongKind
    | _, _ => pure .nothing
  | "replace_by" =>
    let n ← existing (arg 1)
    let new ← made (arg 2)
    match (← get).tree.parent? n with
    | some above => change (withTree (← attempt ((← get).tree.replaceChild above (some n) new)))
    | none => pure .nothing
  | "set" =>
    let n ← existing (arg 1)
    demandSettable n (arg 2).asText
    assign n (arg 2).asText (.node (← made (arg 3)))
  | "set_list" =>
    let n ← existing (arg 1)
    demandSettable n (arg 2).asText
    assign n (arg 2).asText (.items (← (arg 3).items.mapM made) none)
  | "move" =>
    let n ← existing (arg 1)
    demandSettable n (arg 2).asText
    assign n (arg 2).asText (← spot (arg 3))
  | "set_text" =>
    let n ← existing (arg 1)
    let t := (← get).tree
    match t.shape? n with
    | some (.leaf token) =>
      let token ← attempt (token.withText (arg 2).asText)
      change (withTree (t.setShape n (.leaf token)))
    | _ => throw .missingPart
  | "set_in" =>
    match holder? (← spot (arg 1)) with
    | some h => change fun e => { e with before := attach h (arg 2) e.before }
    | none =>
      modify fun e => { e with before := some (e.before.getD []) }
      throw .wrongKind
  | "get_in" =>
    let s ← spot (arg 1)
    attempt (attached s (← get).before)
  | "set_out" =>
    match holder? (← spot (arg 1)) with
    | some h => change fun e => { e with behind := attach h (arg 2) e.behind }
    | none =>
      modify fun e => { e with behind := some (e.behind.getD []) }
      throw .wrongKind
  | "get_out" =>
    let s ← spot (arg 1)
    attempt (attached s (← get).behind)
  | "construct" =>
    let s ← match arg 2 with
      | .nothing => pure (.node none)
      | path => spot path
    match s with
    | .node n =>
      let (drawer, part) := drawer (arg 1).asText
      let (a, t) := (← get).tree.draw drawer (arg 3).asTexts n
      modify (withTree t)
      reportDrawn part (← attempt a)
    | _ => throw .missingPart
  | _ => pure .nothing

end Editing

end MplsReach.Session
