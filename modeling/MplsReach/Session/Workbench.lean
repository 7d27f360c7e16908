/-
Sessions in which pushdown automata are put together by hand, joined, compiled and decided.

* `Workbench`: the automata, with all that commands refer to by a key.
* `Workbench.step`: the commands.
-/
import MplsReach.Pushdown.CheckLog
import MplsReach.Pushdown.Fragment
import MplsReach.Report.Automata
import MplsReach.Report.Shown
import MplsReach.Session.Basic

namespace MplsReach.Session

/-- A transition that commands refer to. -/
inductive KnownTransition where
  /-- A transition of an automaton, by its number. -/
  | made (n : Nat)
  /-- A transition that belongs to no automaton. -/
  | loose (t : Transition Nat String)

/-- Pushdown automata under construction. -/
structure Workbench where
  workshop : Workshop
  pieces : List (Key × Nat)
  locations : List (Key × Nat)
  transitions : List (Key × KnownTransition)
  /-- The compiled rule systems: their remarks and the verdicts on them. -/
  systems : List (Key × List String × Except Fault Bool)
  fragments : Fragments
  fragmentIds : List (Key × Nat)

/-- What an operation is called. -/
def opClass : Op String → String
  | .noop => "NoopAction"
  | .pop => "PopAction"
  | .push _ => "PushAction"
  | .replace _ => "ReplaceAction"
  | .pushReplace .. => "PushReplaceAction"

namespace Workbench

/-- Nothing is under construction. -/
def empty : Workbench := ⟨.empty, [], [], [], [], .empty, []⟩

/-- Work in the workshop. -/
def work {α : Type} (x : Workshop.Work α) : Step Workbench α := do
  let b ← get
  match x.run.run b.workshop with
  | (r, w) =>
    set { b with workshop := w }
    attempt r

/-- The automaton under a key. -/
def piece (id : Value) : Step Workbench Nat := do find (← get).pieces id

/-- The location under a key. -/
def location (id : Value) : Step Workbench Nat := do find (← get).locations id

/-- The fragment under a key. -/
def fragment (id : Value) : Step Workbench Nat := do find (← get).fragmentIds id

/-- The transition under a key. -/
def transition (id : Value) : Step Workbench (Transition Nat String) := do
  match ← find (← get).transitions id with
  | .loose t => pure t
  | .made n =>
    match (← get).workshop.transitions[n]? with
    | some t => pure t
    | none => throw (.unknownName none)

/-- A symbol that an automaton has. -/
def symbol (p : Nat) (name : Value) : Step Workbench String := do
  if (← work (Workshop.piece p)).symbols.contains name.shown then pure name.shown
  else throw .exhausted

/-- An automaton is kept under a key. -/
def keepPiece (id : Value) (p : Nat) : Step Workbench Value := do
  let k ← keyOf id
  change fun b => { b with pieces := keep k p b.pieces }

/-- A transition is kept under a key. -/
def keepTransition (id : Value) (t : KnownTransition) : Step Workbench Value := do
  let k ← keyOf id
  change fun b => { b with transitions := keep k t b.transitions }

/-- An operation, given by its kind and its symbols. -/
def operation (p : Nat) (v : Value) : Step Workbench (Op String) := do
  match (v.item 0).asText with
  | "pop" => pure .pop
  | "push" => pure (.push (← symbol p (v.item 1)))
  | "replace" => pure (.replace (← symbol p (v.item 1)))
  | "pushreplace" =>
    let a ← symbol p (v.item 1)
    let b ← symbol p (v.item 2)
    pure (.pushReplace a b)
  | _ => pure .noop

/-- The text of an option, if it is given. -/
def option? (options : Value) (name : String) : Option String :=
  match options.field name with
  | .nothing => none
  | v => some v.shown

/-- A transition between two locations, with a text and a guard among its options. -/
def newTransition (source target : Nat) (input : Input String) (op : Op String)
    (options : Value) : Transition Nat String :=
  ⟨source, target, input, op, option? options "text", option? options "guard", []⟩

/-- The texts that a loop over a value runs through. -/
def loopTexts (v : Value) : List String := (v.elements?.getD []).map Value.shown

/-- A new transition of an automaton, with its comments among its options. -/
def addTransition (id : Value) (p : Nat) (t : Transition Nat String) (options : Value) :
    Step Workbench Value := do
  let comments := loopTexts (options.field "comments")
  let n ← work (Workshop.addTransition p { t with comments := comments })
  keepTransition id (.made n)

/-- The name of a location, where it has one. -/
def written (w : Workshop) (l : Nat) : String :=
  match (w.name l).line with
  | .ok s => s
  | .error _ => ""

/-- All of some locations have names. -/
def demandNames (ls : List Nat) : Step Workbench Unit := do
  let w := (← get).workshop
  for l in ls do
    let _ ← attempt (w.name l).line

/-- The ends of transitions. -/
def ends (ts : List (Transition Nat String)) : List Nat := ts.flatMap fun t => [t.source, t.target]

/-- A transition in one line. -/
def writtenTransition (w : Workshop) (t : Transition Nat String) : String :=
  t.written (written w) id

/-- All of an automaton. -/
def reportPiece (q : Piece) : Step Workbench Value := do
  let w := (← get).workshop
  let ts := w.transitionsOf q
  demandNames (q.initial.toList ++ q.final.toList ++ q.locations ++ ends ts)
  pure (.automaton (q.initial.map (written w)) (q.final.map (written w)) (some q.specials) q.symbols
    (q.locations.map (written w)) (ts.map (writtenTransition w)))

/-- The distinct texts that a loop over a value runs through. -/
def characters (v : Value) : List String := Text.distinct (loopTexts v)

/-- A field that has to be there. -/
def part (v : Value) (name : String) : Step Workbench Value :=
  match v.field? name with
  | some x => pure x
  | none => throw (.unknownName (some name))

/-- An automaton over locations, given by its parts. -/
def readNfa (v : Value) : Step Workbench (Nfa String Nat) := do
  let names := (← part v "locations").asTexts
  let known (name : Value) : Step Workbench String := do
    let _ ← keyOf name
    match name with
    | .text s => if names.contains s then pure s else throw (.unknownName (some s))
    | _ => throw (.unknownName none)
  let initial ← known (← part v "initial")
  let final ← known (← part v "final")
  let edges ← (← part v "transitions").items.mapM fun e => do
    match e.items with
    | [source, symbol, target] =>
      let source ← known source
      let target ← known target
      pure ⟨source, some (← location symbol), target⟩
    | _ =>
      let source ← known (e.item 0)
      pure ⟨source, none, ← known (e.item 1)⟩
  pure ⟨names, edges, [], initial, final⟩

/-- One command. The description of a transition ends in what its operation is shown as. -/
def step (operationWording : String → String) (command : Value) : Step Workbench Value := do
  let arg := command.item
  match (arg 0).asText with
  | "pda" => keepPiece (arg 1) (← work Workshop.addPiece)
  | "location" =>
    let l ← work (Workshop.addLocation (← piece (arg 1)) (.text (arg 3).shown))
    let k ← keyOf (arg 2)
    change fun b => { b with locations := keep k l b.locations }
  | "symbol" =>
    work (Workshop.addSymbol (← piece (arg 1)) (arg 2).shown)
    pure (.text (arg 2).shown)
  | "trans" =>
    let p ← piece (arg 2)
    let source ← location (arg 3)
    let target ← location (arg 4)
    let a ← symbol p (arg 5)
    let op ← operation p (arg 6)
    addTransition (arg 1) p (newTransition source target (.on a) op (arg 7)) (arg 7)
  | "star" =>
    let p ← piece (arg 2)
    let source ← location (arg 3)
    let target ← location (arg 4)
    let op ← operation p (arg 5)
    addTransition (arg 1) p (newTransition source target .any op (arg 6)) (arg 6)
  | "eps" =>
    let p ← piece (arg 2)
    let source ← location (arg 3)
    let target ← location (arg 4)
    let op ← operation p (arg 6)
    let _ ← keepTransition (arg 1) (.loose (newTransition source target (.among []) op (arg 7)))
    let tops ← (characters (arg 5)).mapM fun c => symbol p (.text c)
    addTransition (arg 1) p (newTransition source target (.among tops) op (arg 7)) .nothing
  | "start" =>
    let p ← piece (arg 1)
    work (Workshop.setInitial p (← location (arg 2)))
    pure .nothing
  | "end" =>
    let p ← piece (arg 1)
    work (Workshop.setFinal p (← location (arg 2)))
    pure .nothing
  | "special" =>
    let p ← piece (arg 1)
    work (Workshop.setSpecial p (arg 2).asText (← symbol p (arg 3)))
    pure .nothing
  | "concat" =>
    let p ← piece (arg 2)
    let q ← piece (arg 3)
    let r ← work (Workshop.join (arg 4).asFlag p q)
    let _ ← keepPiece (arg 1) r
    pure (.list [.flag (r == p), .flag (r == q)])
  | "dump" =>
    reportPiece (← work (Workshop.piece (← piece (arg 1))))
  | "compile" =>
    let p ← piece (arg 2)
    let start ← symbol p (arg 3)
    let goal ← symbol p (arg 4)
    let s ← work (Workshop.compile (arg 5).asFlag p start goal)
    let w := (← get).workshop
    let k ← keyOf (arg 1)
    let compiled := (s.remarks w.naming, s.decided w.naming)
    modify fun b => { b with systems := keep k compiled b.systems }
    demandNames (s.start.1 :: s.goal.1 :: ends (s.blocks.map (·.transition)))
    pure (s.report (written w) id)
  | "comments" =>
    let (remarks, _) ← find (← get).systems (arg 1)
    pure (.sortedTexts (remarks.map Text.withoutSerials))
  | "verdict" =>
    let (_, verdict) ← find (← get).systems (arg 1)
    pure (.flag (← attempt verdict))
  | "print" =>
    let t ← transition (arg 1)
    pure (.text (Text.withoutSerials (t.printed (← get).workshop.naming)))
  | "repr" =>
    let l ← location (arg 1)
    pure (.text (Text.withoutSerials ((← get).workshop.naming.describe l)))
  | "repr_trans" =>
    let t ← transition (arg 1)
    let n := (← get).workshop.naming
    let first := match t.input with
      | .on a => a
      | _ => "(*)"
    pure (.text (Text.withoutSerials (first ++ n.describe t.source ++ n.describe t.target ++
      operationWording (opClass t.op))))
  | "labels" =>
    let t ← transition (arg 1)
    pure (.sortedTexts (Text.distinct t.op.symbols))
  | "collect" =>
    let w := (← get).workshop
    let (_, ts) ← attempt (w.connected (← location (arg 1)))
    demandNames (ends ts)
    pure (.sortedTexts (ts.map (writtenTransition w)))
  | "reach" =>
    let w := (← get).workshop
    let (ls, ts) ← attempt (w.forward (← location (arg 1)))
    demandNames (ls ++ ends ts)
    pure (.list [.sortedTexts (ts.map (writtenTransition w)), .sortedTexts (ls.map (written w))])
  | "fragment" =>
    let entry ← location (arg 2)
    let exit ← location (arg 4)
    let w := (← get).workshop
    let symbols ← match arg 6 with
      | .nothing => attempt (w.alphabet entry)
      | given => pure (characters given)
    let k ← keyOf (arg 1)
    modify fun b => { b with
      fragmentIds := keep k b.fragments.fragments.length b.fragmentIds
      fragments := { b.fragments with fragments := b.fragments.fragments ++
        [⟨entry, characters (arg 3), exit, characters (arg 5), symbols⟩] } }
    pure (.sortedTexts symbols)
  | "connect" =>
    let f ← fragment (arg 1)
    let g ← fragment (arg 2)
    change fun b => { b with
      fragments := { b.fragments with links := b.fragments.links ++ [(f, g)] } }
  | "outgoing" => pure (.nat ((← get).fragments.following (← fragment (arg 1))).length)
  | "flatten" =>
    let f ← fragment (arg 1)
    let b ← get
    let f ← attempt (b.fragments.flatten b.workshop f)
    demandNames [f.entry, f.exit]
    pure (.list [.text (written b.workshop f.entry), .sortedTexts f.entrySymbols,
      .text (written b.workshop f.exit), .sortedTexts f.exitSymbols, .sortedTexts f.symbols])
  | "compose" =>
    let p ← piece (arg 2)
    let a ← readNfa (arg 3)
    keepPiece (arg 1) (← work (Workshop.compose p a))
  | "label" =>
    let v ← symbol (← piece (arg 1)) (arg 2)
    pure (.list [.text v, .text ((← get).workshop.naming.describeSymbol v), .flag false,
      .flag true])
  | _ => pure .nothing

end Workbench

end MplsReach.Session
