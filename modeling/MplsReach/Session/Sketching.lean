/-
Sessions in which an automaton is put together by hand.

* `Sketching`: the automaton, with the locations and edges that commands refer to by a key.
* `Sketching.step`: the commands.
-/
import MplsReach.Analysis.Compile
import MplsReach.Automaton.Draft
import MplsReach.Report.Automata
import MplsReach.Session.Basic

namespace MplsReach.Session

/-- An automaton under construction. -/
structure Sketching where
  draft : Draft
  locations : List (Key × Nat)
  edges : List (Key × Nat)

/-- All of a draft. -/
def reportDraft (d : Draft) : Value :=
  .automaton (d.initial.map d.name) (d.final.map d.name) none d.symbols d.names
    (d.attachedEdges.map (Edge.written d.name Letter.value))

namespace Sketching

/-- No locations and no edges. -/
def empty : Sketching := ⟨.empty, [], []⟩

/-- Another draft. -/
def withDraft (d : Draft) (s : Sketching) : Sketching := { s with draft := d }

/-- The location under a key. -/
def location (id : Value) : Step Sketching Nat := do find (← get).locations id

/-- The edge under a key. -/
def edge (id : Value) : Step Sketching Nat := do find (← get).edges id

/-- A new location. -/
def addLocation (name : Value) : Step Sketching Nat := do
  let (d, q) := (← get).draft.addLocation name.asText
  modify (withDraft d)
  pure q

/-- A location is kept under a key. -/
def keepLocation (id : Value) (q : Nat) : Step Sketching Value := do
  let k ← keyOf id
  change fun s => { s with locations := keep k q s.locations }

/-- A symbol of the automaton, which has to be a key. Symbols that are no texts are not kept. -/
def addSymbol (v : Value) : Step Sketching Unit := do
  let _ ← keyOf v
  match v with
  | .text s => modify fun k => k.withDraft (k.draft.addSymbol s)
  | _ => pure ()

/-- A new edge. A symbol that it brings in becomes a symbol of the automaton. -/
def addEdge (id source target : Value) (symbol : Option Letter) : Step Sketching Value := do
  let source ← location source
  let target ← location target
  let s ← get
  let d := match symbol with
    | some (.symbol a) => s.draft.addSymbol a
    | _ => s.draft
  let (d, e) := d.addEdge ⟨source, symbol, target⟩
  set { s with draft := d }
  let k ← keyOf id
  change fun s => { s with edges := keep k e s.edges }

/-- The report on a stack automaton that is made from the draft, in which locations of one name
are one. -/
def converted {Loc : Type} (loc : Draft → Loc → String)
    (make : Nfa Nat StackSymbol → Pda Loc StackSymbol) : Step Sketching Value := do
  let d := (← get).draft
  let a ← attempt d.header
  pure (((make a).mapLocations (loc d)).report id StackSymbol.render)

/-- One command. -/
def step (command : Value) : Step Sketching Value := do
  let arg := command.item
  match (arg 0).asText with
  | "location" => keepLocation (arg 1) (← addLocation (arg 2))
  | "start" =>
    let q ← addLocation (arg 2)
    modify (withDraft (← attempt ((← get).draft.setInitial q)))
    keepLocation (arg 1) q
  | "end" =>
    let q ← addLocation (arg 2)
    modify (withDraft (← attempt ((← get).draft.setFinal q)))
    keepLocation (arg 1) q
  | "symbol" =>
    addSymbol (arg 1)
    match arg 1 with
    | .text v => pure (.text (v ++ Text.quote v))
    | _ => throw .wrongKind
  | "trans" => addEdge (arg 1) (arg 2) (arg 3) (some (.text (arg 4).asText))
  | "strans" => addEdge (arg 1) (arg 2) (arg 3) (some (.symbol (arg 4).asText))
  | "eps" => addEdge (arg 1) (arg 2) (arg 3) none
  | "attach" =>
    let e ← edge (arg 1)
    change fun s => s.withDraft (s.draft.attach e)
  | "detach" =>
    let e ← edge (arg 1)
    change (withDraft (← attempt ((← get).draft.detach e)))
  | "accepts" =>
    let q ← location (arg 1)
    let r ← location (arg 2)
    pure (.flag (← attempt ((← get).draft.accepts q r (arg 3).asText)))
  | "reach" =>
    let q ← location (arg 1)
    let d := (← get).draft
    pure (.sortedTexts ((← attempt (d.reach q (arg 2).asText)).map d.name))
  | "degree" =>
    let (i, o) := (← get).draft.degree (← location (arg 1))
    pure (.list [.nat i, .nat o])
  | "counts" =>
    let d := (← get).draft
    pure (.sizes d.names.length d.symbols.length d.attached.length)
  | "dump" => pure (reportDraft (← get).draft)
  | "nx" =>
    let d := (← get).draft
    pure (Edge.ends d.name d.attachedEdges)
  | "build" => converted (fun d => Built.named d.name) Nfa.builder
  | "plain" => converted Draft.name Nfa.plainBuilder
  | "destroy" => converted Draft.name Nfa.remover
  | "fresh" =>
    let part := if (arg 1).asText = "destroy" then "destroy" else "build"
    pure (.list [.text (numbered part 0), .text (numbered part 1),
      .failure (.refused .convertedTwice)])
  | "get_symbol" => throw .wrongKind
  | "get_symbols" => if (arg 1).items.isEmpty then pure (.list []) else throw .wrongKind
  | "sym_eq" =>
    addSymbol (arg 1)
    addSymbol (arg 2)
    pure (.list [.flag (decide ((arg 1).key? = (arg 2).key?)), .flag false])
  | "repr" =>
    let d := (← get).draft
    let e ← edge (arg 1)
    pure (.optional (((d.edges[e]?).bind d.describeEdge).map Text.withoutSerials))
  | _ => pure .nothing

end Sketching

end MplsReach.Session
