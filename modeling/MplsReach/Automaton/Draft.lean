/-
Automata that are built step by step.

Locations and edges are known by number. An edge can be attached several times; it is an edge of
the automaton once, and leads from its source to its target as often as it was attached.

* `Draft.attach`, `Draft.detach`: an edge becomes part of the automaton, and stops being one.
* `Draft.header`: the automaton over stack symbols that a finished draft is.
-/
import MplsReach.Automaton.Acceptance
import MplsReach.Fault
import MplsReach.Pushdown.StackSymbol
import MplsReach.Text.Order

namespace MplsReach

/-- What an edge reads: a text, which matches a character that it consists of, or a symbol, which
matches none. -/
inductive Letter where
  | text (s : String)
  | symbol (value : String)
deriving DecidableEq, Repr

namespace Letter

/-- The text or the value of the symbol. -/
def value : Letter → String
  | text s => s
  | symbol s => s

/-- Whether a character is read. -/
def reads : Letter → Char → Bool
  | text s, c => s.toList = [c]
  | symbol _, _ => false

end Letter

/-- An automaton that is being built. -/
structure Draft where
  names : List String
  edges : List (Edge Nat Letter)
  attached : List Nat
  wired : List Nat
  symbols : List String
  initial : Option Nat
  final : Option Nat
deriving Repr

namespace Draft

/-- Nothing yet. -/
def empty : Draft := ⟨[], [], [], [], [], none, none⟩

/-- The name of a location. -/
def name (d : Draft) (q : Nat) : String := d.names.getD q ""

/-- A new location. -/
def addLocation (d : Draft) (name : String) : Draft × Nat :=
  ({ d with names := d.names ++ [name] }, d.names.length)

/-- The initial location, which is set once. -/
def setInitial (d : Draft) (q : Nat) : Except Fault Draft :=
  if d.initial.isSome then .error .setTwice else .ok { d with initial := some q }

/-- The final location, which is set once. -/
def setFinal (d : Draft) (q : Nat) : Except Fault Draft :=
  if d.final.isSome then .error .setTwice else .ok { d with final := some q }

/-- A symbol of the automaton. -/
def addSymbol (d : Draft) (s : String) : Draft :=
  if d.symbols.contains s then d else { d with symbols := d.symbols ++ [s] }

/-- An edge becomes part of the automaton. -/
def attach (d : Draft) (e : Nat) : Draft :=
  { d with
    attached := if d.attached.contains e then d.attached else d.attached ++ [e]
    wired := d.wired ++ [e] }

/-- A new edge, attached. -/
def addEdge (d : Draft) (e : Edge Nat Letter) : Draft × Nat :=
  (attach { d with edges := d.edges ++ [e] } d.edges.length, d.edges.length)

/-- An edge stops being part of the automaton. -/
def detach (d : Draft) (e : Nat) : Except Fault Draft :=
  if d.attached.contains e then
    .ok { d with attached := d.attached.erase e, wired := d.wired.erase e }
  else .error (.unknownName none)

/-- The edges of the automaton. -/
def attachedEdges (d : Draft) : List (Edge Nat Letter) := d.attached.filterMap (d.edges[·]?)

/-- The edges between locations, as often as they were attached. -/
def wiredEdges (d : Draft) : List (Edge Nat Letter) := d.wired.filterMap (d.edges[·]?)

/-- The numbers of edges to and from a location. -/
def degree (d : Draft) (q : Nat) : Nat × Nat :=
  ((d.wiredEdges.filter (·.target = q)).length, (d.wiredEdges.filter (·.source = q)).length)

/-- The locations after a word, each once. -/
def reach (d : Draft) (q : Nat) (word : String) : Except Fault (List Nat) :=
  match arrivals? Letter.reads d.wiredEdges q word.toList with
  | some qs => .ok (Text.distinct qs)
  | none => .error .endless

/-- Whether a location can be reached by a word. -/
def accepts (d : Draft) (q final : Nat) (word : String) : Except Fault Bool :=
  match accepts? Letter.reads d.wiredEdges q final word.toList with
  | some b => .ok b
  | none => .error .endless

/-- The stack symbol of a letter; a text is none. -/
def letterSymbol : Letter → Except Fault StackSymbol
  | .symbol s => .ok (.label s)
  | .text _ => .error .missingPart

/-- An edge over stack symbols. -/
def headerEdge (e : Edge Nat Letter) : Except Fault (Edge Nat StackSymbol) :=
  match e.symbol with
  | none => .ok ⟨e.source, none, e.target⟩
  | some l => do pure ⟨e.source, some (← letterSymbol l), e.target⟩

/-- The automaton over stack symbols, which needs both ends. -/
def header (d : Draft) : Except Fault (Nfa Nat StackSymbol) := do
  let edges ← d.attachedEdges.mapM headerEdge
  let some initial := d.initial | .error .missingPart
  let some final := d.final | .error .missingPart
  pure ⟨List.range d.names.length, edges, d.symbols.map .label, initial, final⟩

/-- What an edge that reads something is shown as. -/
def describeEdge (d : Draft) (e : Edge Nat Letter) : Option String :=
  e.symbol.map fun l =>
    "<NFATransition <NFALocation " ++ Text.quote (d.name e.source) ++ "><NFALocation " ++
      Text.quote (d.name e.target) ++ ">" ++ Text.quote l.value

end Draft

end MplsReach
