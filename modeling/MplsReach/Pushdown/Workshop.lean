/-
Pushdown automata that are built step by step and may share locations.

Automata, locations and transitions are known by number. A transition belongs to one automaton, but
its ends may be locations of any automaton.

* `Workshop`: all that was made.
* `Workshop.join`: one automaton behind another; the larger one may be taken over.
* `Workshop.compile`: the rules of an automaton. The tops of the stack are searched along all
  transitions that leave a location, whichever automaton they belong to.
* `Workshop.compose`: an automaton observed by another one.
-/
import MplsReach.Fault
import MplsReach.Pushdown.Commentary
import MplsReach.Pushdown.Product
import MplsReach.Pushdown.Rules

namespace MplsReach

/-- The name of a location: a text, or a location that is observed at another one. -/
inductive LocationName where
  | text (s : String)
  | observed (location : LocationName) (observer : String)
  | missing
deriving DecidableEq, Repr

namespace LocationName

/-- The text of a name. -/
def describe : LocationName → String
  | text s => s
  | observed missing o => observedName none o
  | observed l o => observedName (some l.describe) o
  | missing => Text.missing

/-- The name in one line. A location that is not there has none. -/
def line : LocationName → Except Fault String
  | text s => .ok s
  | observed l o => do pure ("(" ++ (← l.line) ++ "; " ++ o ++ ")")
  | missing => .error .missingPart

end LocationName

/-- An automaton in a workshop. -/
structure Piece where
  locations : List Nat
  symbols : List String
  transitions : List Nat
  specials : List (String × String)
  initial : Option Nat
  final : Option Nat
deriving Repr

/-- All that was made. -/
structure Workshop where
  names : List LocationName
  transitions : List (Transition Nat String)
  pieces : List Piece

namespace Workshop

/-- Work in a workshop. A failure leaves what was done before. -/
abbrev Work := ExceptT Fault (StateM Workshop)

/-- Nothing yet. -/
def empty : Workshop := ⟨[], [], []⟩

/-! ### Parts -/

/-- A key that no dictionary holds and that has no name. -/
def absent {α : Type} : Work α := throw (.unknownName none)

/-- The name of a location. -/
def name (w : Workshop) (l : Nat) : LocationName := w.names.getD l .missing

/-- How locations and symbols are written. -/
def naming (w : Workshop) : Naming Nat String where
  location l := (w.name l).describe
  symbol a := a
  value a := Text.quote a

/-- An automaton without parts. -/
def blank : Piece := ⟨[], [], [], [], none, none⟩

/-- A new automaton. -/
def addPiece : Work Nat := do
  let w ← get
  set { w with pieces := w.pieces ++ [blank] }
  pure w.pieces.length

/-- An automaton. -/
def piece (p : Nat) : Work Piece := do
  match (← get).pieces[p]? with
  | some q => pure q
  | none => absent

/-- An automaton, changed. -/
def modifyPiece (p : Nat) (f : Piece → Piece) : Work Unit :=
  modify fun w => { w with pieces := w.pieces.modify p f }

/-- A new location of an automaton. -/
def addLocation (p : Nat) (name : LocationName) : Work Nat := do
  let w ← get
  let l := w.names.length
  set { w with names := w.names ++ [name] }
  modifyPiece p fun q => { q with locations := q.locations ++ [l] }
  pure l

/-- A symbol of an automaton. -/
def addSymbol (p : Nat) (a : String) : Work Unit :=
  modifyPiece p fun q => if q.symbols.contains a then q else { q with symbols := q.symbols ++ [a] }

/-- A new transition of an automaton. -/
def addTransition (p : Nat) (t : Transition Nat String) : Work Nat := do
  let w ← get
  let n := w.transitions.length
  set { w with transitions := w.transitions ++ [t] }
  modifyPiece p fun q => { q with transitions := q.transitions ++ [n] }
  pure n

/-- The initial location, which is set once. -/
def setInitial (p l : Nat) : Work Unit := do
  if (← piece p).initial.isSome then throw .setTwice
  modifyPiece p fun q => { q with initial := some l }

/-- The final location, which is set once. -/
def setFinal (p l : Nat) : Work Unit := do
  if (← piece p).final.isSome then throw .setTwice
  modifyPiece p fun q => { q with final := some l }

/-- A special symbol. -/
def setSpecial (p : Nat) (key a : String) : Work Unit :=
  modifyPiece p fun q => { q with specials := Dictionary.put Prod.fst (key, a) q.specials }

/-- The transitions of an automaton. -/
def transitionsOf (w : Workshop) (q : Piece) : List (Transition Nat String) :=
  q.transitions.filterMap (w.transitions[·]?)

/-- The transitions that leave a location. -/
def outgoing (w : Workshop) (l : Nat) : List (Transition Nat String) :=
  w.transitions.filter (·.source = l)

/-- The number of a location, or one that no location has. -/
def orNone (w : Workshop) (l : Option Nat) : Nat := l.getD w.names.length

/-- An automaton with the given transitions as a value. -/
def view (w : Workshop) (q : Piece) (ts : List (Transition Nat String)) : Pda Nat String where
  locations := q.locations
  symbols := q.symbols
  transitions := ts
  specials := q.specials
  initial := w.orNone q.initial
  final := w.orNone q.final

/-! ### One automaton behind another -/

/-- The locations that locations become. -/
abbrev Moves := List (Nat × Nat)

/-- What a location becomes. -/
def moved (moves : Moves) (l : Option Nat) : Work Nat :=
  match l.bind fun l => Dictionary.get? Prod.fst l moves with
  | some entry => pure entry.2
  | none => absent

/-- Copies of locations, for an automaton. -/
def copyLocations (p : Nat) (ls : List Nat) : Work Moves :=
  ls.mapM fun l => do pure (l, ← addLocation p ((← get).name l))

/-- A symbol has to be one of those that are there. -/
def demandSymbol (symbols : List String) (a : String) : Work Unit :=
  if symbols.contains a then pure () else throw (.unknownName (some a))

/-- Special symbols, for an automaton. -/
def copySpecials (p : Nat) (symbols : List String) (specials : List (String × String)) :
    Work Unit :=
  specials.forM fun (k, a) => do
    demandSymbol symbols a
    setSpecial p k a

/-- A copy of a transition, for an automaton. -/
def copyTransition (p : Nat) (symbols : List String) (moves : Moves) (t : Transition Nat String) :
    Work Unit := do
  t.copied.symbols.forM (demandSymbol symbols)
  let source ← moved moves (some t.source)
  let target ← moved moves (some t.target)
  let _ ← addTransition p { t.copied with source := source, target := target }

/-- Copies of the transitions of an automaton, for another one. -/
def copyTransitions (p : Nat) (symbols : List String) (moves : Moves) (q : Piece) : Work Unit := do
  ((← get).transitionsOf q).forM (copyTransition p symbols moves)

/-- The second automaton behind the first one. All labels that are copied have to be symbols of one
of the two. -/
def join (takeOver : Bool) (p q : Nat) : Work Nat := do
  let first ← piece p
  let second ← piece q
  let kept : Option Side :=
    if takeOver then
      some (if first.transitions.length < second.transitions.length then .second else .first)
    else none
  let r ← match kept with
    | some .first => pure p
    | some .second => pure q
    | none => addPiece
  let symbols := first.symbols ++ second.symbols
  symbols.forM (addSymbol r)
  if kept ≠ some .first then copySpecials r symbols first.specials
  if kept ≠ some .second then copySpecials r symbols second.specials
  let own := fun ls : List Nat => (ls.map fun l => (l, l) : Moves)
  let moves ← if kept = some .first then pure (own first.locations)
    else copyLocations r first.locations
  let others ← if kept = some .second then pure (own second.locations)
    else if r = q && !second.locations.isEmpty then do
      let _ ← copyLocations r (second.locations.take 1)
      throw (.refused .joinedToItself)
    else copyLocations r second.locations
  let moves := Dictionary.putAll Prod.fst moves others
  if kept ≠ some .first then copyTransitions r symbols moves first
  if kept ≠ some .second then copyTransitions r symbols moves second
  let source ← moved moves first.final
  let target ← moved moves second.initial
  let _ ← addTransition r (.plain source target .any .noop)
  if kept = some .first then modifyPiece p fun s => { s with final := none }
  if kept = some .second then modifyPiece q fun s => { s with initial := none }
  if kept ≠ some .first then setInitial r (← moved moves first.initial)
  if kept ≠ some .second then setFinal r (← moved moves second.final)
  pure r

/-! ### Rules -/

/-- The tops of the stack that can occur at the locations of an automaton. -/
def tops (q : Piece) (start : String) : Work (List (Nat × String)) := do
  let w ← get
  let some initial := q.initial | absent
  if !q.locations.contains initial then absent
  let p := w.view q w.transitions
  let pairs := topsFrom p.symbols w.outgoing p.topRounds (initial, start)
  let visited := Text.distinct (pairs.map (·.1))
  if visited.any fun l => (w.outgoing l).any fun t => !q.locations.contains t.target then absent
  pure pairs

/-- Every transition of an automaton gets itself written out as a comment. -/
def annotate (q : Piece) : Work Unit :=
  modify fun w => { w with transitions := w.transitions.mapIdx fun n t =>
    if q.transitions.contains n then { t with comments := t.comments ++ [t.spelled w.naming] }
    else t }

/-- Whether a rule can be written for a transition: its ends have to be locations of the
automaton. -/
def isWritable (q : Piece) (b : Block Nat String) : Bool :=
  q.locations.contains b.transition.source &&
    (q.locations.contains b.transition.target ||
      match b.transition.input with
      | .on _ => b.tops.isEmpty
      | _ => false)

/-- The rules of an automaton. -/
def compile (verbose : Bool) (p : Nat) (start goal : String) : Work (RuleSystem Nat String) := do
  let q ← piece p
  let pairs ← tops q start
  if verbose then annotate q
  let w ← get
  let some initial := q.initial | absent
  let some final := q.final | absent
  if !q.locations.contains final then absent
  let blocks := blocksOf (topsAt pairs) (w.transitionsOf q)
  if !blocks.all (isWritable q) then absent
  pure ⟨(initial, start), (final, goal), blocks⟩

/-! ### An automaton observed by another one -/

/-- An automaton with a new location in front, observed by an automaton over its locations. -/
def compose (p : Nat) (a : Nfa String Nat) : Work Nat := do
  let entrance ← addLocation p (.text entranceName)
  let q ← piece p
  let w ← get
  let own := { q with locations := q.locations.erase entrance }
  let product := (w.view own w.transitions).product a
  let r ← addPiece
  let part := fun l : Option Nat => l.getD entrance
  let mut moves : List ((Option Nat × String) × Nat) := []
  for l in product.locations do
    let n ← addLocation r (.observed (w.name (part l.1)) l.2)
    moves := moves ++ [(l, n)]
  let move := fun l : Option Nat × String =>
    ((Dictionary.get? Prod.fst l moves).map (·.2)).getD 0
  product.symbols.forM (addSymbol r)
  for t in product.transitions do
    let _ ← addTransition r (t.mapLocations move)
  setInitial r (move product.initial)
  setFinal r (move product.final)
  pure r

end Workshop

end MplsReach
