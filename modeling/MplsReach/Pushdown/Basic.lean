/-
Pushdown automata whose transitions look at the top of the stack.

* `Op`: what a transition does to the stack; `Op.apply` is what it puts in place of the top.
* `Input`: the tops on which a transition fires.
* `Transition`, `Pda`: the automaton.
* `Pda.Step`, `Pda.Reaches`: its steps between configurations, and its runs.
* `Pda.ofTransitions`: the automaton that some transitions span.
-/
import MplsReach.Text.Order

namespace MplsReach

/-- What a transition does to the stack. -/
inductive Op (Sym : Type) where
  | noop
  | pop
  | push (a : Sym)
  | replace (a : Sym)
  | pushReplace (a b : Sym)
deriving DecidableEq, Repr

namespace Op

variable {Sym : Type}

/-- What stands in place of the top afterwards. -/
def apply : Op Sym → Sym → List Sym
  | noop, a => [a]
  | pop, _ => []
  | push b, a => [b, a]
  | replace b, _ => [b]
  | pushReplace b c, _ => [b, c]

/-- The symbols that an operation brings in. -/
def symbols : Op Sym → List Sym
  | noop | pop => []
  | push a | replace a => [a]
  | pushReplace a b => [a, b]

end Op

/-- The tops of the stack on which a transition fires. -/
inductive Input (Sym : Type) where
  | on (a : Sym)
  | any
  | among (as : List Sym)
deriving DecidableEq, Repr

namespace Input

variable {Sym : Type} [DecidableEq Sym]

/-- Whether a transition fires on a top. -/
def admits : Input Sym → Sym → Bool
  | on a, b => a = b
  | any, _ => true
  | among as, b => as.contains b

/-- The symbols that an input names. -/
def symbols : Input Sym → List Sym
  | on a => [a]
  | any => []
  | among as => as

end Input

/-- A transition, with a text, a guard and comments that go into the rules made from it. -/
structure Transition (Loc Sym : Type) where
  source : Loc
  target : Loc
  input : Input Sym
  op : Op Sym
  text : Option String
  guard : Option String
  comments : List String
deriving DecidableEq, Repr

namespace Transition

variable {Loc Sym : Type}

/-- A transition without text, guard and comments. -/
def plain (source target : Loc) (input : Input Sym) (op : Op Sym) : Transition Loc Sym :=
  ⟨source, target, input, op, none, none, []⟩

/-- The symbols that a transition names. -/
def symbols [DecidableEq Sym] (t : Transition Loc Sym) : List Sym := t.input.symbols ++ t.op.symbols

/-- The same transition between renamed locations. -/
def mapLocations {Loc' : Type} (f : Loc → Loc') (t : Transition Loc Sym) : Transition Loc' Sym :=
  ⟨f t.source, f t.target, t.input, t.op, t.text, t.guard, t.comments⟩

/-- The same transition without comments. -/
def withoutComments (t : Transition Loc Sym) : Transition Loc Sym := { t with comments := [] }

end Transition

/-- A pushdown automaton. Its special symbols mark the stack that it starts and ends with. -/
structure Pda (Loc Sym : Type) where
  locations : List Loc
  symbols : List Sym
  transitions : List (Transition Loc Sym)
  specials : List (String × Sym)
  initial : Loc
  final : Loc
deriving DecidableEq, Repr

/-- A location and a stack, the top first. -/
structure Config (Loc Sym : Type) where
  location : Loc
  stack : List Sym
deriving DecidableEq, Repr

namespace Pda

variable {Loc Sym : Type}

/-- One step: a transition that the top admits is carried out. -/
inductive Step [DecidableEq Sym] (p : Pda Loc Sym) : Config Loc Sym → Config Loc Sym → Prop where
  | fire (t : Transition Loc Sym) (a : Sym) (w : List Sym) :
      t ∈ p.transitions → t.input.admits a = true →
        Step p ⟨t.source, a :: w⟩ ⟨t.target, t.op.apply a ++ w⟩

/-- Any number of steps. -/
inductive Reaches [DecidableEq Sym] (p : Pda Loc Sym) :
    Config Loc Sym → Config Loc Sym → Prop where
  | refl (c : Config Loc Sym) : Reaches p c c
  | tail {c d e : Config Loc Sym} : Reaches p c d → Step p d e → Reaches p c e

/-- The transitions that leave a location. -/
def outgoing [DecidableEq Loc] (p : Pda Loc Sym) (l : Loc) : List (Transition Loc Sym) :=
  p.transitions.filter (·.source = l)

/-- The automaton that transitions span, with further locations and symbols. -/
def ofTransitions [DecidableEq Loc] [DecidableEq Sym] (locations : List Loc) (symbols : List Sym)
    (specials : List (String × Sym)) (initial final : Loc)
    (transitions : List (Transition Loc Sym)) : Pda Loc Sym where
  locations := Text.distinct (locations ++ transitions.flatMap fun t => [t.source, t.target])
  symbols := Text.distinct (symbols ++ transitions.flatMap (·.symbols))
  transitions := transitions
  specials := specials
  initial := initial
  final := final

/-- The same automaton with renamed locations; locations of one new name become one. -/
def mapLocations {Loc' : Type} [DecidableEq Loc'] (f : Loc → Loc') (p : Pda Loc Sym) :
    Pda Loc' Sym where
  locations := Text.distinct (p.locations.map f)
  symbols := p.symbols
  transitions := p.transitions.map (·.mapLocations f)
  specials := p.specials
  initial := f p.initial
  final := f p.final

/-- The special symbol of a name. -/
def special? (p : Pda Loc Sym) (name : String) : Option Sym :=
  (p.specials.find? (·.1 = name)).map (·.2)

end Pda

end MplsReach
