/-
Expressions drawn as automata.

* `Alphabet`: what the names in an expression stand for, and what is left when some are excluded.
* `Sketch`: the part of an automaton that is drawn, with the symbols known so far.
* `Sketch.draw`: an expression between two locations. Every location has a number; a sequence takes
  a new one behind each of its parts but the last.
* `Alphabet.automaton`: the automaton of an expression; without an expression, one location that is
  both ends.
-/
import MplsReach.Automaton.Nfa
import MplsReach.Fault
import MplsReach.Query.Ast
import MplsReach.Text.Order

namespace MplsReach.Query

/-- What the names in an expression stand for. -/
structure Alphabet (Sym : Type) where
  /-- The symbols that a name stands for, and the domain, which a new name may extend. -/
  lookup : List Sym → String → Except Fault (List Sym × List Sym)
  /-- The symbols of the domain that share no name with the excluded ones. -/
  others : List Sym → List Sym → Except Fault (List Sym)
  /-- Whether the automaton stays where it is when it reads a symbol. -/
  stays : Sym → Bool

/-- The part of an automaton that is drawn. -/
structure Sketch (Sym : Type) where
  domain : List Sym
  size : Nat
  edges : List (Edge Nat Sym)
  symbols : List Sym

namespace Sketch

variable {Sym : Type}

/-- Two locations and nothing between them. -/
def blank (domain : List Sym) (size : Nat) : Sketch Sym := ⟨domain, size, [], []⟩

/-- An edge for each symbol. -/
def place (s : Sketch Sym) (A : Alphabet Sym) (source target : Nat) (as : List Sym) : Sketch Sym :=
  { s with
    edges := s.edges ++ as.map fun a => ⟨source, some a, if A.stays a then source else target⟩
    symbols := s.symbols ++ as }

/-- An edge that reads nothing. -/
def silent (s : Sketch Sym) (source target : Nat) : Sketch Sym :=
  { s with edges := s.edges ++ [⟨source, none, target⟩] }

/-- The symbols that a symbol of an expression stands for; they are known from then on. -/
def meaning (s : Sketch Sym) (A : Alphabet Sym) : Symbol → Except Fault (Sketch Sym × List Sym)
  | .simple word => do
    let (domain, as) ← A.lookup s.domain word.name
    pure ({ s with domain := domain, symbols := s.symbols ++ as }, as)
  | .tuple .. => .error .unsupported

/-- The symbols that the symbols of an expression stand for. -/
def meanings (A : Alphabet Sym) : Sketch Sym → List Symbol → Except Fault (Sketch Sym × List Sym)
  | s, [] => .ok (s, [])
  | s, x :: xs => do
    let (s, as) ← s.meaning A x
    let (s, bs) ← meanings A s xs
    pure (s, as ++ bs)

/-- Silent edges for how often an expression occurs: back to its start, and past it. -/
def repeated (s : Sketch Sym) (source target : Nat) : Quantifier → Sketch Sym
  | .zeroOrMore => (s.silent target source).silent source target
  | .oneOrMore => s.silent target source
  | .zeroOrOne => s.silent source target

mutual

/-- An expression between two locations. -/
def draw [DecidableEq Sym] (A : Alphabet Sym) (s : Sketch Sym) (source target : Nat) :
    Atom → Except Fault (Sketch Sym)
  | .simple x => do
    let (s, as) ← s.meaning A x
    pure (s.place A source target as)
  | .any => do
    pure (s.place A source target (← A.others s.domain []))
  | .positiveSet xs => do
    let (s, as) ← meanings A s xs
    pure (s.place A source target (Text.distinct as))
  | .negativeSet xs => do
    let (s, as) ← meanings A s xs
    pure (s.place A source target (← A.others s.domain as))
  | .sequence as => drawSequence A s source target as
  | .alternative l r => do
    let s ← draw A s source target l
    draw A s source target r
  | .quantified a q => do
    let s ← draw A s source target a
    pure (s.repeated source target q)

/-- Expressions one behind the other. -/
def drawSequence [DecidableEq Sym] (A : Alphabet Sym) (s : Sketch Sym) (source target : Nat) :
    List Atom → Except Fault (Sketch Sym)
  | [] => .error .outOfRange
  | [a] => draw A s source target a
  | a :: b :: as => do
    let middle := s.size
    let s ← draw A { s with size := middle + 1 } source middle a
    drawSequence A s middle target (b :: as)

end

/-- A location in front of a sketch and one behind it, each with the symbol read in between. -/
def enclose (s : Sketch Sym) (initial final : Nat) (first last : Sym) : Sketch Sym where
  domain := s.domain
  size := s.size + 2
  edges := s.edges ++ [⟨s.size, some first, initial⟩, ⟨final, some last, s.size + 1⟩]
  symbols := s.symbols ++ [first, last]

/-- The automaton of a sketch. -/
def finish [DecidableEq Sym] (s : Sketch Sym) (initial final : Nat) : Nfa Nat Sym where
  locations := List.range s.size
  edges := s.edges
  symbols := Text.distinct s.symbols
  initial := initial
  final := final

end Sketch

variable {Sym : Type} [DecidableEq Sym]

/-- The sketch of an expression, with its two ends. -/
def Alphabet.sketch (A : Alphabet Sym) (domain : List Sym) :
    Option Atom → Except Fault (Sketch Sym × Nat × Nat)
  | none => .ok (.blank domain 1, 0, 0)
  | some a => do pure (← Sketch.draw A (.blank domain 2) 0 1 a, 0, 1)

/-- The automaton of an expression, and the domain afterwards. -/
def Alphabet.automaton (A : Alphabet Sym) (domain : List Sym) (a : Option Atom) :
    Except Fault (Nfa Nat Sym × List Sym) := do
  let (s, initial, final) ← A.sketch domain a
  pure (s.finish initial final, s.domain)

/-- The automaton of an expression with a symbol in front of it and one behind it. -/
def Alphabet.automatonBetween (A : Alphabet Sym) (domain : List Sym) (first last : Sym)
    (a : Option Atom) : Except Fault (Nfa Nat Sym) := do
  let (s, initial, final) ← A.sketch domain a
  pure ((s.enclose initial final first last).finish s.size (s.size + 1))

end MplsReach.Query
