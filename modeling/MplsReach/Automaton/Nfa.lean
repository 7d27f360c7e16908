/-
Nondeterministic automata with silent edges.

* `Edge`: from a location to a location, reading a symbol or nothing.
* `Nfa`: locations, edges, the symbols known to it, and the two ends.
* `Nfa.Path`: the words read on the way from one location to another.
* `Nfa.Accepts`: the words read from the initial to the final location.
-/

namespace MplsReach

/-- An edge; a silent one reads nothing. -/
structure Edge (Loc Sym : Type) where
  source : Loc
  symbol : Option Sym
  target : Loc
deriving DecidableEq, Repr

/-- A nondeterministic automaton. -/
structure Nfa (Loc Sym : Type) where
  locations : List Loc
  edges : List (Edge Loc Sym)
  symbols : List Sym
  initial : Loc
  final : Loc
deriving DecidableEq, Repr

namespace Nfa

variable {Loc Sym : Type}

/-- The words that are read on the way from one location to another. -/
inductive Path (a : Nfa Loc Sym) : Loc → List Sym → Loc → Prop where
  | refl (q : Loc) : Path a q [] q
  | silent {p q r : Loc} {w : List Sym} :
      ⟨p, none, q⟩ ∈ a.edges → Path a q w r → Path a p w r
  | read {p q r : Loc} {s : Sym} {w : List Sym} :
      ⟨p, some s, q⟩ ∈ a.edges → Path a q w r → Path a p (s :: w) r

/-- The words that are read from the initial to the final location. -/
def Accepts (a : Nfa Loc Sym) (w : List Sym) : Prop := a.Path a.initial w a.final

/-- The same automaton with renamed locations. -/
def mapLocations {Loc' : Type} (f : Loc → Loc') (a : Nfa Loc Sym) : Nfa Loc' Sym where
  locations := a.locations.map f
  edges := a.edges.map fun e => ⟨f e.source, e.symbol, f e.target⟩
  symbols := a.symbols
  initial := f a.initial
  final := f a.final

/-- The same automaton over other symbols. -/
def mapSymbols {Sym' : Type} (f : Sym → Sym') (a : Nfa Loc Sym) : Nfa Loc Sym' where
  locations := a.locations
  edges := a.edges.map fun e => ⟨e.source, e.symbol.map f, e.target⟩
  symbols := a.symbols.map f
  initial := a.initial
  final := a.final

end Nfa

end MplsReach
