/-
One pushdown automaton behind another.

* `Transition.copied`: a transition loses its comments, and its set of tops, when it is copied.
* `Pda.concat`: a step that changes nothing leads from the end of the first automaton to the start
  of the second one. The transitions of one of the two may be kept as they are.
* `Pda.larger`: the one that is kept when the result may take over an automaton.
-/
import MplsReach.Dictionary
import MplsReach.Pushdown.Basic

namespace MplsReach

instance sumHashable {α β : Type} [Hashable α] [Hashable β] : Hashable (α ⊕ β) where
  hash
    | .inl a => mixHash 11 (hash a)
    | .inr b => mixHash 13 (hash b)

/-- One of two automata. -/
inductive Side where
  | first
  | second
deriving DecidableEq, Repr

/-- A copy of a transition: it has no comments, and fires on any top if it fired on several. -/
def Transition.copied {Loc Sym : Type} (t : Transition Loc Sym) : Transition Loc Sym :=
  { t with
    input := match t.input with
      | .among _ => .any
      | i => i
    comments := [] }

namespace Pda

variable {α β Sym : Type}

/-- The automaton with copies of its transitions, unless it is kept. -/
def copiedUnless (kept : Bool) (p : Pda α Sym) : Pda α Sym :=
  if kept then p else { p with transitions := p.transitions.map Transition.copied }

/-- The special symbols of both; those of a copied automaton win over those of a kept one, and
those of the second one over those of the first one. -/
def joinSpecials (kept : Option Side) (p q : List (String × Sym)) : List (String × Sym) :=
  if kept = some .second then Dictionary.putAll (·.1) q p else Dictionary.putAll (·.1) p q

/-- The second automaton behind the first one. -/
def concat [DecidableEq Sym] (kept : Option Side) (p : Pda α Sym) (q : Pda β Sym) :
    Pda (α ⊕ β) Sym where
  locations := p.locations.map .inl ++ q.locations.map .inr
  symbols := Text.distinct (p.symbols ++ q.symbols)
  transitions :=
    (p.copiedUnless (kept = some .first)).transitions.map (·.mapLocations .inl) ++
    (q.copiedUnless (kept = some .second)).transitions.map (·.mapLocations .inr) ++
    [.plain (.inl p.final) (.inr q.initial) .any .noop]
  specials := joinSpecials kept p.specials q.specials
  initial := .inl p.initial
  final := .inr q.final

/-- The automaton with more transitions, the first one if both have as many. -/
def larger (p : Pda α Sym) (q : Pda β Sym) : Side :=
  if p.transitions.length < q.transitions.length then .second else .first

/-- The second automaton behind the first one, where the larger one may be taken over. -/
def join [DecidableEq Sym] (takeOver : Bool) (p : Pda α Sym) (q : Pda β Sym) : Pda (α ⊕ β) Sym :=
  concat (if takeOver then some (p.larger q) else none) p q

end Pda

end MplsReach
