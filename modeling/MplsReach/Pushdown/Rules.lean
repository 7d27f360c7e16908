/-
The rules that a pushdown automaton is checked with: one for each transition and top of the stack.

* `Block`: a transition with the tops that there is a rule for.
* `RuleSystem`: blocks, and the pairs of location and top to start from and to arrive at.
* `Pda.compile`: rules for those tops only that can occur.
* `RuleSystem.Step`, `RuleSystem.Reaches`: the runs by rules.
-/
import MplsReach.Pushdown.Tops
import MplsReach.Total

namespace MplsReach

/-- A transition with the tops that there is a rule for. -/
structure Block (Loc Sym : Type) where
  transition : Transition Loc Sym
  tops : List Sym
deriving DecidableEq, Repr

/-- Rules, and where to start and to arrive. -/
structure RuleSystem (Loc Sym : Type) where
  start : Loc × Sym
  goal : Loc × Sym
  blocks : List (Block Loc Sym)
deriving Repr

variable {Loc Sym : Type}

/-- The tops that there is a rule for, out of those that can occur. A transition over a set of tops
has a rule for each of them. -/
def Input.ruleTops [DecidableEq Sym] (tops : List Sym) : Input Sym → List Sym
  | .on a => if tops.contains a then [a] else []
  | .any => tops
  | .among as => as

/-- The rules of transitions, given the tops that can occur at a location. -/
def blocksOf [DecidableEq Sym] (tops : Loc → List Sym) (ts : List (Transition Loc Sym)) :
    List (Block Loc Sym) :=
  ts.map fun t => ⟨t, t.input.ruleTops (tops t.source)⟩

/-- Pairs of location and top, by location. -/
def topsAt [DecidableEq Loc] [Hashable Loc] (pairs : List (Loc × Sym)) (l : Loc) : List Sym :=
  ((groupBy Prod.fst pairs).getD l []).map (·.2)

/-- The rules of an automaton that starts with a symbol on the stack and is to end with one on
top. -/
def Pda.compile [DecidableEq Loc] [DecidableEq Sym] [Hashable Loc] [Hashable Sym]
    (p : Pda Loc Sym) (start goal : Sym) : RuleSystem Loc Sym where
  start := (p.initial, start)
  goal := (p.final, goal)
  blocks :=
    let index := groupBy Prod.fst (p.tops start)
    blocksOf (fun l => (index.getD l []).map (·.2)) p.transitions

namespace RuleSystem

/-- The number of rules. -/
def size (s : RuleSystem Loc Sym) : Nat := total (s.blocks.map (·.tops.length))

/-- The number of transitions that have a rule. -/
def used (s : RuleSystem Loc Sym) : Nat := (s.blocks.filter (!·.tops.isEmpty)).length

/-- One step: a rule is applied to the top of the stack. -/
inductive Step (s : RuleSystem Loc Sym) : Config Loc Sym → Config Loc Sym → Prop where
  | apply (b : Block Loc Sym) (a : Sym) (w : List Sym) : b ∈ s.blocks → a ∈ b.tops →
      Step s ⟨b.transition.source, a :: w⟩ ⟨b.transition.target, b.transition.op.apply a ++ w⟩

/-- Any number of steps. -/
inductive Reaches (s : RuleSystem Loc Sym) : Config Loc Sym → Config Loc Sym → Prop where
  | refl (c : Config Loc Sym) : Reaches s c c
  | tail {c d e : Config Loc Sym} : Reaches s c d → Step s d e → Reaches s c e

/-- Whether the goal can be on top of some stack, from the start alone on the stack. -/
def GoalReachable (s : RuleSystem Loc Sym) : Prop :=
  ∃ w, s.Reaches ⟨s.start.1, [s.start.2]⟩ ⟨s.goal.1, s.goal.2 :: w⟩

end RuleSystem

end MplsReach
