/-
Whether a system of rules reaches its goal, with a run that does.

A pair of location and top is an entry when the run puts that top on the stack, or starts with it.
From each entry the search follows the run while the stack has no fewer symbols.

* `Trace`: a run, with the runs above a lower symbol as branches; `Trace.toList` puts it in order.
* `Progress.visit`: one pair that is found from an entry, and what follows from it.
* `RuleSystem.witness?`: the transitions of a run to the goal.
-/
import MplsReach.Pushdown.Rules

namespace MplsReach

/-! ### Runs -/

/-- A run: its steps, and the runs that end with a shorter stack. -/
inductive Trace (ρ : Type) where
  | start
  | step (before : Trace ρ) (by_ : ρ)
  | call (before inner : Trace ρ)

/-- The steps of a run in front of others. -/
def Trace.prepend {ρ : Type} : Trace ρ → List ρ → List ρ
  | .start, rest => rest
  | .step before r, rest => before.prepend (r :: rest)
  | .call before inner, rest => before.prepend (inner.prepend rest)

/-- The steps of a run. -/
def Trace.toList {ρ : Type} (t : Trace ρ) : List ρ := t.prepend []

/-! ### The search -/

variable {Loc Sym : Type} [DecidableEq Loc] [DecidableEq Sym] [Hashable Loc] [Hashable Sym]

/-- A pair that is found from an entry, and how. -/
structure Finding (Loc Sym : Type) where
  entry : Loc × Sym
  head : Loc × Sym
  trace : Trace (Transition Loc Sym)

/-- A run that waits for the stack above a symbol to be taken off. -/
structure Caller (Loc Sym : Type) where
  entry : Loc × Sym
  below : Sym
  trace : Trace (Transition Loc Sym)

/-- What has been found. -/
structure Progress (Loc Sym : Type) [BEq Loc] [BEq Sym] [Hashable Loc] [Hashable Sym] where
  /-- The pairs found from each entry. -/
  seen : Std.HashSet ((Loc × Sym) × (Loc × Sym))
  /-- The locations at which the stack gets shorter than at an entry. -/
  exits : Std.HashMap (Loc × Sym) (List (Loc × Trace (Transition Loc Sym)))
  /-- The runs that wait for an entry. -/
  callers : Std.HashMap (Loc × Sym) (List (Caller Loc Sym))
  /-- How each entry is found from the start. -/
  contexts : Std.HashMap (Loc × Sym) (Trace (Transition Loc Sym))
  /-- What is still to be looked at. -/
  waiting : List (Finding Loc Sym)

namespace Progress

/-- A pair found from an entry. -/
def add (s : Progress Loc Sym) (f : Finding Loc Sym) : Progress Loc Sym :=
  if s.seen.contains (f.entry, f.head) then s
  else { s with seen := s.seen.insert (f.entry, f.head), waiting := f :: s.waiting }

/-- The stack gets shorter than at the entry. -/
def leave (s : Progress Loc Sym) (entry : Loc × Sym) (l : Loc)
    (trace : Trace (Transition Loc Sym)) : Progress Loc Sym :=
  let known := s.exits.getD entry []
  if known.any (·.1 = l) then s
  else
    let s := { s with exits := s.exits.insert entry ((l, trace) :: known) }
    (s.callers.getD entry []).foldl
      (fun s c => s.add ⟨c.entry, (l, c.below), .call c.trace trace⟩) s

/-- A symbol is put on the stack above another one. -/
def enter (s : Progress Loc Sym) (c : Caller Loc Sym) (head : Loc × Sym) : Progress Loc Sym :=
  let s := { s with
    callers := s.callers.insert head (c :: s.callers.getD head [])
    contexts := s.contexts.insertIfNew head
      (.call ((s.contexts.getD c.entry .start)) c.trace) }
  let s := s.add ⟨head, head, .start⟩
  (s.exits.getD head []).foldl
    (fun s (l, inner) => s.add ⟨c.entry, (l, c.below), .call c.trace inner⟩) s

/-- One step from a pair that is found from an entry. -/
def follow (f : Finding Loc Sym) (s : Progress Loc Sym) (t : Transition Loc Sym) :
    Progress Loc Sym :=
  let trace := f.trace.step t
  match t.op with
  | .noop => s.add ⟨f.entry, (t.target, f.head.2), trace⟩
  | .replace a => s.add ⟨f.entry, (t.target, a), trace⟩
  | .pop => s.leave f.entry t.target trace
  | .push a => s.enter ⟨f.entry, f.head.2, trace⟩ (t.target, a)
  | .pushReplace a b => s.enter ⟨f.entry, b, trace⟩ (t.target, a)

/-- All steps from a pair that is found from an entry. -/
def visit (rules : Loc × Sym → List (Transition Loc Sym)) (s : Progress Loc Sym)
    (f : Finding Loc Sym) : Progress Loc Sym :=
  (rules f.head).foldl (follow f) s

/-- Looks at everything that waits, for a number of rounds, until the goal is found. -/
def search (rules : Loc × Sym → List (Transition Loc Sym)) (goal : Loc × Sym) :
    Nat → Progress Loc Sym → Option (List (Transition Loc Sym))
  | 0, _ => none
  | rounds + 1, s =>
    match s.waiting.find? (·.head = goal) with
    | some f => some (((s.contexts.getD f.entry .start).prepend f.trace.toList))
    | none =>
      if s.waiting.isEmpty then none
      else search rules goal rounds (s.waiting.reverse.foldl (visit rules) { s with waiting := [] })

/-- The start is found. -/
def begin (start : Loc × Sym) : Progress Loc Sym :=
  add ⟨∅, ∅, ∅, ∅, []⟩ ⟨start, start, .start⟩

end Progress

namespace RuleSystem

/-- The rules as pairs of what they apply to and the transition that they belong to. -/
def rules (s : RuleSystem Loc Sym) : List ((Loc × Sym) × Transition Loc Sym) :=
  s.blocks.flatMap fun b => b.tops.map fun a => ((b.transition.source, a), b.transition)

/-- As many rounds as there can be pairs of pairs. -/
def witnessRounds (s : RuleSystem Loc Sym) : Nat :=
  let n := (1 + s.blocks.length) * (1 + 2 * s.size)
  n * n + 1

/-- The transitions of a run from the start to the goal. -/
def witness? (s : RuleSystem Loc Sym) : Option (List (Transition Loc Sym)) :=
  let index := groupBy Prod.fst s.rules
  Progress.search (fun h => (index.getD h []).map (·.2)) s.goal s.witnessRounds (.begin s.start)

/-- Whether there is a run to the goal. -/
def verdict (s : RuleSystem Loc Sym) : Bool := s.witness?.isSome

end RuleSystem

end MplsReach
