/-
Sessions in which guards and the variables in them are made by hand.

* `Operand`: a plain value, a variable, or a guard made before.
* `Guarding`: the variables, the guards made so far, and the keys under which both are known.
* `Guarding.combine`: the guard of a kind over operands. Conjunctions and assignments over equal
  operands are made once.
* `Guarding.step`: the commands.
* `Guarding.answers`: the answers to commands. The numbers that are free are told as they stand in
  the end, wherever they are asked for.
-/
import MplsReach.Guard.Basic
import MplsReach.Guard.Variables
import MplsReach.Report.Shown
import MplsReach.Session.Basic

namespace MplsReach.Session

open Guard (Form Variables)

/-- What a guard speaks about. -/
inductive Operand where
  | value (v : Value)
  | variable (number : Nat)
  | guard (number : Nat)
deriving Inhabited

/-- What operands are compared by: plain values by their keys, variables and guards by their
numbers. -/
inductive OperandKey where
  | value (k : Key)
  | variable (number : Nat)
  | guard (number : Nat)
deriving DecidableEq, Repr

/-- What an operand is compared by; lists and records cannot be compared. -/
def Operand.key? : Operand → Option OperandKey
  | .value v => v.key?.map .value
  | .variable n => some (.variable n)
  | .guard n => some (.guard n)

/-- A guard that was made. -/
structure MadeGuard where
  form : Form
  text : String
  /-- The key under which it is shared. -/
  key : Option (Form × OperandKey × OperandKey)

/-- The state of a session with guards. -/
structure Guarding where
  supply : Variables
  made : List MadeGuard
  variableKeys : List (Key × Nat)
  guardKeys : List (Key × Operand)

namespace Guarding

/-- Nothing is made yet. -/
def empty : Guarding := ⟨.start, [], [], []⟩

/-- The text of an operand. -/
def text (g : Guarding) : Operand → String
  | .value v => v.shown
  | .variable n => g.supply.name n
  | .guard n => (g.made[n]?.map (·.text)).getD ""

/-- The variable under a key. -/
def findVariable (id : Value) : Step Guarding Nat := do find (← get).variableKeys id

/-- The operand that is written: a pair refers to a variable or to a guard. -/
def operand : Value → Step Guarding Operand
  | .list (tag :: id :: _) => do
    match tag with
    | .text "v" => pure (.variable (← findVariable id))
    | _ => find (← get).guardKeys id
  | .list _ => throw .outOfRange
  | v => pure (.value v)

/-- The guard of a kind over operands. -/
def combine (f : Form) (a b : Operand) : Step Guarding Operand := do
  let g ← get
  let fresh (key : Option (Form × OperandKey × OperandKey)) : Step Guarding Operand := do
    set { g with made := g.made ++ [MadeGuard.mk f (f.write (g.text a) (g.text b)) key] }
    pure (.guard g.made.length)
  if f.isShared then
    match a.key?, b.key? with
    | some k, some l =>
      match g.made.findIdx? (·.key = some (f, k, l)) with
      | some n => pure (.guard n)
      | none => fresh (some (f, k, l))
    | _, _ => throw .wrongKind
  else fresh none

/-- The kind of a guard. -/
def form? (g : Guarding) : Operand → Option Form
  | .guard n => g.made[n]?.map (·.form)
  | _ => none

/-! ### Conjunctions and disjunctions -/

/-- The common binary digits of two numbers. -/
def bitAnd : Int → Int → Int
  | .ofNat a, .ofNat b => .ofNat (a &&& b)
  | .ofNat a, .negSucc b => .ofNat (a - (a &&& b))
  | .negSucc a, .ofNat b => .ofNat (b - (b &&& a))
  | .negSucc a, .negSucc b => .negSucc (a ||| b)

/-- The binary digits of either of two numbers. -/
def bitOr (a b : Int) : Int := -(bitAnd (-a - 1) (-b - 1)) - 1

/-- Flags and numbers joined digit by digit; of two records, a disjunction is a record with the
fields of both. -/
def joinValues (f : Form) : Value → Value → Except Fault Value
  | .flag a, .flag b => .ok (.flag (if f == .both then a && b else a || b))
  | .record a, .record b =>
    if f == .either then .ok (.record (Dictionary.putAll Prod.fst a b)) else .error .wrongKind
  | a, b =>
    if isWhole a && isWhole b then
      .ok (.number ((if f == .both then bitAnd else bitOr) a.asInt b.asInt))
    else .error .wrongKind
where
  isWhole : Value → Bool
    | .flag _ | .number _ => true
    | _ => false

/-- Two operands joined by a conjunction or a disjunction: a missing operand changes nothing, and
beside a guard that always holds the other one is left. -/
def join (f : Form) (a b : Operand) : Step Guarding Operand := do
  match (← get).form? a, a, b with
  | some .sum, _, _ => throw .wrongKind
  | some _, a, .value .nothing => pure a
  | some .always, _, .value (.text s) => combine .raw (.value (.text s)) (.value .nothing)
  | some .always, _, b => pure b
  | some _, a, b => combine f a b
  | none, .value v, .value w => do pure (.value (← attempt (joinValues f v w)))
  | none, _, _ => throw .wrongKind

/-- A guard with the demand that all variables but some keep their values. -/
def keeping (explicit : Operand) (excluded : List Nat) : Step Guarding Operand := do
  let always ← combine .always (.value .nothing) (.value .nothing)
  let first ← join .both always explicit
  ((← get).supply.kept.filter (!excluded.contains ·)).foldlM (fun g v => do
    join .both g (← combine .assign (.variable v) (.variable v))) first

/-! ### Commands -/

/-- A new variable under a key. -/
def alloc (id : Value) : Step Guarding Nat := do
  let (n, vs) ← attempt (← get).supply.alloc
  modify fun g => { g with supply := vs }
  let k ← keyOf id
  modify fun g => { g with variableKeys := keep k n g.variableKeys }
  pure n

/-- A variable is released, which fails behind that if its value was not kept. -/
def release (n : Nat) : Step Guarding Unit := do
  let vs := (← get).supply
  modify fun g => { g with supply := vs.release n }
  if !vs.keeps n then throw (.unknownName none)

/-- The variables that are kept, the numbers that are free, and the names that were used. -/
def state (free : List (Option Nat)) : Step Guarding Value := do
  let vs := (← get).supply
  pure (.list [.sortedTexts vs.keptNames,
    .list (free.reverse.map fun n => (n.map Value.nat).getD .nothing), .sortedTexts vs.usedNames])

/-- A guard is kept under a key and shown. -/
def store (id : Value) (a : Operand) : Step Guarding Value := do
  let k ← keyOf id
  modify fun g => { g with guardKeys := keep k a g.guardKeys }
  pure (.text ((← get).text a))

/-- The kind of guard that a command makes. -/
def formOf? : String → Option Form
  | "set" => some .assign
  | "eq" => some .equal
  | "neq" => some .differs
  | "lt" => some .less
  | "add" => some .sum
  | _ => none

/-- One command; `free` are the numbers that are told to be free. -/
def step (free : List (Option Nat)) (command : Value) : Step Guarding Value := do
  let arg := command.item
  match (arg 0).asText with
  | "alloc" =>
    let n ← alloc (arg 1)
    pure (.text ((← get).supply.name n))
  | "free" =>
    release (← findVariable (arg 1))
    pure .nothing
  | "scoped" =>
    let n ← alloc (arg 1)
    let inside ← state free
    let name := (← get).supply.name n
    release n
    pure (.list [.text name, inside])
  | "state" => state free
  | "empty" => store (arg 1) (← combine .always (.value .nothing) (.value .nothing))
  | "terrible" => store (arg 1) (← combine .raw (← operand (arg 2)) (.value .nothing))
  | "and" | "iand" => store (arg 1) (← join .both (← operand (arg 2)) (← operand (arg 3)))
  | "or" => store (arg 1) (← join .either (← operand (arg 2)) (← operand (arg 3)))
  | "get" =>
    let explicit ← operand (arg 2)
    store (arg 1) (← keeping explicit (← (arg 3).items.mapM findVariable))
  | name =>
    match formOf? name with
    | some f => store (arg 1) (← combine f (← operand (arg 2)) (← operand (arg 3)))
    | none => pure .nothing

/-- The answers to commands. -/
def answers (commands : List Value) : List Value :=
  let final := (run (step []) empty commands).2
  (run (step final.supply.free) empty commands).1

end Guarding

end MplsReach.Session
