/-
Sessions: a list of commands that work on a state one after the other.

* `Session.Step`: a command on a state, which answers a value or a fault and in both cases leaves a
  state.
* `Session.run`: the answers to a list of commands. A fault is the answer to the command that
  failed, and the next command goes on from the state that it left.
-/
import MplsReach.Dictionary
import MplsReach.Report.Value

namespace MplsReach.Session

/-- A command on a state. -/
abbrev Step (σ : Type) := ExceptT Fault (StateM σ)

variable {σ α : Type}

/-- The outcome of an attempt. -/
def attempt (x : Except Fault α) : Step σ α :=
  match x with
  | .ok a => pure a
  | .error f => throw f

/-- A change of the state that answers nothing. -/
def change (f : σ → σ) : Step σ Value := do
  modify f
  pure .nothing

/-- The key that a value is. -/
def keyOf (id : Value) : Step σ Key :=
  match id.key? with
  | some k => pure k
  | none => throw .wrongKind

/-- The thing that is kept under a key. -/
def find (table : List (Key × α)) (id : Value) : Step σ α := do
  let k ← keyOf id
  match Dictionary.get? Prod.fst k table with
  | some (_, a) => pure a
  | none => throw (.unknownName id.text?)

/-- A thing is kept under a key. -/
def keep (k : Key) (a : α) (table : List (Key × α)) : List (Key × α) :=
  Dictionary.put Prod.fst (k, a) table

/-- The answer to one command, and the state that it leaves. -/
def answer (step : Step σ Value) (s : σ) : Value × σ :=
  match step.run.run s with
  | (.ok v, s) => (v, s)
  | (.error f, s) => (.failure f, s)

/-- The answers to commands, and the state that they leave. -/
def run (step : Value → Step σ Value) (s : σ) : List Value → List Value × σ
  | [] => ([], s)
  | c :: cs =>
    let (v, s) := answer (step c) s
    let (vs, s) := run step s cs
    (v :: vs, s)

end MplsReach.Session
