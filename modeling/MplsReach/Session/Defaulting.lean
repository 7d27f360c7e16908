/-
Sessions with a dictionary that makes the entries that it lacks.

* `Defaulting.lookUp`: the entry of a key, which is made and kept if there is none.
* `Defaulting.report`: the answers to look-ups and membership tests, and the entries in the end.
-/
import MplsReach.Session.Basic

namespace MplsReach.Session.Defaulting

/-- The entries of a dictionary, in order. -/
abbrev Entries := List (String × Value)

/-- The entry of a key; `make` makes one from a key that is a text. -/
def lookUp (make : Option (String → String)) (key : Value) : Step Entries Value := do
  let _ ← keyOf key
  match key, make with
  | .text k, make =>
    match Dictionary.get? Prod.fst k (← get), make with
    | some (_, v), _ => pure v
    | none, some make =>
      modify (Dictionary.put Prod.fst (k, .text (make k)))
      pure (.text (make k))
    | none, none => throw (.unknownName (some k))
  | _, some _ => throw .wrongKind
  | _, none => throw (.unknownName none)

/-- Whether a command is a look-up and no membership test. -/
def isLookUp (command : Value) : Bool := (command.item 0).asFlag

/-- One command: a flag that tells a look-up from a membership test, and a key. -/
def step (make : Option (String → String)) (command : Value) : Step Entries Value := do
  let key := command.item 1
  if isLookUp command then lookUp make key
  else pure (.flag ((← get).any fun e => key.text? = some e.1))

/-- The answers to commands and the entries in the end. A membership test of what is no key at all
spoils all answers. -/
def report (make : Option (String → String)) (start : Entries) (commands : List Value) : Value :=
  if commands.any fun c => !isLookUp c && (c.item 1).key?.isNone then .failure .wrongKind
  else
    let (answers, entries) := run (step make) start commands
    .list (answers ++ [.list (entries.map fun e => .list [.text e.1, e.2])])

end MplsReach.Session.Defaulting
