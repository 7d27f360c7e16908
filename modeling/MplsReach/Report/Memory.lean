/-
The memory that a process uses, from the text of its status.

* `memoryUse`: the number of bytes behind a word of the status; nothing is used where there is no
  status or where the number or its unit is missing.
* `memoryReport`: the virtual and resident memory, its peak, and the size of the stack.
-/
import MplsReach.Number.Binary
import MplsReach.Report.Value
import MplsReach.Text.Blank

namespace MplsReach

/-- The text from the first place on at which a word occurs. -/
def fromWord? (word : List Char) : List Char → Option (List Char)
  | [] => if word.isEmpty then some [] else none
  | c :: cs => if word.isPrefixOf (c :: cs) then some (c :: cs) else fromWord? word cs

/-- The power of two that a unit counts. -/
def unitPower (unit : String) : Except Fault Nat :=
  if unit = "kB" ∨ unit = "KB" then .ok 10
  else if unit = "mB" ∨ unit = "MB" then .ok 20
  else .error (.unknownName (some unit))

/-- The number of bytes behind a word of a status, as text. -/
def memoryUse (word : String) (status : Option String) : Except Fault String :=
  match status with
  | none => .ok "0.0"
  | some status =>
    match fromWord? word.toList status.toList with
    | none => .error .badValue
    | some rest =>
      match Text.fields (String.ofList rest) with
      | _ :: amount :: unit :: _ => do
        match Number.Quantity.read? amount with
        | none => throw .badValue
        | some q => pure (q.scale (← unitPower unit)).write
      | _ => .ok "0.0"

/-- The memory that a process uses. -/
def memoryReport (status : Option String) : Value :=
  .record ([("memory", "VmSize:"), ("resident", "VmRSS:"), ("resident_peak", "VmHWM"),
    ("stacksize", "VmStk:")].map fun (name, word) =>
      (name, .ofExcept ((memoryUse word status).map .text)))

end MplsReach
