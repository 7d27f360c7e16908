/-
The operations of a next hop, as they are written in a dump.

* `Operation`: push, swap and pop, with the name of a label.
* `Operation.read`: a word and, for push and swap, one name.
-/
import MplsReach.Fault
import MplsReach.Text.Blank

namespace MplsReach.Dump

/-- An operation on the labels of a packet. -/
inductive Operation where
  | push (label : String)
  | swap (label : String)
  | pop
deriving DecidableEq, Repr

namespace Operation

/-- Nothing may follow an operation. -/
def ending (text : String) (o : Operation) : List String → Except Fault Operation
  | [] => .ok o
  | _ => .error (.trailingText text)

/-- The operation that a text stands for. -/
def read (text : String) : Except Fault Operation :=
  match Text.cutAtBlanks text with
  | "push" :: label :: rest => ending text (.push label) rest
  | "swap" :: label :: rest => ending text (.swap label) rest
  | ["push"] | ["swap"] => .error .badValue
  | "pop" :: rest => ending text .pop rest
  | word :: _ => .error (.refused (.invalidAction word))
  | [] => .error .badValue

/-- Whether a fault says that a word is no operation. -/
def isInvalid : Fault → Bool
  | .refused (.invalidAction _) => true
  | _ => false

/-- The operations that texts stand for; words that are no operations are skipped. -/
def readAll : List String → Except Fault (List Operation)
  | [] => .ok []
  | text :: texts =>
    match read text with
    | .ok o => do pure (o :: (← readAll texts))
    | .error f => if isInvalid f then readAll texts else .error f

end Operation

end MplsReach.Dump
