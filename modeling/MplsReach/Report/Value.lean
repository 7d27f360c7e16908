/-
Values of reports and scripts: what is shown of a network, an automaton or a tree, and what a
script hands to its commands.

* `Value`: nothing, a flag, a number, a text, a list, a record with named fields, or a fault.
* `Value.key?`: the key under which a script keeps a thing.
-/
import MplsReach.Scalar

namespace MplsReach

/-- A value of a report. -/
inductive Value where
  | nothing
  | flag (b : Bool)
  | number (n : Int)
  /-- A number that is written with a decimal point or an exponent. -/
  | real (q : Number.Quantity)
  | text (s : String)
  | list (vs : List Value)
  | record (fields : List (String × Value))
  | failure (f : Fault)
deriving Inhabited

namespace Value

/-! ### Making values -/

/-- A count. -/
def nat (n : Nat) : Value := .number n

/-- A list of texts. -/
def texts (ss : List String) : Value := .list (ss.map .text)

/-- A list of texts in ascending order. -/
def sortedTexts (ss : List String) : Value := texts (Text.sorted ss)

/-- A text that may be missing. -/
def optional : Option String → Value
  | some s => .text s
  | none => .nothing

/-- Two texts. -/
def pair (p : String × String) : Value := texts [p.1, p.2]

/-- The value of an attempt, or what went wrong. -/
def ofExcept : Except Fault Value → Value
  | .ok v => v
  | .error f => .failure f

/-- Nothing, or what went wrong. -/
def ofFault : Option Fault → Value
  | some f => .failure f
  | none => .nothing

/-! ### Using values -/

/-- The text of a value, if it is one. -/
def text? : Value → Option String
  | .text s => some s
  | _ => none

/-- The text of a value, empty for any other value. -/
def asText (v : Value) : String := v.text?.getD ""

/-- The number of a value, zero for any other value. -/
def asInt : Value → Int
  | .number n => n
  | .flag true => 1
  | _ => 0

/-- The position that a value is; only whole numbers and flags are positions. -/
def position : Value → Except Fault Int
  | .number n => .ok n
  | .flag b => .ok (if b then 1 else 0)
  | _ => .error .wrongKind

/-- Whether a value is greater than zero; only numbers can be compared with it. -/
def isPositive : Value → Except Fault Bool
  | .number n => .ok (0 < n)
  | .flag b => .ok b
  | .real (.finite negative b) => .ok (!negative && b.mantissa ≠ 0)
  | .real (.infinite negative) => .ok (!negative)
  | .real .undefined => .ok false
  | _ => .error .wrongKind

/-- Whether a value counts as true. -/
def asFlag : Value → Bool
  | .nothing => false
  | .flag b => b
  | .number n => n ≠ 0
  | .real q => !q.isZero
  | .text s => s ≠ ""
  | .list vs => !vs.isEmpty
  | .record fs => !fs.isEmpty
  | .failure _ => true

/-- The entries of a list. -/
def items : Value → List Value
  | .list vs => vs
  | _ => []

/-- The entry of a list at a position, nothing behind its end. -/
def item (v : Value) (n : Nat) : Value := v.items.getD n .nothing

/-- The field of a record, if it has one of that name. -/
def field? (v : Value) (name : String) : Option Value :=
  match v with
  | .record fs => (fs.find? (·.1 = name)).map (·.2)
  | _ => none

/-- The field of a record, nothing where it has none of that name. -/
def field (v : Value) (name : String) : Value := (v.field? name).getD .nothing

/-- The texts of a list. -/
def asTexts (v : Value) : List String := v.items.map asText

/-- The items that a loop over a value runs through: those of a list, the characters of a text, or
the names of the fields of a record. -/
def elements? : Value → Option (List Value)
  | .list vs => some vs
  | .text s => some (s.toList.map fun c => .text c.toString)
  | .record fs => some (fs.map fun f => .text f.1)
  | _ => none

/-- A plain value. -/
def ofScalar : Scalar → Value
  | .nothing => .nothing
  | .flag b => .flag b
  | .number n => .number n
  | .real q => .real q
  | .text s => .text s

/-- The plain value that a value is; lists and records are none. -/
def scalar? : Value → Option Scalar
  | .nothing => some .nothing
  | .flag b => some (.flag b)
  | .number n => some (.number n)
  | .real q => some (.real q)
  | .text s => some (.text s)
  | .list _ | .record _ | .failure _ => none

/-- The key under which a script keeps a thing; lists and records are no keys. -/
def key? (v : Value) : Option Key := v.scalar?.map Scalar.key

end Value

end MplsReach
