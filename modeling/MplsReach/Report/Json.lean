/-
Values as texts, in the notation in which requests and answers are exchanged.

Lists stand in square brackets and records in braces. A number with a point or an exponent is a
binary number, every other number is whole. Fields keep the order in which they are written, and of
two fields of one name the later value stands in the place of the earlier one.

* `Json.read?`: the value of a text, if the text is exactly one value.
* `Json.write`: the text of a value without faults; a fault is written as the record that stands for
  it.
-/
import MplsReach.Dictionary
import MplsReach.Report.Value

namespace MplsReach.Json

/-! ### Characters -/

/-- The characters that may stand between the parts of a value. -/
def isBlank (c : Char) : Bool := c = ' ' || c = '\n' || c = '\t' || c = '\r'

/-- The rest behind blank characters. -/
def skipBlanks (cs : List Char) : List Char := cs.dropWhile isBlank

/-- The value of a hexadecimal digit. -/
def hexDigit? (c : Char) : Option Nat :=
  if '0' ≤ c ∧ c ≤ '9' then some (c.toNat - 48)
  else if 'a' ≤ c ∧ c ≤ 'f' then some (c.toNat - 87)
  else if 'A' ≤ c ∧ c ≤ 'F' then some (c.toNat - 55)
  else none

/-- The number of four hexadecimal digits. -/
def unit? (a b c d : Char) : Option Nat := do
  pure (((← hexDigit? a) * 16 + (← hexDigit? b)) * 256 + (← hexDigit? c) * 16 + (← hexDigit? d))

/-- What a character behind a backslash stands for. -/
def escaped? : Char → Option Char
  | '"' => some '"'
  | '\\' => some '\\'
  | '/' => some '/'
  | 'b' => some '\x08'
  | 'f' => some '\x0c'
  | 'n' => some '\n'
  | 'r' => some '\r'
  | 't' => some '\t'
  | _ => none

/-! ### Texts -/

/-- The characters of a text up to its closing quote, with their escapes, and the rest. -/
def takeQuoted (taken : List Char) : List Char → Option (List Char × List Char)
  | [] => none
  | '"' :: cs => some (taken.reverse, cs)
  | '\\' :: c :: cs => takeQuoted (c :: '\\' :: taken) cs
  | c :: cs => takeQuoted (c :: taken) cs

/-- The code units that characters with escapes stand for. -/
def units? (made : List Nat) : List Char → Option (List Nat)
  | [] => some made.reverse
  | '\\' :: 'u' :: a :: b :: c :: d :: cs => do units? ((← unit? a b c d) :: made) cs
  | '\\' :: c :: cs => do units? ((← escaped? c).toNat :: made) cs
  | c :: cs => units? (c.toNat :: made) cs

/-- The character of a code unit; half of a pair stands for none. -/
def ofUnit (u : Nat) : Char := if 0xD800 ≤ u ∧ u < 0xE000 then Char.ofNat 0xFFFD else Char.ofNat u

/-- The characters of code units, where two halves of a pair are one character. -/
def joinPairs (made : List Char) : List Nat → List Char
  | [] => made.reverse
  | [u] => (ofUnit u :: made).reverse
  | u :: v :: us =>
    if 0xD800 ≤ u ∧ u < 0xDC00 ∧ 0xDC00 ≤ v ∧ v < 0xE000 then
      joinPairs (Char.ofNat (0x10000 + (u - 0xD800) * 0x400 + (v - 0xDC00)) :: made) us
    else joinPairs (ofUnit u :: made) (v :: us)

/-- The text behind an opening quote, and the rest. -/
def readText? (cs : List Char) : Option (String × List Char) := do
  let (raw, rest) ← takeQuoted [] cs
  pure (String.ofList (joinPairs [] (← units? [] raw)), rest)

/-! ### Reading -/

/-- The characters of numbers and names. -/
def isPlain (c : Char) : Bool := c.isAlphanum || c = '+' || c = '-' || c = '.'

/-- The value of a number or a name. -/
def readPlain? (cs : List Char) : Option Value :=
  match String.ofList cs with
  | "null" => some .nothing
  | "true" => some (.flag true)
  | "false" => some (.flag false)
  | "NaN" => some (.real .undefined)
  | "Infinity" => some (.real (.infinite false))
  | "-Infinity" => some (.real (.infinite true))
  | s =>
    if cs.any fun c => c = '.' || c = 'e' || c = 'E' then (Number.Quantity.read? s).map .real
    else s.toInt?.map .number

mutual

/-- The value at the front of a text, and the rest; `fuel` bounds the number of parts. -/
def readValue? : Nat → List Char → Option (Value × List Char)
  | 0, _ => none
  | fuel + 1, cs =>
    match skipBlanks cs with
    | '"' :: cs => do
      let (s, rest) ← readText? cs
      pure (.text s, rest)
    | '[' :: cs =>
      match skipBlanks cs with
      | ']' :: rest => some (.list [], rest)
      | cs => do
        let (vs, rest) ← readItems? fuel cs
        pure (.list vs, rest)
    | '\x7b' :: cs =>
      match skipBlanks cs with
      | '\x7d' :: rest => some (.record [], rest)
      | cs => do
        let (fs, rest) ← readFields? fuel [] cs
        pure (.record fs, rest)
    | cs => do
      let (plain, rest) := cs.span isPlain
      pure (← readPlain? plain, rest)

/-- The items of a list up to its closing bracket. -/
def readItems? : Nat → List Char → Option (List Value × List Char)
  | 0, _ => none
  | fuel + 1, cs => do
    let (v, rest) ← readValue? fuel cs
    match skipBlanks rest with
    | ',' :: rest => do
      let (vs, rest) ← readItems? fuel rest
      pure (v :: vs, rest)
    | ']' :: rest => pure ([v], rest)
    | _ => none

/-- The fields of a record up to its closing brace, behind those that were read. -/
def readFields? :
    Nat → List (String × Value) → List Char → Option (List (String × Value) × List Char)
  | 0, _, _ => none
  | fuel + 1, fields, cs =>
    match skipBlanks cs with
    | '"' :: cs => do
      let (name, rest) ← readText? cs
      match skipBlanks rest with
      | ':' :: rest =>
        let (v, rest) ← readValue? fuel rest
        let fields := Dictionary.put Prod.fst (name, v) fields
        match skipBlanks rest with
        | ',' :: rest => readFields? fuel fields rest
        | '\x7d' :: rest => pure (fields, rest)
        | _ => none
      | _ => none
    | _ => none

end

/-- The value of a text. -/
def read? (s : String) : Option Value := do
  let (v, rest) ← readValue? (s.length + 1) s.toList
  if (skipBlanks rest).isEmpty then pure v else none

/-! ### Writing -/

/-- A character inside of quotes. -/
def escape (c : Char) : List Char :=
  if c = '"' ∨ c = '\\' then ['\\', c]
  else if c.toNat < 32 then
    ['\\', 'u', '0', '0', Nat.digitChar (c.toNat / 16), Nat.digitChar (c.toNat % 16)]
  else [c]

/-- A text in quotes. -/
def quote (s : String) : String := "\"" ++ String.ofList (s.toList.flatMap escape) ++ "\""

/-- A binary number. -/
def writeReal : Number.Quantity → String
  | .infinite negative => if negative then "-Infinity" else "Infinity"
  | .undefined => "NaN"
  | q => q.write

mutual

/-- The text of a value; `fault` tells which fields stand for a fault. -/
def write (fault : Fault → List (String × String)) : Value → String
  | .nothing => "null"
  | .flag b => if b then "true" else "false"
  | .number n => toString n
  | .real q => writeReal q
  | .text s => quote s
  | .list vs => "[" ++ ",".intercalate (writeAll fault vs) ++ "]"
  | .record fs => "\x7b" ++ ",".intercalate (writeFields fault fs) ++ "\x7d"
  | .failure f =>
    "\x7b" ++ ",".intercalate ((fault f).map fun p => quote p.1 ++ ":" ++ quote p.2) ++ "\x7d"

/-- The texts of several values. -/
def writeAll (fault : Fault → List (String × String)) : List Value → List String
  | [] => []
  | v :: vs => write fault v :: writeAll fault vs

/-- The texts of several fields. -/
def writeFields (fault : Fault → List (String × String)) : List (String × Value) → List String
  | [] => []
  | (n, v) :: fs => (quote n ++ ":" ++ write fault v) :: writeFields fault fs

end

end MplsReach.Json
