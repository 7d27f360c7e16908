/-
Sessions in which a text is changed in place.

* `Buffering.ofValue`: the characters of a value.
* `Buffering.step`: the commands.
-/
import MplsReach.Report.Shown
import MplsReach.Session.Basic
import MplsReach.Text.Buffer

namespace MplsReach.Session.Buffering

/-- The characters of a value; a missing value has none. -/
def ofValue : Value → List Char
  | .nothing => []
  | v => v.shown.toList

/-- The single character of a text. -/
def character : Value → Step (List Char) Char
  | .text s =>
    match s.toList with
    | [c] => pure c
    | _ => throw (.refused .notOneCharacter)
  | _ => throw (.refused .notOneCharacter)

/-- A position. -/
def position (v : Value) : Step (List Char) Int := attempt v.position

/-- A position that may be missing. -/
def optionalPosition : Value → Step (List Char) (Option Int)
  | .nothing => pure none
  | v => do pure (some (← position v))

/-- A part that has to be there. -/
def present {α : Type} : Option α → Step (List Char) α
  | some a => pure a
  | none => throw .outOfRange

/-- The characters of a buffer as a text. -/
def text (cs : List Char) : Value := .text (String.ofList cs)

/-- One command. -/
def step (command : Value) : Step (List Char) Value := do
  let arg := command.item
  match (arg 0).asText with
  | "append" => change (· ++ (arg 1).shown.toList)
  | "at" | "get" => pure (text [← present (Text.at? (← get) (← position (arg 1)))])
  | "set" =>
    let c ← character (arg 2)
    let i ← position (arg 1)
    set (← present (Text.setAt? (← get) i c))
    pure .nothing
  | "len" => pure (.nat (← get).length)
  | "sub" | "slice" =>
    let a ← optionalPosition (arg 1)
    let b ← optionalPosition (arg 2)
    pure (text (Text.slice (← get) a b))
  | "reverse" => change List.reverse
  | "has" => pure (.flag ((← get).contains (← character (arg 1))))
  | "contains" =>
    let _ ← character (arg 1)
    pure .nothing
  | "clear" => change fun _ => []
  | "str" => pure (text (← get))
  | "repr" => pure (text ('\x27' :: (← get) ++ ['\x27']))
  | "eq" => pure (.flag ((← get) == ofValue (arg 1)))
  | "ne" => pure (.flag ((← get) != ofValue (arg 1)))
  | "eq_raw" => pure (.flag false)
  | "ne_raw" => pure (.flag true)
  | "iter" => throw .wrongKind
  | _ => pure .nothing

end MplsReach.Session.Buffering
