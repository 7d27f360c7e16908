/-
Sessions in which a rule file is written piece by piece.

A piece that is not a text ends a command, and what was written before it stays.

* `Emission.step`: the commands; the state is what has been written.
-/
import MplsReach.Pushdown.Commentary
import MplsReach.Report.Shown
import MplsReach.Session.Basic
import MplsReach.Text.Lines

namespace MplsReach.Session.Emission

/-- A text is written. -/
def write (s : String) : Step String Unit := modify (· ++ s)

/-- Pieces are written, as far as they are texts. -/
def pieces : List Value → Step String Unit
  | [] => pure ()
  | .text s :: vs => do write s; pieces vs
  | _ :: _ => throw .wrongKind

/-- A piece with fixed texts around it, unless it is missing. -/
def optional (before : List String) (v : Value) (behind : List String) : List Value :=
  match v with
  | .nothing => []
  | v => before.map .text ++ v :: behind.map .text

/-- The lines of a text. -/
def lines : Value → Step String (List String)
  | .text s => pure (Text.splitLines s)
  | _ => throw .missingPart

/-- Remarks, each line behind a number sign. -/
def comment (v : Value) : Step String Unit := do
  match v.elements? with
  | some remarks =>
    for remark in remarks do
      for line in ← lines remark do
        write ("#" ++ line ++ "\n")
  | none => throw .wrongKind

/-- One command. -/
def step (command : Value) : Step String Value := do
  let arg := command.item
  let count := command.items.length - 1
  match (arg 0).asText with
  | "start" =>
    if count ≠ 5 then throw .wrongKind
    pieces [.text "(", arg 2, .text "<", arg 4, .text ">) # --> ", arg 3, .text "<", arg 5,
      .text ">\n"]
  | "trans" =>
    if count < 3 ∨ 7 < count then throw .wrongKind
    pieces ([arg 1, .text "<", arg 2, .text "> --> ", arg 3, .text "<"] ++
      optional [] (arg 4) [] ++ optional [" "] (arg 5) [] ++ [.text ">"] ++
      optional [" ", "\""] (arg 6) ["\""] ++ optional [" "] (arg 7) [] ++ [.text "\n"])
  | "comments" =>
    if count ≠ 1 then throw .wrongKind
    comment (arg 1)
  | "group" =>
    if count ≠ 3 then throw .wrongKind
    if (arg 2).asFlag then
      for line in ← lines (arg 2) do
        write ("# " ++ line ++ "\n")
    write (groupOpening (arg 1).shown ++ "\n")
    comment (arg 3)
    write (groupClosing ++ "\n")
  | _ => pure ()
  pure .nothing

/-- The answers to commands, and what they have written. -/
def report (commands : List Value) : Value :=
  let (answers, written) := run step "" commands
  .record [("steps", .list answers), ("text", .text written)]

end MplsReach.Session.Emission
