/-
The text that explains a command.

* `helpLines`: how a command is used, its options, and the commands below it.
-/
import MplsReach.CommandLine.Command
import MplsReach.Text.Order

namespace MplsReach.CommandLine

/-- The width of a line. -/
def lineWidth : Nat := 78

/-- Words behind a first text, with further lines indented by its length. -/
def wrapWords (indent : Nat) : String → List String → List String
  | line, [] => [line]
  | line, w :: ws =>
    let longer := if line.length = indent then line ++ w else line ++ " " ++ w
    if longer.length ≤ lineWidth || line.length = indent then wrapWords indent longer ws
    else line :: wrapWords indent ("".pushn ' ' indent ++ w) ws

/-- The words behind the name of a command. -/
def usageWords (c : Command) : List String :=
  "[OPTIONS]" :: c.arguments.map (fun a => if a.required then a.name else "[" ++ a.name ++ "]") ++
    (if c.isGroup then ["COMMAND", "[ARGS]..."] else [])

/-- How an option is listed: its names, and the domain of its value. -/
def flagNames (fs : List Flag) : String :=
  let mark := if fs.any fun f => f.effect = .turn false then " / " else ", "
  mark.intercalate (fs.map (·.name)) ++
    (match fs.head?.bind (·.effect.domain?) with
      | some d => " " ++ d.name
      | none => "")

/-- The options of a command with what is said about them. -/
def optionRows (c : Command) : List (String × String) :=
  (Text.distinct (c.flags.map (·.setting))).map fun s =>
    (flagNames (c.flags.filter (·.setting = s)), Command.describe s)

/-- Rows with their second column aligned. -/
def alignRows (rows : List (String × String)) : List String :=
  let width := (rows.map (·.1.length)).foldl max 0 + 2
  rows.map fun (a, b) =>
    if b = "" then "  " ++ a else "  " ++ a ++ "".pushn ' ' (width - a.length) ++ b

/-- The text that explains a command; `path` names it with the commands above it. -/
def helpLines (path : List String) (c : Command) : List String :=
  let front := "Usage: " ++ " ".intercalate path ++ " "
  wrapWords front.length front (usageWords c) ++ ["", "Options:"] ++ alignRows (optionRows c) ++
    (if c.isGroup then
      ["", "Commands:"] ++ (Text.sorted (c.below.map (·.name))).map ("  " ++ ·)
    else [])

end MplsReach.CommandLine
