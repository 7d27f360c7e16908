/-
The command line.

The files that the command line may refer to are read first; then every operation is performed in
turn, its output is printed and the files that it changed are written.
-/
import MplsReach.CommandLine.Desk
import MplsReach.CommandLine.Reading

namespace MplsReach.CommandLine

/-! ### Measurements -/

/-- A number of the smallest parts that some decimal places show. -/
def decimal (places n : Nat) : String :=
  let whole := Nat.pow 10 places
  let rest := toString (n % whole)
  toString (n / whole) ++ "." ++ String.ofList (List.replicate (places - rest.length) '0') ++ rest

/-- A piece of output after some milliseconds. -/
def Event.write (milliseconds : Nat) : Event → String
  | .line s => s
  | .elapsed title => title ++ ": " ++ decimal 3 milliseconds ++ "s"
  | .stage => "  - Time   : " ++ decimal 2 (milliseconds / 10) ++ " seconds"
  | .rate title amount =>
    title ++ ": " ++ decimal 3 (amount * 1000000 / max 1 milliseconds) ++ " t/s"

/-! ### Files -/

/-- The words of a command line that may be paths, also behind an equality sign, and the paths that
are taken where none is given. -/
def pathsOf (words : List String) : List String :=
  ["config.yml", "topo.xml", "routing.xml", "dump.pds"] ++
    words.flatMap fun w => w :: (w.splitOn "=").drop 1

/-- A place as a path. -/
def pathOf (place : List String) : String := "/" ++ "/".intercalate place

/-- The text at a path, if there is one. -/
def readText? (path : String) : IO (Option String) := do
  try pure (some (← IO.FS.readFile path))
  catch _ => pure none

/-- The names below a directory; nothing if it is none. -/
def readNames? (path : String) : IO (Option (List String)) := do
  let place := (← IO.currentDir) / path
  if ← place.isDir then pure (some ((← place.readDir).toList.map (·.fileName)))
  else pure none

/-- What stands at a place, added to a tree. -/
def readPlace (t : FileTree) (place : List String) : IO FileTree := do
  if (← readNames? (pathOf place)).isSome then pure (t.put place .directory)
  else
    match ← readText? (pathOf place) with
    | some s => pure (t.put place (.text s))
    | none => pure t

/-- What stands on the way along some names, added to a tree. -/
def readWay (t : FileTree) (place : List String) : List String → IO FileTree
  | [] => do
    let names := (← readNames? (pathOf place)).getD []
    names.foldlM (fun t name => readPlace t (place ++ [name])) t
  | name :: names => do
    match t.step place name with
    | .ok next => readWay (← readPlace t next) next names
    | .error _ => pure t

/-- What stands on the way along some paths, from the place where one is. -/
def readTree (paths : List String) : IO FileTree := do
  let home := (Text.cutAt '/' (← IO.currentDir).toString).filter (· ≠ "")
  let t : FileTree := ⟨(List.range home.length).map fun n => (home.take (n + 1), .directory), home⟩
  paths.foldlM (fun t path =>
    match Trail.read path with
    | .ok p => readWay t (if p.fromRoot then [] else home) p.names
    | .error _ => pure t) t

/-- The texts that differ are written. -/
def writeChanged (before after : FileTree) : IO Unit := do
  for (place, e) in after.entries do
    match e with
    | .text s => if before.entry? place ≠ some e then IO.FS.writeFile (pathOf place) s
    | .directory => pure ()

/-! ### Operations -/

/-- Operations in turn, with their output, up to the first fault. -/
def performPrinting (d : Desk) : List Operation → IO UInt32
  | [] => pure 0
  | op :: ops => do
    let begun ← IO.monoMsNow
    let (next, fault) := Desk.performAll { d with output := [] } [op]
    let spent := (← IO.monoMsNow) - begun
    for e in next.output do
      IO.println (e.write spent)
    writeChanged d.files next.files
    match fault with
    | none => performPrinting next ops
    | some f =>
      IO.eprintln ("Error: " ++ f.message.getD "the operation failed")
      pure 1

end MplsReach.CommandLine

open MplsReach.CommandLine in
/-- The command line. -/
def main (words : List String) : IO UInt32 := do
  let files ← readTree (pathsOf words)
  let r := read files "mplsreach" words
  for line in r.printed do
    IO.println line
  match r.outcome with
  | .error (.usage _) =>
    IO.eprintln "Error: the command line is not understood; see --help"
    pure 2
  | .error f =>
    IO.eprintln ("Error: " ++ f.message.getD "the command line cannot be followed")
    pure 1
  | .ok (.explain lines) =>
    for line in lines do
      IO.println line
    pure 0
  | .ok (.perform ops) => performPrinting (.ofFiles files) ops
