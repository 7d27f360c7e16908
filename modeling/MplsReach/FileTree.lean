/-
Texts and directories by their places, and the paths that lead to them.

A place is the list of the names on the way from the root. A path starts at the root or at the place
where one is; on the way a dot stays and two dots go back. Every step needs a directory to start
from.

* `Trail`: a path taken apart.
* `FileTree.locate`: the place that a path leads to; nothing has to be there.
* `FileTree.find`, `FileTree.text`: what stands at a path.
* `FileTree.write`, `FileTree.writeAll`, `FileTree.ensureDirectory`: changes.
-/
import MplsReach.Dictionary
import MplsReach.Fault
import MplsReach.Text.Blank

namespace MplsReach

/-! ### Paths -/

/-- A path taken apart. -/
structure Trail where
  fromRoot : Bool
  names : List String
  /-- Whether it ends in a slash, so that only a directory can be meant. -/
  closed : Bool
deriving DecidableEq, Repr

/-- The path that a text denotes. The empty text denotes none, and no name holds a null. -/
def Trail.read (path : String) : Except Fault Trail :=
  if path.toList.contains '\x00' then .error .badValue
  else if path.isEmpty then .error .noSuchFile
  else .ok
    { fromRoot := path.toList.head? = some '/'
      names := (Text.cutAt '/' path).filter (· ≠ "")
      closed := path.toList.getLast? = some '/' }

/-- A path without the steps that lead nowhere; the path to where one is is a dot. -/
def plainPath (path : String) : String :=
  let parts := (Text.cutAt '/' path).filter fun p => p ≠ "" && p ≠ "."
  let root := if path.startsWith "//" && !path.startsWith "///" then "//"
    else if path.startsWith "/" then "/" else ""
  let plain := root ++ "/".intercalate parts
  if plain = "" then "." else plain

/-! ### Trees -/

/-- What stands at a place. -/
inductive FileEntry where
  | text (s : String)
  | directory
deriving DecidableEq, Repr

/-- Texts and directories by place, in the order in which they were made. -/
structure FileTree where
  entries : List (List String × FileEntry)
  /-- The place from which paths lead on that do not start at the root. -/
  home : List String
deriving DecidableEq, Repr

namespace FileTree

/-- The longest name, in bytes. -/
def longestName : Nat := 255

/-- What stands at a place; the root is a directory. -/
def entry? (t : FileTree) (place : List String) : Option FileEntry :=
  if place = [] then some .directory
  else (Dictionary.get? Prod.fst place t.entries).map (·.2)

/-- Something put at a place. -/
def put (t : FileTree) (place : List String) (e : FileEntry) : FileTree :=
  { t with entries := Dictionary.put Prod.fst (place, e) t.entries }

/-- One step from a place. -/
def step (t : FileTree) (place : List String) (name : String) : Except Fault (List String) :=
  match t.entry? place with
  | none => .error .noSuchFile
  | some (.text _) => .error .notDirectory
  | some .directory =>
    if name = "." then .ok place
    else if name = ".." then .ok place.dropLast
    else if name.utf8ByteSize > longestName then .error .nameTooLong
    else .ok (place ++ [name])

/-- The place that a path leads to. -/
def locate (t : FileTree) (p : Trail) : Except Fault (List String) :=
  p.names.foldlM t.step (if p.fromRoot then [] else t.home)

/-- What stands at a path. -/
def find (t : FileTree) (path : String) : Except Fault FileEntry := do
  let p ← Trail.read path
  match t.entry? (← t.locate p), p.closed with
  | none, _ => .error .noSuchFile
  | some (.text _), true => .error .notDirectory
  | some e, _ => .ok e

/-- Whether anything stands at a path. -/
def has (t : FileTree) (path : String) : Bool := (t.find path).isOk

/-- The text at a path. -/
def text (t : FileTree) (path : String) : Except Fault String := do
  match ← t.find path with
  | .text s => .ok s
  | .directory => .error .isDirectory

/-- The texts right below a directory, by name. -/
def texts (t : FileTree) (path : String) : Except Fault (List (String × String)) := do
  let place ← t.locate (← Trail.read path)
  pure (t.entries.filterMap fun (p, e) =>
    match e, p.getLast? with
    | .text s, some name => if p.dropLast = place then some (name, s) else none
    | _, _ => none)

/-- The place at a path where a text can be written. -/
def writable (t : FileTree) (path : String) : Except Fault (List String) := do
  let p ← Trail.read path
  let place ← t.locate p
  match t.entry? place, p.closed with
  | some .directory, _ => .error .isDirectory
  | some (.text _), true => .error .notDirectory
  | none, true => .error .isDirectory
  | _, false => .ok place

/-- A text written at a path. -/
def write (t : FileTree) (path text : String) : Except Fault FileTree := do
  pure (t.put (← t.writable path) (.text text))

/-! ### Directories -/

/-- A directory made at a path where there is nothing. -/
def makeDirectory (t : FileTree) (p : Trail) : Except Fault FileTree := do
  let place ← t.locate p
  match t.entry? place with
  | some _ => .error .alreadyThere
  | none => .ok (t.put place .directory)

/-- Whether anything stands at the end of some names. -/
def hasNames (t : FileTree) (fromRoot : Bool) (names : List String) : Bool :=
  match t.locate ⟨fromRoot, names, false⟩ with
  | .ok place => (t.entry? place).isSome
  | .error _ => false

/-- A directory made together with those that are missing on the way to it; the names come last
first. What was made before a fault stays. -/
def makeWay (t : FileTree) (fromRoot : Bool) : List String → FileTree × Option Fault
  | [] => (t, some .alreadyThere)
  | name :: front =>
    let (t, fault) := if front = [] || t.hasNames fromRoot front.reverse then (t, none)
      else t.makeWay fromRoot front
    match fault with
    | none | some .alreadyThere =>
      match t.makeDirectory ⟨fromRoot, front.reverse ++ [name], false⟩ with
      | .ok t => (t, none)
      | .error f => (t, some f)
    | some f => (t, some f)

/-- A directory made at a path, together with those that are missing on the way to it. -/
def makeDirectories (t : FileTree) (path : String) : FileTree × Option Fault :=
  match Trail.read path with
  | .ok p => t.makeWay p.fromRoot p.names.reverse
  | .error f => (t, some f)

/-- A directory that is to be there. -/
def ensureDirectory (t : FileTree) (path : String) : FileTree × Option Fault :=
  if t.has path then (t, none) else t.makeDirectories path

/-- Texts written at their paths, up to the first fault. -/
def writeAll (t : FileTree) : List (String × String) → FileTree × Option Fault
  | [] => (t, none)
  | (path, text) :: files =>
    match t.write path text with
    | .ok t => t.writeAll files
    | .error f => (t, some f)

end FileTree

end MplsReach
