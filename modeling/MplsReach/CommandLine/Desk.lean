/-
Doing what a command line asks for.

* `Event`: a line of output, or a measurement that the caller completes.
* `Desk`: the files, and what the operations so far have led to.
* `Desk.perform`: one operation. A fault ends it, and what it did before stays.
* `Desk.performAll`: operations up to the first fault.
-/
import MplsReach.Analysis.Cycle
import MplsReach.CommandLine.Operation
import MplsReach.Dump.Conversion
import MplsReach.Dump.Reader
import MplsReach.FileTree
import MplsReach.Forwarding.Over
import MplsReach.Forwarding.Under
import MplsReach.Network.Nesting
import MplsReach.Network.Reader
import MplsReach.Network.Writer
import MplsReach.Pushdown.CheckLog
import MplsReach.Pushdown.RuleFile
import MplsReach.Pushdown.Verdict
import MplsReach.Pushdown.Witness
import MplsReach.Query.Parser

namespace MplsReach.CommandLine

/-- A piece of output. -/
inductive Event where
  | line (text : String)
  /-- How long the operation has taken so far. -/
  | elapsed (title : String)
  /-- How long a stage of the operation has taken. -/
  | stage
  /-- How many of something were dealt with in that time. -/
  | rate (title : String) (amount : Nat)
deriving DecidableEq, Repr

/-- The text of a query, or the path at which it is found. -/
inductive QuerySource where
  | text (s : String)
  | file (path : String)
deriving DecidableEq, Repr

/-- A query with the labels that it may name, and the number of links that may fail. -/
structure Question where
  source : QuerySource
  labels : List Label
  failures : Int

/-- The rules that answer a question, for either kind of forwarding. -/
inductive Compiled where
  | over (rules : RuleSystem (Place Unit) StackSymbol)
  | under (rules : RuleSystem (Place Nat) StackSymbol)

/-- What is at hand. -/
structure Desk where
  files : FileTree
  output : List Event
  network : Option Network
  question : Option Question
  compiled : Option Compiled

/-- Work at the desk. -/
abbrev Work := ExceptT Fault (StateM Desk)

namespace Desk

/-- Files and nothing else. -/
def ofFiles (files : FileTree) : Desk := ⟨files, [], none, none, none⟩

/-- The outcome of an attempt. -/
def attempt {α : Type} (x : Except Fault α) : Work α :=
  match x with
  | .ok a => pure a
  | .error f => throw f

/-- Output. -/
def tell (es : List Event) : Work Unit := modify fun d => { d with output := d.output ++ es }

/-- What must be at hand. -/
def require {α : Type} (x : Option α) : Work α :=
  match x with
  | some a => pure a
  | none => throw .missingPart

/-- A network is at hand, or the reason why there is none is told. -/
def load (x : Except Fault Network) : Work Unit := do
  match x with
  | .ok n => modify fun d => { d with network := some n }
  | .error f =>
    tell (f.notice.toList.map .line)
    throw f

/-- The text of a file. -/
def text (path : String) : Work String := do attempt ((← get).files.text path)

/-- A file gets a text. -/
def write (path text : String) : Work Unit := do
  let files ← attempt ((← get).files.write path text)
  modify fun d => { d with files := files }

/-- The files of a directory. -/
def filesOf (path : String) : Work (List Dump.File) := do
  let texts ← attempt ((← get).files.texts path)
  pure (texts.map fun (name, text) => ⟨name, text⟩)

/-- The text of a document. A directory holds nothing that could be one. -/
def documentText (t : FileTree) (path : String) : Except Fault String :=
  match t.text path with
  | .ok s => .ok s
  | .error .isDirectory => .error .malformedXml
  | .error _ => .error .unreadable

/-- The network of two documents; the topology is read before the routing is looked for. -/
def readNetwork (t : FileTree) (topology routing : String) : Except Fault Network := do
  let (routers, links) ← readTopology (← documentText t topology)
  let tables ← readRouting routers (← documentText t routing)
  pure ⟨routers, links, tables⟩

/-- The characters behind a number of bytes; one that they cut is left out. -/
def dropBytes : Nat → List Char → List Char
  | _, [] => []
  | n, c :: cs => if n = 0 then c :: cs else dropBytes (n - c.utf8Size) cs

/-- A text written over the beginning of another one. -/
def overlay (new old : String) : String :=
  new ++ String.ofList (dropBytes new.utf8ByteSize old.toList)

/-- How many bytes are kept back before they are written. -/
def keptBack : Nat := 8192

/-- The text of a file that is opened twice, for what is written to it through each opening. The
second opening is closed first, so a first text that was kept back comes last. -/
def writtenTwice (first second : String) : String :=
  if first.utf8ByteSize < keptBack then overlay first second else overlay second first

/-- Two files get their texts. -/
def writeBoth (first second : String × String) : Work Unit := do
  let files := (← get).files
  if (← attempt (files.writable first.1)) = (← attempt (files.writable second.1)) then
    write first.1 (writtenTwice first.2 second.2)
  else
    write first.1 first.2
    write second.1 second.2

/-- A query is at hand. -/
def ask (source : QuerySource) (failures : Int) : Work Unit := do
  let n ← require (← get).network
  let labels ← attempt n.labels
  modify fun d => { d with question := some ⟨source, labels, failures⟩ }

/-- A query that passes as many routers as given, with anything in between. Every router may be
any; here it is the first one. -/
def randomQuery (n : Network) (size : Int) : Except Fault String := do
  let names ← (List.range size.toNat).mapM fun _ =>
    match n.routers with
    | r :: _ => .ok r.name
    | [] => .error .outOfRange
  let names ← names.mapM fun
    | some s => .ok s
    | none => .error .wrongKind
  pure ("<.*>" ++ " .* ".intercalate names ++ "<.*>")

/-- The query of a question. -/
def query (q : Question) : Work Query := do
  match q.source with
  | .text s => attempt (Query.read s)
  | .file path =>
    let s ← text (plainPath path)
    attempt (Query.read (String.ofList (Text.unifyNewlines s.toList)))

/-- How much of a bound is spent, as it is written. -/
def spentUnder (spent : Nat) : List String := [toString spent]

/-- Where nothing is counted, nothing is written. -/
def spentOver (_ : Unit) : List String := []

/-- The rules that answer the question about the network. -/
def compile (under verbose : Bool) : Work Unit := do
  let n ← require (← get).network
  let q ← require (← get).question
  tell [.line ("Under is " ++ (if under then "True" else "False"))]
  let (compiled, size) ←
    if under then do
      let p ← attempt (n.underForwarding q.failures)
      let s ← attempt (compileFor verbose spentUnder (← query q) q.labels p)
      pure (Compiled.under s, s.size)
    else do
      let p ← attempt (n.overForwarding q.failures)
      let s ← attempt (compileFor verbose spentOver (← query q) q.labels p)
      pure (Compiled.over s, s.size)
  modify fun d => { d with network := none, question := none, compiled := some compiled }
  tell [.elapsed "Compiling", .line ("Size: " ++ toString size), .rate "Transitions/s" size]

/-- The verdict and, if it is positive, the steps of a run. A run that passes a router twice does
not count where that is to be checked. -/
def answerLines {Spent : Type} [DecidableEq Spent] [Hashable Spent]
    (spent : Spent → List String) (check : Bool) (s : RuleSystem (Place Spent) StackSymbol) :
    Except Fault (List Event) := do
  match ← s.decided (placeNaming spent), s.witness? with
  | true, some run =>
    if check && repeatsRouter (endpointsOf run) then pure [.line "NO"]
    else pure (.line "YES" :: run.map fun t => .line (t.printed (placeNaming spent)))
  | _, _ => pure [.line "NO"]

/-- Whether the compiled rules lead to their goal. -/
def run (checkCycles : Bool) : Work Unit := do
  let (size, lines) ← match ← require (← get).compiled with
    | .over s => pure (s.size, ← attempt (answerLines spentOver false s))
    | .under s => pure (s.size, ← attempt (answerLines spentUnder checkCycles s))
  tell ([.elapsed "Verifying", .rate "Transitions/s" size] ++ lines)

/-- The goal of rules that are read from a file. -/
def fileGoal : String × String := ("complete", "e")

/-- A line of a log as output. -/
def logEvent : LogLine → Event
  | .text s => .line s
  | .time => .stage

/-- Whether rules that are read from a file lead to their goal, from the log of checking them. -/
def runFile (path : String) (verbose : Bool) : Work Unit := do
  match (← get).files.text path with
  | .error _ => pure ()
  | .ok text => tell ((verdictLines verbose (checkLog fileGoal text)).map logEvent)

/-- One operation. -/
def perform : Operation → Work Unit
  | .loadDump addresses neighbours forwarding => do
    let texts ← addresses.mapM text
    let map := texts.foldl (fun m s => Dictionary.putAll Prod.fst m (Dump.readAddresses s)) []
    let neighbours ← filesOf neighbours
    let forwarding ← filesOf forwarding
    load (do (← Dump.collect map neighbours forwarding).toNetwork)
    tell [.elapsed "Loading"]
  | .loadXml topology routing => do
    load (readNetwork (← get).files topology routing)
    tell [.elapsed "Loading"]
  | .loadNested topology routing depth => do
    let files := (← get).files
    load (do
      let n ← readNetwork files topology routing
      n.nestTo ((depth.map .number).getD .nothing))
  | .writeNetwork topology routing => do
    let n ← require (← get).network
    write topology ""
    write routing ""
    let (t, r) ← attempt n.writePretty
    writeBoth (topology, t) (routing, r)
  | .askText query failures => ask (.text query) failures
  | .askFile path failures => ask (.file path) failures
  | .askRandom size failures => do
    let n ← require (← get).network
    let s ← attempt (randomQuery n size)
    ask (.text s) failures
  | .compile under verbose => compile under verbose
  | .writeRules path => do
    let text ← match ← require (← get).compiled with
      | .over s => pure (s.write (placeNaming spentOver))
      | .under s => pure (s.write (placeNaming spentUnder))
    write path text
  | .run checkCycles => run checkCycles
  | .runFile path verbose => runFile path verbose

/-- Operations up to the first fault. -/
def performAll (d : Desk) : List Operation → Desk × Option Fault
  | [] => (d, none)
  | op :: ops =>
    match (perform op).run.run d with
    | (.ok (), d) => performAll d ops
    | (.error f, d) => (d, some f)

end Desk

end MplsReach.CommandLine
