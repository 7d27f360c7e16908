/-
The commands, their arguments and their options.

* `Domain`: what a value must be.
* `Command`: a command; groups have commands below them.
* `Command.arguments`, `Command.options`, `Command.below`: what a command takes.
-/
import MplsReach.FileTree
import MplsReach.Text.Integer

namespace MplsReach.CommandLine

/-- What a value must be. -/
inductive Domain where
  | text
  | integer
  /-- A number that is not negative. -/
  | natural
  /-- Any path. -/
  | path
  /-- A path at which there is a file or a directory. -/
  | existing
  /-- A path at which there is a directory. -/
  | directory
  /-- A path at which there is a file. -/
  | file
deriving DecidableEq, Repr

namespace Domain

/-- How a domain is called where options are listed. -/
def name : Domain → String
  | text => "TEXT"
  | integer => "INTEGER"
  | natural => "INTEGER RANGE"
  | path | existing => "PATH"
  | directory => "DIRECTORY"
  | file => "FILE"

/-- What stands at a path, if that can be told. -/
def look (t : FileTree) (path : String) : Except Fault (Option FileEntry) :=
  match t.find path with
  | .ok e => .ok (some e)
  | .error .badValue => .error .badValue
  | .error _ => .ok none

/-- Whether a value lies in a domain. -/
def holds (t : FileTree) (value : String) : Domain → Except Fault Bool
  | text => .ok true
  | integer => .ok (Text.readInteger? value).isSome
  | natural => .ok (match Text.readInteger? value with
    | some n => 0 ≤ n
    | none => false)
  | path => do
    let _ ← look t value
    pure true
  | existing => do pure (← look t value).isSome
  | directory => do pure ((← look t value) = some .directory)
  | file => do
    match ← look t value with
    | some (.text _) => pure true
    | _ => pure false

/-- A value must lie in its domain. -/
def check (t : FileTree) (value : String) (d : Domain) : Except Fault Unit := do
  if ← d.holds t value then pure () else .error (.usage .badParameter)

end Domain

/-- A value that is known by its position. -/
structure Argument where
  name : String
  domain : Domain
  default : Option String
  /-- Whether it is listed as one that must be given. -/
  required : Bool
deriving DecidableEq, Repr

/-- What an option does. -/
inductive Effect where
  | value (domain : Domain)
  /-- Every value counts, not only the last one. -/
  | values (domain : Domain)
  | count
  | turn (on : Bool)
  | help
deriving DecidableEq, Repr

/-- The domain of the value that an option takes, if it takes one. -/
def Effect.domain? : Effect → Option Domain
  | .value d | .values d => some d
  | .count | .turn _ | .help => none

/-- What can be set. -/
inductive Setting where
  | config | addresses | depth | verbose | under | checkCycles | output | help
deriving DecidableEq, Repr

/-- A name that starts with a dash. -/
structure Flag where
  setting : Setting
  name : String
  effect : Effect
deriving DecidableEq, Repr

/-- The commands. -/
inductive Command where
  | main
  | dump | xml | nested
  | writeNetwork
  | askText | askFile | askRandom
  | compile
  | writeRules | run
  | runFile
deriving DecidableEq, Repr

namespace Command

/-- The name of a command. -/
def name : Command → String
  | main => "main"
  | dump => "juniper-xml"
  | xml => "xml"
  | nested => "nest-network"
  | writeNetwork => "dump-network"
  | askText => "adv-query"
  | askFile => "adv-file-query"
  | askRandom => "random-query"
  | compile => "compile"
  | writeRules => "dump-pds"
  | run => "run"
  | runFile => "pds"

/-- The two documents of a network. -/
def documents (second : String) (domain : Domain) : List Argument :=
  [⟨"TOPOLOGY", domain, some "./topo.xml", true⟩, ⟨second, domain, some "./routing.xml", true⟩]

/-- A query and the number of links that may fail. -/
def question (query : String) (domain : Domain) : List Argument :=
  [⟨query, domain, none, true⟩, ⟨"MAX_FAILED_LINKS", .natural, none, true⟩]

/-- The arguments of a command. -/
def arguments : Command → List Argument
  | dump => [⟨"ISIS_DIR", .directory, none, true⟩, ⟨"FORWARDING_DIR", .directory, none, true⟩]
  | xml | nested => documents "ROUTES" .existing
  | writeNetwork => documents "ROUTING" .path
  | askText => question "QUERY" .text
  | askFile => question "QUERY_FILE" .text
  | askRandom => question "QUERY_SIZE" .integer
  | runFile => [⟨"PDS_PATH", .existing, some "./dump.pds", false⟩]
  | main | compile | writeRules | run => []

/-- How much is told. -/
def verbosity : List Flag := [⟨.verbose, "-v", .count⟩, ⟨.verbose, "--verbose", .count⟩]

/-- The options of a command, without the one that all have. -/
def ownFlags : Command → List Flag
  | main => [⟨.config, "-c", .value .path⟩, ⟨.config, "--config", .value .path⟩]
  | dump => [⟨.addresses, "-r", .values .file⟩, ⟨.addresses, "--ip-router-maps", .values .file⟩]
  | nested => [⟨.depth, "-n", .value .integer⟩, ⟨.depth, "--nesting-level", .value .integer⟩]
  | compile => verbosity ++ [⟨.under, "--under", .turn true⟩, ⟨.under, "--over", .turn false⟩]
  | writeRules => [⟨.output, "-o", .value .path⟩, ⟨.output, "--dump-path", .value .path⟩]
  | run => verbosity ++
      [⟨.checkCycles, "--enable-cd", .turn true⟩, ⟨.checkCycles, "--disable-cd", .turn false⟩]
  | runFile => verbosity
  | xml | writeNetwork | askText | askFile | askRandom => []

/-- The options of a command. -/
def flags (c : Command) : List Flag := c.ownFlags ++ [⟨.help, "--help", .help⟩]

/-- What is said about a setting. -/
def describe : Setting → String
  | .checkCycles => "Cycle detection"
  | .help => "Show this message and exit."
  | _ => ""

/-- The commands below a command, by name. -/
def below : Command → List Command
  | main => [dump, nested, runFile, xml]
  | dump | xml => [askFile, askText, writeNetwork, askRandom]
  | nested => [writeNetwork]
  | askText | askFile | askRandom => [compile]
  | compile => [writeRules, run]
  | writeNetwork | writeRules | run | runFile => []

/-- Whether a command has commands below it. -/
def isGroup (c : Command) : Bool := !c.below.isEmpty

end Command

end MplsReach.CommandLine
