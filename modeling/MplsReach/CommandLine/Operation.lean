/-
What a command line asks for.

* `Operation`: one thing to do.
* `Choice`: what was chosen for a command, by setting and by position.
* `Command.operation`: the thing that a command does with what was chosen.
-/
import MplsReach.CommandLine.Command

namespace MplsReach.CommandLine

/-- One thing to do. -/
inductive Operation where
  | loadDump (addresses : List String) (neighbours forwarding : String)
  | loadXml (topology routing : String)
  | loadNested (topology routing : String) (depth : Option Int)
  | writeNetwork (topology routing : String)
  | askText (query : String) (failures : Int)
  | askFile (path : String) (failures : Int)
  | askRandom (size : Int) (failures : Int)
  | compile (under verbose : Bool)
  | writeRules (path : String)
  | run (checkCycles : Bool)
  | runFile (path : String) (verbose : Bool)
deriving DecidableEq, Repr

/-- What was chosen for a command. -/
structure Choice where
  arguments : List String
  flags : List (Flag × String)

namespace Choice

/-- The argument at a position. -/
def argument (c : Choice) (n : Nat) : String := c.arguments.getD n ""

/-- The number at a position. -/
def number (c : Choice) (n : Nat) : Int := (Text.readInteger? (c.argument n)).getD 0

/-- All values for a setting. -/
def values (c : Choice) (s : Setting) : List String :=
  (c.flags.filter (·.1.setting = s)).map (·.2)

/-- The last value for a setting. -/
def value? (c : Choice) (s : Setting) : Option String := (c.values s).getLast?

/-- Whether a setting was given at all. -/
def has (c : Choice) (s : Setting) : Bool := c.flags.any (·.1.setting = s)

/-- Which way a setting was turned last. -/
def turned (c : Choice) (s : Setting) (default : Bool) : Bool :=
  match (c.flags.filter (·.1.setting = s)).getLast? with
  | some (f, _) => f.effect = .turn true
  | none => default

end Choice

/-- What a command does, if it does anything. -/
def Command.operation? (c : Choice) : Command → Option Operation
  | .main => none
  | .dump => some (.loadDump (c.values .addresses) (c.argument 0) (c.argument 1))
  | .xml => some (.loadXml (c.argument 0) (c.argument 1))
  | .nested => some (.loadNested (c.argument 0) (c.argument 1)
      ((c.value? .depth).bind Text.readInteger?))
  | .writeNetwork => some (.writeNetwork (c.argument 0) (c.argument 1))
  | .askText => some (.askText (c.argument 0) (c.number 1))
  | .askFile => some (.askFile (c.argument 0) (c.number 1))
  | .askRandom => some (.askRandom (c.number 0) (c.number 1))
  | .compile => some (.compile (c.turned .under false) (c.has .verbose))
  | .writeRules => some (.writeRules ((c.value? .output).getD "./dump.pds"))
  | .run => some (.run (c.turned .checkCycles true))
  | .runFile => some (.runFile (c.argument 0) (c.has .verbose))

end MplsReach.CommandLine
