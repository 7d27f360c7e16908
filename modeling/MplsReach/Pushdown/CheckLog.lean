/-
The log of checking a rule file.

Stray characters of the file come first; a carriage return among them ends a line. Then the stages
are told with their times, the verdict, and if there is a run to the goal, its configurations.

* `LogLine`: a line, or one that tells a time.
* `RuleText.log`: the log for rules and a goal.
* `checkLog`: the log for the text of a file.
* `decideText`: the verdict alone.
* `RuleSystem.decided`: the verdict on a system, from its text where the text may say something
  else.
-/
import MplsReach.Fault
import MplsReach.Pushdown.RuleFile
import MplsReach.Pushdown.RuleGrammar
import MplsReach.Text.Blank
import MplsReach.Text.Lines

namespace MplsReach

/-- A line of a log. -/
inductive LogLine where
  | text (s : String)
  /-- How long a stage took. -/
  | time
deriving DecidableEq, Repr

/-- The two lines for a stage. -/
def stageLines (name : String) : List LogLine :=
  [.text ("Statistics for common resources (" ++ name ++ "):"), .time]

/-- A location with a stack. -/
def configurationLine (location : String) (stack : List String) : LogLine :=
  .text (location ++ " <" ++ " ".intercalate stack ++ ">")

/-- The text of a step, if it has one. -/
def stepLines : Option String → List LogLine
  | some s => if s = "" then [] else [.text ("  [ " ++ s ++ " ]")]
  | none => []

/-- The configurations of a run with the texts of its steps; the last step is that the goal is
reached. -/
def runLines (location : String) (stack : List String) :
    List (Transition String String) → List LogLine
  | [] => configurationLine location stack :: stepLines (some "target reached")
  | t :: run =>
    configurationLine location stack :: stepLines t.text ++
      runLines t.target
        (match stack with
          | [] => []
          | top :: below => t.op.apply top ++ below) run

/-- The log for rules and a goal. -/
def RuleText.log (goal : String × String) (t : RuleText) : List LogLine :=
  [.text "Initial ordering is lg/bit/var/copy.", .text ""] ++
    ["reading", "post*", "pruning", "heads"].flatMap stageLines ++
    (match t.start, t.witness? goal with
      | some (location, top), some run =>
        [.text "YES.", .text "", .text "--- START ---"] ++ runLines location [top] run
      | _, _ => [.text "NO."]) ++
    .text "" :: stageLines "overall" ++ [.text "", .text ""]

/-- A log behind characters that do not end their last line. -/
def logBehind : List String → List LogLine → List LogLine
  | [], log => log
  | [s], .text first :: log => .text (s ++ first) :: log
  | s :: lines, log => .text s :: logBehind lines log

/-- Stray characters as lines. -/
def strayLines (strays : List Char) : List String :=
  Text.cutAt '\n' (String.ofList (Text.unifyNewlines strays))

/-- The log for the text of a file. A text that is none of rules has no verdict. -/
def checkLog (goal : String × String) (text : String) : List LogLine :=
  let (rules, strays) := RuleText.read text
  let lines := strayLines strays
  match rules with
  | some t => logBehind lines (t.log goal)
  | none =>
    lines.map .text ++ [.text "error: syntax error in pushdown system: syntax error", .text ""]

/-- Whether the rules of a text lead to a goal. The verdict is told behind the stray characters, and
it counts on the first line only. -/
def decideText (goal : String × String) (text : String) : Except Fault Bool :=
  match RuleText.read text with
  | (some t, strays) =>
    if (strayLines strays).length ≤ 1 then .ok (t.witness? goal).isSome
    else .error (.refused .noVerdict)
  | (none, _) => .error (.refused .noVerdict)

/-- Whether each remark is one line and all guards hold. The text of such a system says what the
system says. -/
def RuleSystem.isPlain {Loc Sym : Type} (n : Naming Loc Sym) (s : RuleSystem Loc Sym) : Bool :=
  s.guards.all RuleReading.holdsAsGuard && s.hasPlainRemarks n

/-- The verdict on a rule system. -/
def RuleSystem.decided {Loc Sym : Type} [DecidableEq Loc] [DecidableEq Sym] [Hashable Loc]
    [Hashable Sym] (n : Naming Loc Sym) (s : RuleSystem Loc Sym) : Except Fault Bool :=
  if s.isPlain n then .ok s.verdict else decideText (s.headCode s.goal) (s.write n)

end MplsReach
