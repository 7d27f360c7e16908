/-
The output of a reachability checker.

* `saysReachable`: the verdict, which the first line gives.
* `traceText?`: the text of a transition that a line gives in square brackets.
* `readTrace`, `readVerdict`: the transitions of the trace, and the verdict with them.
* `verdictLines`: the lines of a full output that are told.
-/
import MplsReach.Fault
import MplsReach.Text.Blank
import MplsReach.Text.WordCharacter

namespace MplsReach

/-- Whether a text occurs in another. -/
def occursIn (part : List Char) : List Char → Bool
  | [] => part.isEmpty
  | c :: cs => part.isPrefixOf (c :: cs) || occursIn part cs

/-- The verdict that a line gives. -/
def saysReachable (line : String) : Except Fault Bool :=
  if occursIn "YES".toList line.toList then .ok true
  else if occursIn "NO".toList line.toList then .ok false
  else .error (.refused .noVerdict)

/-- The text of a transition at the start of a line. -/
def traceText? (line : String) : Option String :=
  match Text.stripBy Text.isBlank line.toList with
  | '[' :: cs =>
    let cs := cs.dropWhile Text.isBlank
    let word := cs.takeWhile Text.isWordCharacter
    match (cs.dropWhile Text.isWordCharacter).dropWhile Text.isBlank with
    | ']' :: _ => if word.isEmpty then none else some (String.ofList word)
    | _ => none
  | _ => none

/-- The transition with a text; of several the last. -/
def transitionOf {τ : Type} (index : List (τ × String)) (text : String) : Except Fault τ :=
  match index.reverse.find? (·.2 = text) with
  | some (t, _) => .ok t
  | none => .error (.unknownName (some text))

/-- The transitions of a trace, by an index of their texts. -/
def readTrace {τ : Type} (index : List (τ × String)) (lines : List String) :
    Except Fault (List τ) :=
  (lines.filterMap traceText?).mapM (transitionOf index)

/-- The verdict of an output and the transitions of its trace, by an index of their texts. -/
def readVerdict {τ : Type} (index : List (τ × String)) (lines : List String) :
    Except Fault (Bool × List τ) := do
  match lines with
  | [] => throw .outOfRange
  | line :: _ => pure (← saysReachable line, ← readTrace index lines)

/-- The lines of an output that are told: the one with the verdict, and if wanted the rest. -/
def verdictLines {α : Type} (verbose : Bool) (lines : List α) : List α :=
  if verbose then lines.drop 10 else (lines.drop 10).take 1

end MplsReach
