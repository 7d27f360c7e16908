/-
Reports on the output of a reachability checker.

* `verdictReport`: the verdict and the transitions of the trace.
* `toldLines`: the lines of an output that are told, and what stops the telling.
-/
import MplsReach.Dictionary
import MplsReach.Pushdown.Verdict
import MplsReach.Report.Shown

namespace MplsReach

/-- Whether a line holds a word: as a part if it is a text, as an entry or the name of a field
otherwise. -/
def holdsWord (word : String) : Value → Except Fault Bool
  | .text s => .ok (occursIn word.toList s.toList)
  | .list vs => .ok (vs.any (·.text? = some word))
  | .record fs => .ok (fs.any (·.1 = word))
  | _ => .error .wrongKind

/-- The verdict that a line gives. -/
def verdictOf (line : Value) : Except Fault Bool := do
  if ← holdsWord "YES" line then pure true
  else if ← holdsWord "NO" line then pure false
  else .error (.refused .noVerdict)

/-- A key, which a list or a record is not. -/
def requireKey (v : Value) : Except Fault Key :=
  match v.key? with
  | some k => .ok k
  | none => .error .wrongKind

/-- A line of a trace, which has to be a text. -/
def requireText (v : Value) : Except Fault String :=
  match v.text? with
  | some s => .ok s
  | none => .error .missingPart

/-- The transitions of an index with what they are known by. Of several entries for a transition the
last counts, in the place of the first. -/
def indexOf (entries : List Value) : Except Fault (List (Value × Value)) := do
  let keyed ← entries.mapM fun e => do pure (← requireKey (e.item 0), e.item 0, e.item 1)
  pure ((keyed.foldl add []).map (·.2))
where
  /-- One entry more. -/
  add (index : List (Key × Value × Value)) (e : Key × Value × Value) :
      List (Key × Value × Value) :=
    let shown := ((Dictionary.get? Prod.fst e.1 index).map (·.2.1)).getD e.2.1
    Dictionary.put Prod.fst (e.1, shown, e.2.2) index

/-- The verdict of an output and the transitions of its trace, by an index of what they are known
by. -/
def verdictReport (index lines : List Value) : Except Fault Value := do
  let index ← indexOf index
  match lines with
  | [] => .error .outOfRange
  | line :: _ =>
    let verdict ← verdictOf line
    let _ ← index.mapM fun e => requireKey e.2
    let texts ← lines.mapM requireText
    let known := index.filterMap fun e => e.2.text?.map fun s => (e.1, s)
    pure (.record [("result", .flag verdict), ("transitions", .list (← readTrace known texts))])

/-- The lines of an output that are told: the one with the verdict, and the rest if the wish for it
is a number above zero. -/
def toldLines (wish : Value) (lines : List Value) : List String × Option Fault :=
  match wish.isPositive with
  | .ok verbose => ((verdictLines verbose lines).map Value.shown, none)
  | .error f => ((verdictLines false lines).map Value.shown, some f)

end MplsReach
