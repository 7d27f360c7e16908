/-
Outlines of single steps: building and removing a header, starting, crossing a link, staying at an
endpoint, forwarding.

* `Part`: what a step is given.
* `StepKind`: the kinds of steps.
* `Outlining.step`: the outline of a step of a kind from its parts.
-/
import MplsReach.Outline.Basic
import MplsReach.Report.Action
import MplsReach.Report.Shown
import MplsReach.Text.Blank

namespace MplsReach

open Guard (Form)

/-- What a step is given. -/
inductive Part where
  /-- A variable: its name, and its position if its value is kept. -/
  | variable (name : String) (position : Option Nat)
  | named (name : String)
  | endpoint (router interface : String)
  | actions (as : List Action)
  | plain (v : Value)
  /-- A label or several labels. -/
  | other

/-- The kinds of steps. -/
inductive StepKind where
  /-- A label is put onto the header in front of the network. -/
  | build
  /-- A label is taken from the header behind the network. -/
  | remove
  | enterRemoval
  /-- The header is empty. -/
  | complete
  | start
  | cross
  | crossCounted
  | arrive
  | leave
  | forward
  /-- A packet is forwarded once more because an interface has failed. -/
  | protect
deriving DecidableEq, Repr

namespace Part

/-- A named thing; a name with a slash in it is an endpoint. -/
def ofName (n : String) : Except Fault Part :=
  match Text.cutAt '/' n with
  | [r, i] => .ok (.endpoint r i)
  | [n] => .ok (.named n)
  | _ => .error .badValue

/-- A part from a pair of its kind and its name; anything but a list stands for itself. Variables
whose values are kept are numbered in order. -/
def ofValue (kept : List String) (v : Value) : Except Fault Part :=
  match v with
  | .list [.text "var", .text n] =>
    match kept.reverse.findIdx? (· = n) with
    | some i =>
      let position := kept.length - 1 - i
      .ok (.variable (Guard.Variables.nameOf (some position)) (some position))
    | none => .ok (.variable n none)
  | .list [.text "actions", as] => do pure (.actions (← Action.ofValues as))
  | .list [.text "label", _] | .list [.text "labels", _] => .ok .other
  | .list [_, .text n] => ofName n
  | .list _ => .error .badValue
  | v => .ok (.plain v)

/-- The name of a part. -/
def name : Part → Except Fault String
  | .named n | .variable n _ => .ok n
  | _ => .error .missingPart

/-- The router and the interface of an endpoint. -/
def ends : Part → Except Fault (String × String)
  | .endpoint r i => .ok (r, i)
  | _ => .error .missingPart

/-- What a part is shown as inside of a text. -/
def text : Part → String
  | .variable n _ | .named n => n
  | .plain v => v.shown
  | _ => ""

/-- The position of a variable whose value is kept. -/
def position? : Part → Option Nat
  | .variable _ p => p
  | _ => none

/-- The number of actions. -/
def count : Part → Except Fault Nat
  | .actions as => .ok as.length
  | .plain (.text s) => .ok s.length
  | .plain (.record fs) => .ok fs.length
  | _ => .error .wrongKind

/-- Why the action at a position cannot be taken: there is none at it, or it is nothing that a
transition can be made of. -/
def actionFault (actions : Part) (position : Nat) : Fault :=
  match actions, actions.count with
  | .plain (.record _), _ => .unknownName none
  | _, .ok n => if position < n then .missingPart else .outOfRange
  | _, .error f => f

/-- A number, one more. -/
def successor : Part → Except Fault String
  | .plain (.number n) => .ok (toString (n + 1))
  | .plain (.flag b) => .ok (if b then "2" else "1")
  | .plain (.real q) => .ok (q.addWhole 1).write
  | _ => .error .wrongKind

/-- What a part is compared by, if it is a plain value. -/
def key? : Part → Option Key
  | .plain v => v.key?
  | _ => none

/-- Whether a part can be assigned to: lists and records cannot. -/
def isAssignable : Part → Bool
  | .plain v => v.key?.isSome
  | _ => true

end Part

namespace Outlining

/-- The outcome of an attempt. -/
def attempt {α : Type} (x : Except Fault α) : Outlining α :=
  match x with
  | .ok a => pure a
  | .error f => throw f

/-- Names joined by underscores. -/
def joined (names : List String) : String := "_".intercalate names

/-- The node of an interface. -/
def endpointNode (router interface : Part) (more : List String) : Outlining Unit := do
  let r ← attempt router.name
  let i ← attempt interface.name
  node (joined (r :: i :: more))

/-- The node of an endpoint. -/
def endNode (endpoint : Part) (more : List String) : Outlining Unit := do
  let (r, i) ← attempt endpoint.ends
  node (joined (r :: i :: more))

/-- A transition over one label, or a joint one over several labels. -/
def transition (joint : Bool) (explicit : Option String) (excluded : List Part) : Outlining Unit :=
  if joint then silent else guarded explicit (excluded.filterMap (·.position?))

/-- The conjunction of conditions. -/
def conjunction : List String → Option String
  | [] => none
  | g :: gs => some (gs.foldl Form.both.write g)

/-- The assignment of a text to a part. -/
def assignment (target : Part) (text : String) : Outlining String :=
  if target.isAssignable then pure (Form.assign.write target.text text) else throw .wrongKind

/-- A header is finished behind the network. -/
def enterRemoval (joint : Bool) (count router interface fails length : Part) : Outlining Unit := do
  endpointNode router interface [fails.text]
  node "simend"
  transition joint (some (Form.equal.write count.text length.text)) [count]

/-- A packet starts at an interface. The assignments of zero to equal values are one assignment. -/
def start (joint : Bool) (count mode router interface : Part) : Outlining Unit := do
  node "simstart"
  endpointNode router interface []
  let first ← assignment count "0"
  let second ← assignment mode "0"
  let shared := count.key?.isSome && count.key? = mode.key?
  transition joint (conjunction [first, if shared then first else second]) [count, mode]

/-- A packet crosses a link. -/
def cross (joint : Bool) (source target fails mode : Part) : Outlining Unit := do
  endNode source [fails.text]
  endNode target []
  transition joint (some (← assignment mode "0")) [mode]

/-- A packet crosses a link at a place in a query. -/
def crossCounted (count source target fails place : Part) : Outlining Unit := do
  endNode source [fails.text]
  endNode target []
  let v ← attempt count.name
  let text := v ++ " = " ++ place.text ++ " & " ++ v ++ "' = " ++ v ++ " + 1"
  transition false (some (Form.raw.write text "")) [count]

/-- A packet has arrived at an interface that a query asks for. -/
def arrive (joint : Bool) (router interface mode count place : Part) : Outlining Unit := do
  endpointNode router interface []
  transition joint (conjunction [Form.equal.write count.text place.text,
    ← assignment mode "1", Form.equal.write mode.text "0"]) [mode]

/-- A packet leaves by an interface that a query asks for. -/
def leave (joint : Bool) (router interface fails mode count : Part) : Outlining Unit := do
  endpointNode router interface [fails.text]
  transition joint (conjunction
    [← assignment count (Form.sum.write count.text "1"),
      ← assignment mode "2", Form.equal.write mode.text "1"]) [mode, count]

/-- A packet is forwarded: there is one node for each action but the first. -/
def forward (router source : Part) (more : List String) (actions : Part) : Outlining Unit := do
  let r ← attempt router.name
  let s ← attempt source.name
  if 1 < (← attempt actions.count) then
    node (joined (r :: "1" :: s :: more))
    throw (actions.actionFault 1)
  else throw (actions.actionFault 0)

/-- A step from its parts, over one label or jointly over several. -/
def step (kind : StepKind) (joint : Bool) (parts : List Part) : Outlining Unit :=
  match kind, parts with
  | .build, [_, _, _, _] | .remove, [_, _, _] => transition joint none []
  | .enterRemoval, [v, r, i, f, _, n] => enterRemoval joint v r i f n
  | .complete, [_] => do node "complete"; silent
  | .start, [v, w, r, i, _] => start joint v w r i
  | .cross, [s, t, f, _, w] => cross joint s t f w
  | .crossCounted, [v, s, t, f, _, n] => crossCounted v s t f n
  | .arrive, [r, i, _, w, v, n] => arrive joint r i w v n
  | .leave, [r, i, f, _, w, v, _] => leave joint r i f w v
  | .forward, [r, s, t, _, as, _] => do
    endpointNode r s []
    endpointNode r t ["0"]
    forward r s [] as
  | .protect, [r, s, t, f, _, as, _, _] => do
    endpointNode r s [f.text]
    let t ← attempt t.name
    let next ← attempt f.successor
    endpointNode r (.named t) [next]
    forward r s [f.text] as
  | _, _ => throw .wrongKind

/-- What a step comes to, where some variables are kept. -/
def stepReport (settled : Bool) (kept : List String) (kind : StepKind) (joint : Bool)
    (values : List Value) : Value :=
  .ofExcept do
    let supply ← kept.foldlM (fun vs _ => return (← vs.alloc).2) Guard.Variables.start
    let parts ← values.mapM (Part.ofValue kept)
    let (outcome, o) := (step kind joint parts).outline ⟨settled, supply⟩
    pure (.record (o.report (.ofExcept (outcome.map fun _ => .nothing))))

end Outlining

end MplsReach
