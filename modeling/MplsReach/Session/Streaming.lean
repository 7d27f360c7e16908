/-
Sessions with a source of characters and a stack of values.

* `Streaming`: the source and the stack.
* `Streaming.step`: the commands.
-/
import MplsReach.Query.Parser
import MplsReach.Report.Query
import MplsReach.Session.Basic
import MplsReach.Text.Pushback

namespace MplsReach.Session

/-- A source of characters, a stack, and the text that the source was made from. -/
structure Streaming where
  text : String
  source : Text.Pushback Value
  stack : List Value

namespace Streaming

/-- A source over the characters of a text. -/
def ofText (text : String) : Streaming := ⟨text, .start text.toList false, []⟩

/-- A source over the bytes of a text, each shown as the character of that code. -/
def ofBytes (text : String) : Streaming :=
  ⟨text, .start (text.toUTF8.toList.map fun b => Char.ofNat b.toNat) true, []⟩

/-- Characters as a text. -/
def shown (cs : List Char) : Value := .text (String.ofList cs)

/-- One command. -/
def step (command : Value) : Step Streaming Value := do
  let s ← get
  match (command.item 0).asText, s.stack with
  | "read", _ =>
    let (v, source) := s.source.read shown
    set { s with source := source }
    pure v
  | "peek", _ =>
    let (v, source) := s.source.peek shown
    set { s with source := source }
    attempt v
  | "unread", _ => change fun s => { s with source := s.source.unread (command.item 1) }
  | "push", _ => change fun s => { s with stack := command.item 1 :: s.stack }
  | "pop", v :: vs =>
    set { s with stack := vs }
    pure v
  | "top", v :: _ => pure v
  | "pop", [] | "top", [] => throw .outOfRange
  | "empty", vs => pure (.flag vs.isEmpty)
  | "node", _ => throw .wrongKind
  | "clone", _ | "remove", _ | "replace", _ | "apply", _ => throw .abstractNode
  | "lexer", _ => throw .undefinedName
  | "error_token", _ =>
    match ← attempt (Query.obstacle s.text) with
    | some t => pure t.report
    | none => pure .nothing
  | _, _ => pure .nothing

end Streaming

end MplsReach.Session
