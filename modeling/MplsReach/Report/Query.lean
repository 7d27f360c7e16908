/-
Reports on queries.

* `Token.report`: kind, text and place of a token.
* `TokenDraft`: a token that is given as values.
* `TokenDraft.report`, `TokenDraft.fullReport`: its kind, text and place, and all that is told of
  it.
* `Form.report`: a syntax tree with the names of its nodes and of their children.
-/
import MplsReach.Query.Tree
import MplsReach.Report.Value

namespace MplsReach.Query

/-- Kind, text and place of a token. -/
def Token.report (t : Token) : Value :=
  .list [.text t.kind.name, .text t.text, .number t.line, .number t.column]

/-! ### Tokens that are given as values -/

/-- A token whose text and place are any values. -/
structure TokenDraft where
  kind : TokenKind
  text : Value
  line : Value
  column : Value

namespace TokenDraft

/-- The token of a kind, given the values that it is made of. A token that is always written the
same
way is made of its place only; any other takes the first value as its text, and its place starts at
zero where a value is missing. -/
def ofValues (kind : String) (parts : List Value) : Except Fault TokenDraft := do
  let some kind := TokenKind.ofName? kind | .error .missingPart
  let own := kind = .word ∨ kind = .blank
  match parts with
  | [text, line, column] => if own then pure ⟨kind, text, line, column⟩ else .error .wrongKind
  | [line, column] =>
    if own then pure ⟨kind, line, column, .number 0⟩
    else pure ⟨kind, .text (kind.fixedText?.getD ""), line, column⟩
  | _ => .error .wrongKind

/-- Kind, text and place. -/
def report (t : TokenDraft) : Value := .list [.text t.kind.name, t.text, t.line, t.column]

/-- All that is told of a token, which needs a text for it; `changed` is another text. -/
def fullReport (t : TokenDraft) (changed : String) : Except Fault Value := do
  let some text := t.text.text? | .error .wrongKind
  let token : Token := ⟨t.kind, text, 0, 0⟩
  let outcome := token.withText changed
  pure (.record
    [("index", .number t.kind.index), ("str", .text token.render), ("clone", t.report),
     ("case", .texts [t.kind.name ++ " " ++ text]),
     ("set_text", .ofExcept (outcome.map fun _ => .nothing)),
     ("after", .texts [text, (outcome.toOption.map (·.text)).getD text]),
     ("remove", .nothing), ("replace", .nothing)])

end TokenDraft

namespace Form

mutual

/-- A syntax tree. -/
def report : Form → Value
  | .missing => .nothing
  | .leaf t => t.report
  | .branch k cs => .record (("node", .text k.name) :: k.fields.zip (reportAll cs))
  | .series k is => .record [("node", .text k.name), (k.field, .list (reportAll is))]

/-- Several syntax trees. -/
def reportAll : List Form → List Value
  | [] => []
  | f :: fs => f.report :: reportAll fs

end

end Form

end MplsReach.Query
