/-
What a value is shown as inside of a text.

* `Value.shown`: the text of a value; a text stands for itself.
* `Value.quoted`: the same, with a text in quotes.
-/
import MplsReach.Report.Value

namespace MplsReach.Value

mutual

/-- What a value is shown as, with texts in quotes. -/
def quoted : Value → String
  | .nothing => Text.missing
  | .flag b => Scalar.showFlag b
  | .number n => toString n
  | .real q => q.write
  | .text s => Text.quote s
  | .list vs => "[" ++ ", ".intercalate (quotedAll vs) ++ "]"
  | .record fs => "\x7b" ++ ", ".intercalate (quotedFields fs) ++ "\x7d"
  | .failure _ => ""

/-- What several values are shown as. -/
def quotedAll : List Value → List String
  | [] => []
  | v :: vs => v.quoted :: quotedAll vs

/-- What several fields are shown as. -/
def quotedFields : List (String × Value) → List String
  | [] => []
  | (n, v) :: fs => (Text.quote n ++ ": " ++ v.quoted) :: quotedFields fs

end

/-- What a value is shown as. -/
def shown : Value → String
  | .text s => s
  | v => v.quoted

end MplsReach.Value
