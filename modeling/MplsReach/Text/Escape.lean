/-
Escape sequences in a text.

* `expandEscapes`: a text in which the meaning of each escape sequence stands in front of the
  characters that were escaped. Escapes by code point are not supported.
-/
import MplsReach.Fault

namespace MplsReach.Text

/-- What a backslash stands for in front of a text that is not empty. -/
def escapeMeaning (rest : List Char) : Except Fault (List Char) :=
  match rest with
  | 'n' :: _ => .ok ['\n']
  | 'r' :: _ => .ok ['\r']
  | '0' :: '0' :: '0' :: _ => .ok [Char.ofNat 0]
  | 'u' :: cs => if 4 ≤ cs.length then .error .undefinedName else .ok ['\\', 'u']
  | c :: _ => .ok (if c = '"' ∨ c = '\\' then [c] else ['\\', c])
  | [] => .ok ['\\']

/-- A text with the meaning of its escape sequences. -/
def expandEscapes : List Char → Except Fault (List Char)
  | [] => .ok []
  | c :: cs => do
    let front ← if c = '\\' then escapeMeaning cs else pure [c]
    pure (front ++ (← expandEscapes cs))

end MplsReach.Text
