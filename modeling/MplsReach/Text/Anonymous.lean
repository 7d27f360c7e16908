/-
Descriptions without running numbers.

* `withoutSerials`: a description of a thing ends in its running number, behind `@` or behind a
  closing quote, and in `>`; the number says nothing about the thing and is left out.
-/
import MplsReach.Text.Digit

namespace MplsReach.Text

/-- Leaves out every number between `front` and `>`; of `front` it keeps what stands before its
first blank. -/
def dropSerials (front : List Char) : List Char → List Char
  | [] => []
  | c :: rest =>
    if front.isPrefixOf (c :: rest) then
      let after := (c :: rest).drop front.length
      let digits := after.takeWhile isDecimal
      match digits, after.drop digits.length with
      | _ :: _, '>' :: tail =>
        if _h : tail.length < (c :: rest).length then
          front.takeWhile (· ≠ ' ') ++ '>' :: dropSerials front tail
        else []
      | _, _ => c :: dropSerials front rest
    else c :: dropSerials front rest
termination_by cs => cs.length
decreasing_by
  · exact _h
  · exact Nat.lt_succ_self _
  · exact Nat.lt_succ_self _

/-- A text without running numbers. -/
def withoutSerials (s : String) : String :=
  String.ofList (dropSerials ['\'', ' '] (dropSerials ['@'] s.toList))

end MplsReach.Text
