/-
Ends of texts, and parts of texts replaced by others.

* `endsIn`: whether a text ends in another one.
* `replace`: every occurrence of a part, from the left, by another one.
* `withoutEnding`: a text without its last extension.
-/

namespace MplsReach.Text

/-- Whether a text ends in another one. -/
def endsIn (ending s : String) : Bool := ending.toList.isSuffixOf s.toList

/-- Every occurrence of a part, from the left, by another one. -/
def replaceAux (old new : List Char) (cs : List Char) : List Char :=
  match cs with
  | [] => []
  | c :: rest =>
    if old.isPrefixOf (c :: rest) then
      if _h : ((c :: rest).drop old.length).length < (c :: rest).length then
        new ++ replaceAux old new ((c :: rest).drop old.length)
      else c :: rest
    else c :: replaceAux old new rest
termination_by cs.length
decreasing_by
  · simpa using _h
  · simp

/-- Every occurrence of a part of a text, from the left, by another one. -/
def replace (old new s : String) : String :=
  String.ofList (replaceAux old.toList new.toList s.toList)

/-- The name of a file without its last extension; a dot at either end of the name starts none. -/
def withoutEnding (name : String) : String :=
  let back := name.toList.reverse
  let ending := back.takeWhile (· ≠ '.')
  match back.drop ending.length with
  | _ :: front@(_ :: _) => if ending.isEmpty then name else String.ofList front.reverse
  | _ => name

end MplsReach.Text
