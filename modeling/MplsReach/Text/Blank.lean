/-
White space, and the ways of cutting a text at it.

* `isBlank`: white space of all scripts.
* `strip`: a text without blanks at its ends.
* `fields`: the maximal runs of other characters.
* `cutAtBlanks`: the parts between single blanks, empty parts included.
-/
import MplsReach.Text.Ranges

namespace MplsReach.Text

/-- White space of all scripts, with the separators of files, groups, records and units. -/
def blanks : Ranges :=
  [(9, 13), (28, 32), (133, 133), (160, 160), (5760, 5760), (8192, 8202), (8232, 8233),
   (8239, 8239), (8287, 8287), (12288, 12288)]

/-- Whether a character is white space. -/
def isBlank (c : Char) : Bool := inRanges blanks c.toNat

/-- Characters without those at both ends that satisfy the test. -/
def stripBy (p : Char → Bool) (cs : List Char) : List Char :=
  ((cs.dropWhile p).reverse.dropWhile p).reverse

/-- A text without blanks at its ends. -/
def strip (s : String) : String := String.ofList (stripBy isBlank s.toList)

/-- A list cut at every element that satisfies the test; the parts may be empty. -/
def cutWhere {α : Type} (p : α → Bool) : List α → List (List α)
  | [] => [[]]
  | a :: as =>
    match cutWhere p as with
    | [] => [[a]]
    | part :: parts => if p a then [] :: part :: parts else (a :: part) :: parts

/-- The maximal runs of characters that are not blank. -/
def fields (s : String) : List String :=
  ((cutWhere isBlank s.toList).filter (!·.isEmpty)).map String.ofList

/-- The parts of a text between single blanks. -/
def cutAtBlanks (s : String) : List String :=
  (cutWhere isBlank s.toList).map String.ofList

/-- The parts of a text between occurrences of one character. -/
def cutAt (c : Char) (s : String) : List String :=
  (cutWhere (· = c) s.toList).map String.ofList

theorem cutWhere_ne_nil {α : Type} (p : α → Bool) (as : List α) : cutWhere p as ≠ [] := by
  cases as with
  | nil => simp [cutWhere]
  | cons a as =>
    rw [cutWhere]
    split
    · simp
    · split <;> simp

/-- Putting one separator between the parts gives the list back. -/
theorem intercalate_cutWhere {α : Type} [DecidableEq α] (a : α) (as : List α) :
    [a].intercalate (cutWhere (· = a) as) = as := by
  induction as with
  | nil => simp [cutWhere, List.intercalate]
  | cons b bs ih =>
    rw [cutWhere]
    cases h : cutWhere (· = a) bs with
    | nil => exact absurd h (cutWhere_ne_nil _ _)
    | cons part parts =>
      rw [h] at ih
      by_cases hb : b = a
      · subst hb
        cases parts <;> simp_all [List.intercalate]
      · cases parts <;> simp_all [List.intercalate]

end MplsReach.Text
