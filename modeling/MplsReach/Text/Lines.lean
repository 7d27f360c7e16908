/-
Lines of a text.

* `unifyNewlines`: a carriage return, alone or before a line feed, becomes a line feed.
* `splitLines`: the lines of a text under every line boundary, without an empty last line.
* `feedLines`: the lines of a text at line feeds, each with its line feed.
-/
import MplsReach.Text.Ranges

namespace MplsReach.Text

/-- Line ends of all systems as line feeds. -/
def unifyNewlines : List Char → List Char
  | [] => []
  | '\r' :: '\n' :: cs => '\n' :: unifyNewlines cs
  | c :: cs => (if c = '\r' then '\n' else c) :: unifyNewlines cs

/-- The characters that end a line. -/
def lineEnds : Ranges := [(10, 13), (28, 30), (133, 133), (8232, 8233)]

/-- Whether a character ends a line. -/
def isLineEnd (c : Char) : Bool := inRanges lineEnds c.toNat

/-- Lines of characters; `line` holds the current line backwards. -/
def splitLinesAux : List Char → List Char → List (List Char)
  | line, [] => if line.isEmpty then [] else [line.reverse]
  | line, '\r' :: '\n' :: cs => line.reverse :: splitLinesAux [] cs
  | line, c :: cs =>
    if isLineEnd c then line.reverse :: splitLinesAux [] cs else splitLinesAux (c :: line) cs

/-- The lines of a text, without their ends. -/
def splitLines (s : String) : List String := (splitLinesAux [] s.toList).map String.ofList

/-- Lines at line feeds, each with its line feed; `line` holds the current line backwards. -/
def feedLinesAux : List Char → List Char → List (List Char)
  | line, [] => if line.isEmpty then [] else [line.reverse]
  | line, c :: cs =>
    if c = '\n' then (c :: line).reverse :: feedLinesAux [] cs else feedLinesAux (c :: line) cs

/-- The lines of a text at line feeds, each with its line feed. -/
def feedLines (s : String) : List String := (feedLinesAux [] s.toList).map String.ofList

end MplsReach.Text
