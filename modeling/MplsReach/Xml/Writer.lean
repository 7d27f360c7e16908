/-
Writing a tree of elements that hold elements only.

* `Element`: a name, attributes in order, and children.
* `Element.plain`: the text without layout; characters outside ASCII are written as references.
* `Element.pretty`: one element a line, children two blanks deeper than their parent.
-/

namespace MplsReach.Xml

/-- An element that holds elements only. -/
inductive Element where
  | mk (name : String) (attributes : List (String × String)) (children : List Element)
deriving Repr

/-- A character inside an attribute's value. -/
def escapeChar (c : Char) : String :=
  match c with
  | '&' => "&amp;"
  | '<' => "&lt;"
  | '>' => "&gt;"
  | '"' => "&quot;"
  | '\n' => "&#10;"
  | '\r' => "&#13;"
  | '\t' => "&#9;"
  | c => String.singleton c

/-- A character inside an attribute's value, in ASCII. -/
def escapeAscii (c : Char) : String :=
  if c.toNat < 128 then escapeChar c else "&#" ++ toString c.toNat ++ ";"

/-- The inside of a tag that opens an element. -/
def head (escape : Char → String) (name : String) (attributes : List (String × String)) : String :=
  name ++ String.join (attributes.map fun a =>
    " " ++ a.1 ++ "=\"" ++ String.join (a.2.toList.map escape) ++ "\"")

namespace Element

mutual

/-- The text of an element without layout. -/
def plain : Element → String
  | mk name attributes [] => "<" ++ head escapeAscii name attributes ++ "/>"
  | mk name attributes (c :: cs) =>
    "<" ++ head escapeAscii name attributes ++ ">" ++ plainAll (c :: cs) ++ "</" ++ name ++ ">"

/-- The texts of elements, one after the other. -/
def plainAll : List Element → String
  | [] => ""
  | e :: es => plain e ++ plainAll es

end

mutual

/-- The lines of an element at a depth. -/
def prettyAt (depth : Nat) : Element → String
  | mk name attributes [] =>
    String.ofList (List.replicate (2 * depth) ' ') ++ "<" ++
      head escapeChar name attributes ++ "/>\n"
  | mk name attributes (c :: cs) =>
    let indent := String.ofList (List.replicate (2 * depth) ' ')
    indent ++ "<" ++ head escapeChar name attributes ++ ">\n" ++ prettyAll (depth + 1) (c :: cs) ++
      indent ++ "</" ++ name ++ ">\n"

/-- The lines of elements at a depth. -/
def prettyAll (depth : Nat) : List Element → String
  | [] => ""
  | e :: es => prettyAt depth e ++ prettyAll depth es

end

/-- The lines of an element. -/
def pretty (e : Element) : String := e.prettyAt 0

end Element

end MplsReach.Xml
