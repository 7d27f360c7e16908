/-
The names of routers by address.

* `readAddress?`: one line: a character, an address with its length, the letter H, a dash, a name.
* `readAddresses`: the lines of a text; the last line for an address counts.
-/
import MplsReach.Dictionary
import MplsReach.Text.Blank
import MplsReach.Text.Digit
import MplsReach.Text.Lines

namespace MplsReach.Dump

/-- Whether characters are so many groups of one to three digits, with a dot behind a group or
not. -/
def isAddress : Nat → List Char → Bool
  | 0, cs => cs.isEmpty
  | n + 1, cs =>
    [1, 2, 3].any fun width =>
      cs.length ≥ width && (cs.take width).all Text.isDecimal &&
        (isAddress n (cs.drop width) ||
          ((cs.drop width).head? = some '.' && isAddress n (cs.drop (width + 1))))

/-- The name behind the length of an address. -/
def readOwner? (cs : List Char) : Option String :=
  match cs.dropWhile Text.isBlank with
  | 'H' :: cs =>
    match cs.dropWhile Text.isBlank with
    | '-' :: cs =>
      let name := (cs.dropWhile Text.isBlank).takeWhile (!Text.isBlank ·)
      if name.isEmpty then none else some (String.ofList name)
    | _ => none
  | _ => none

/-- The address and the name on a line. -/
def readAddress? (line : List Char) : Option (String × String) :=
  match line with
  | [] => none
  | first :: cs =>
    let cs := cs.dropWhile Text.isBlank
    let address := cs.takeWhile (· ≠ '/')
    if first = '\n' || !isAddress 4 address then none
    else
      let behind := cs.drop (address.length + 1)
      let length := behind.takeWhile Text.isDecimal
      if cs.length = address.length || length.isEmpty || length.length > 2 then none
      else (readOwner? (behind.drop length.length)).map (String.ofList address, ·)

/-- The names of routers by address. -/
def readAddresses (text : String) : List (String × String) :=
  Dictionary.putAll Prod.fst []
    ((Text.feedLines (String.ofList (Text.unifyNewlines text.toList))).filterMap fun line =>
      readAddress? line.toList)

end MplsReach.Dump
