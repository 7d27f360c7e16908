/-
References to resources, as far as the reader of documents looks at them.

* `Uri.form?`: whether a text is such a reference, and if so whether it names a scheme.

The form is that of the generic grammar: a scheme, an authority, a path, a query and a fragment,
each of a few characters and of percent signs with two hexadecimal digits.
-/
import MplsReach.Xml.Scan

namespace MplsReach.Xml.Uri

/-- The characters that stand for themselves everywhere. -/
def isPlain (c : Char) : Bool :=
  c.isAlphanum || "-._~!$&'()*+,;=".toList.contains c

/-- The characters of a path's segments. -/
def isSegmentChar (c : Char) : Bool := isPlain c || c = ':' || c = '@'

/-- What is left after the longest run of such characters and of percent signs with two digits. -/
def skip (p : Char → Bool) : List Char → List Char
  | '%' :: a :: b :: cs =>
    if (Scan.hexValue? a).isSome && (Scan.hexValue? b).isSome then skip p cs
    else '%' :: a :: b :: cs
  | c :: cs => if p c then skip p cs else c :: cs
  | [] => []

/-- What is left after a host and a number behind it, if they are well formed. -/
def skipHost? (cs : List Char) : Option (List Char) := do
  let r ← match cs with
    | '[' :: r => (cutBefore [']'] r).map (·.2)
    | _ => some (skip isPlain cs)
  match r with
  | ':' :: r => if r.head?.any Char.isDigit then some (r.dropWhile Char.isDigit) else none
  | _ => some r

/-- What is left after an authority, if it is well formed; a path that follows starts with a
slash. -/
def skipAuthority? (cs : List Char) : Option (List Char) := do
  let host := match skip (fun c => isPlain c || c = ':') cs with
    | '@' :: r => r
    | _ => cs
  let r ← skipHost? host
  if r.head?.all fun c => c = '/' || c = '?' || c = '#' then some r else none

/-- Whether a query and a fragment, or nothing, is left. -/
def isTail (cs : List Char) : Bool :=
  let inQuery : Char → Bool := fun c => isSegmentChar c || c = '/' || c = '?'
  let afterQuery := match cs with
    | '?' :: r => skip inQuery r
    | _ => cs
  match afterQuery with
  | '#' :: r => (skip (fun c => inQuery c || c = '[' || c = ']') r).isEmpty
  | r => r.isEmpty

/-- Whether a text is an authority, a path and what may follow. -/
def isHierarchy (cs : List Char) : Bool :=
  match cs with
  | '/' :: '/' :: r =>
    (skipAuthority? r).any fun r => isTail (skip (fun c => isSegmentChar c || c = '/') r)
  | _ => isTail (skip (fun c => isSegmentChar c || c = '/') cs)

/-- Whether a text starts with a scheme and goes on with a hierarchy. -/
def isAbsolute (cs : List Char) : Bool :=
  cs.head?.any Char.isAlpha &&
    match cs.dropWhile fun c => c.isAlphanum || c = '+' || c = '-' || c = '.' with
    | ':' :: r => isHierarchy r
    | _ => false

/-- Whether a text is a reference without a scheme: its first segment has no colon. -/
def isRelative (cs : List Char) : Bool :=
  isHierarchy cs && (cs.head? = some '/' ||
    match skip (fun c => isPlain c || c = '@') cs with
    | ':' :: _ => false
    | _ => true)

/-- Whether a text is a reference to a resource, and if so whether it names a scheme. -/
def form? (cs : List Char) : Option Bool :=
  if isAbsolute cs then some true else if isRelative cs then some false else none

end MplsReach.Xml.Uri
