/-
Name spaces.

* `Scope`: the name spaces in force, nearest first.
* `Written`: a name as it is written, with its prefix apart.
* `Scope.elementName`, `Scope.attributeName`: the name that a written name stands for.
* `Scan.declaredSpace`: what an attribute declares, with the notices on it.

A prefix that stands for nothing is an error; the name then keeps its prefix and is in no name
space.
-/
import MplsReach.Xml.Node
import MplsReach.Xml.Scan
import MplsReach.Xml.Uri

namespace MplsReach.Xml

/-- Prefixes (none for the default) and the name spaces that they stand for, nearest first. -/
abbrev Scope := List (Option String × String)

/-- The name space that the prefix of the language itself stands for. -/
def reservedSpace : String := "http://www.w3.org/XML/1998/namespace"

/-- The name space of the declarations of name spaces. -/
def declaringSpace : String := "http://www.w3.org/2000/xmlns/"

/-- The scope of a document. -/
def Scope.outermost : Scope := [(some "xml", reservedSpace)]

/-- A name as it is written. -/
structure Written where
  pre : Option String
  base : String
deriving DecidableEq, Repr

/-- The written name as one text. -/
def Written.text (w : Written) : String :=
  match w.pre with
  | some p => p ++ ":" ++ w.base
  | none => w.base

/-- The name space that a prefix stands for. -/
def Scope.space? (scope : Scope) (pre : Option String) : Option String :=
  (scope.find? (·.1 = pre)).bind fun s => if s.2 = "" then none else some s.2

/-- Whether a name has a prefix that stands for nothing. -/
def Scope.isLost (scope : Scope) (w : Written) : Bool :=
  w.pre.isSome && (scope.space? w.pre).isNone

/-- The name of an element. -/
def Scope.elementName (scope : Scope) (w : Written) : Name :=
  if scope.isLost w then ⟨none, w.text⟩ else ⟨scope.space? w.pre, w.base⟩

/-- The name of an attribute: the default name space does not apply. -/
def Scope.attributeName (scope : Scope) (w : Written) : Name :=
  if scope.isLost w then ⟨none, w.text⟩ else ⟨w.pre.bind fun p => scope.space? (some p), w.base⟩

/-! ### Declarations -/

/-- What an attribute is for. -/
inductive AttributeRole where
  /-- It declares a name space for a prefix, or the default one. -/
  | declares (pre : Option String) (space : String)
  /-- It would declare a name space, but may not. -/
  | void
  | plain

namespace Scan

/-- The declaration of the default name space. -/
def declaredDefault (space : String) : Scan AttributeRole := do
  if space = "" then return .declares none space
  match Uri.form? space.toList with
  | none => give .error
  | some false => give .warning
  | some true => pure ()
  if space = reservedSpace || space = declaringSpace then
    give .error
    return .void
  return .declares none space

/-- The declaration of a name space for a prefix. -/
def declaredFor (pre space : String) : Scan AttributeRole := do
  if pre = "xml" then
    if space ≠ reservedSpace then give .error
    return .void
  if space = reservedSpace || pre = "xmlns" || space = declaringSpace || space = "" then
    give .error
    return .void
  if (Uri.form? space.toList).isNone then give .error
  return .declares (some pre) space

/-- What an attribute is for. -/
def attributeRole (w : Written) (value : String) : Scan AttributeRole :=
  match w with
  | ⟨none, "xmlns"⟩ => declaredDefault value
  | ⟨some "xmlns", pre⟩ => declaredFor pre value
  | _ => return .plain

end Scan

end MplsReach.Xml
