/-
The characters that documents are written in.

* `isDocumentChar`: the characters that a document may hold.
* `isSpace`: the blanks of markup.
* `isNameStart`, `isNameChar`: the characters of names without a colon.
* `isPublicChar`: the characters of public identifiers.
-/
import MplsReach.Text.Ranges

namespace MplsReach.Xml

/-- The characters that a document may hold. -/
def isDocumentChar (c : Char) : Bool :=
  c.toNat = 9 || c.toNat = 10 || c.toNat = 13 ||
    Text.inRanges [(32, 0xD7FF), (0xE000, 0xFFFD), (0x10000, 0x10FFFF)] c.toNat

/-- The blanks of markup. -/
def isSpace (c : Char) : Bool := c = ' ' || c = '\t' || c = '\n' || c = '\r'

/-- The characters that a name without a colon starts with. -/
def isNameStart (c : Char) : Bool :=
  c.isAlpha || c = '_' ||
    Text.inRanges
      [(0xC0, 0xD6), (0xD8, 0xF6), (0xF8, 0x2FF), (0x370, 0x37D), (0x37F, 0x1FFF),
       (0x200C, 0x200D), (0x2070, 0x218F), (0x2C00, 0x2FEF), (0x3001, 0xD7FF), (0xF900, 0xFDCF),
       (0xFDF0, 0xFFFD), (0x10000, 0xEFFFF)] c.toNat

/-- The characters that a name without a colon goes on with. -/
def isNameChar (c : Char) : Bool :=
  isNameStart c || c.isDigit || c = '-' || c = '.' || c.toNat = 0xB7 ||
    Text.inRanges [(0x300, 0x36F), (0x203F, 0x2040)] c.toNat

/-- The characters of a public identifier. -/
def isPublicChar (c : Char) : Bool :=
  c.isAlphanum || " \r\n-'()+,./:=?;!*#@$_%".toList.contains c

/-! ### Names in whole texts -/

/-- Whether the characters are a name; colons count as letters. -/
def isName : List Char → Bool
  | [] => false
  | c :: cs => (isNameStart c || c = ':') && cs.all fun c => isNameChar c || c = ':'

/-- Whether the characters are a name without a colon. -/
def isPlainName : List Char → Bool
  | [] => false
  | c :: cs => isNameStart c && cs.all isNameChar

/-- Whether the characters are a token: characters of names, in any order. -/
def isNameToken (cs : List Char) : Bool :=
  !cs.isEmpty && cs.all fun c => isNameChar c || c = ':'

end MplsReach.Xml
