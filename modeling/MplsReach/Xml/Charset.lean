/-
The character sets that a document may say it is written in.

* `Charset`: how bytes stand for characters.
* `Charset.ofName?`: the character set of a name, in either case.
* `Charset.decode?`: the characters that a text stands for if its bytes are read in a character set.

Of the sets in which a character takes several bytes only the seven-bit part is read. The sets whose
characters take two or four bytes throughout cannot be met here, because the declaration that names
them is read byte by byte.
-/
import MplsReach.Xml.CodePage

namespace MplsReach.Xml

/-- How bytes stand for characters. -/
inductive Charset where
  /-- The text is taken as it is. -/
  | unicode
  /-- Bytes below 128 only. -/
  | sevenBit
  /-- Bytes below 128 only, without those that shift to another form. -/
  | shifted
  /-- Each byte is the number of its character. -/
  | latin1
  /-- The bytes from 128 on stand for these characters. -/
  | page (upper : String)
deriving DecidableEq, Repr

namespace Charset

/-- The names of the sets that are read as seven-bit text. -/
def sevenBitNames : List String :=
  ["ASCII", "US-ASCII", "ISO646-US", "ISO-IR-6", "ANSI_X3.4-1968", "ANSI_X3.4-1986", "CP367",
   "IBM367", "US", "CSASCII",
   "KOI8-RU", "CP1131", "CP1133", "IBM-CP1133", "MACUKRAINE", "MACHEBREW", "MACARABIC", "MACTHAI",
   "NEXTSTEP", "ARMSCII-8", "GEORGIAN-ACADEMY", "GEORGIAN-PS", "MULELAO-1", "VISCII", "VISCII1.1-1",
   "CSVISCII", "TCVN", "TCVN-5712", "TCVN5712-1",
   "EUC-JP", "EUCJP", "CSEUCPKDFMTJAPANESE", "SHIFT_JIS", "SHIFT-JIS", "SJIS", "MS_KANJI",
   "CSSHIFTJIS", "CP932", "ISO-2022-JP", "CSISO2022JP", "ISO-2022-JP-1", "ISO-2022-JP-2",
   "CSISO2022JP2", "JIS_X0201", "JISX0201-1976", "X0201", "CSHALFWIDTHKATAKANA",
   "EUC-CN", "EUCCN", "GB2312", "CN-GB", "CSGB2312", "GBK", "CP936", "MS936", "WINDOWS-936",
   "GB18030", "ISO-2022-CN", "CSISO2022CN", "ISO-2022-CN-EXT", "HZ", "HZ-GB-2312", "EUC-TW",
   "EUCTW", "CSEUCTW", "BIG5", "BIG-5", "BIG-FIVE", "BIGFIVE", "CN-BIG5", "CSBIG5", "CP950",
   "BIG5-HKSCS", "BIG5HKSCS", "EUC-KR", "EUCKR", "CSEUCKR", "CP949", "UHC", "JOHAB", "CP1361",
   "ISO-2022-KR", "CSISO2022KR", "C99", "JAVA"]

/-- The names of the sets that shift between two forms. -/
def shiftedNames : List String := ["UTF-7", "UNICODE-1-1-UTF-7", "CSUNICODE11UTF7"]

/-- The names of the set in which bytes are numbers of characters. -/
def latin1Names : List String :=
  ["ISO-8859-1", "ISO_8859-1", "ISO8859-1", "ISO-IR-100", "ISO-LATIN-1", "CP819", "IBM819",
   "LATIN1", "L1", "CSISOLATIN1"]

/-- The character set of a name, in either case. -/
def ofName? (name : String) : Option Charset :=
  let key := name.toUpper
  if key = "UTF-8" || key = "UTF8" then some unicode
  else if latin1Names.contains key then some latin1
  else if sevenBitNames.contains key then some sevenBit
  else if shiftedNames.contains key then some shifted
  else (CodePage.all.find? (·.2.contains key)).map fun p => page p.1

/-- The characters that do not stand for themselves in a set that shifts. -/
def shifts (c : Char) : Bool := c = '+' || c = '~' || c = '\\'

/-- The character that a byte from 128 on stands for. -/
def ofByte? (upper : Array Char) (b : UInt8) : Option Char :=
  match upper[b.toNat - 128]? with
  | some c => if c.toNat = 0xFFFD then none else some c
  | none => none

/-- The characters that the bytes of a text stand for in a character set. -/
def decode? (charset : Charset) (cs : List Char) : Option (List Char) :=
  let isSevenBit := cs.all (·.toNat < 128)
  match charset with
  | unicode => some cs
  | sevenBit => if isSevenBit then some cs else none
  | shifted => if isSevenBit && !cs.any shifts then some cs else none
  | latin1 =>
    if isSevenBit then some cs
    else some ((String.ofList cs).toUTF8.toList.map fun b => Char.ofNat b.toNat)
  | page upper =>
    if isSevenBit then some cs
    else
      let upper := upper.toList.toArray
      (String.ofList cs).toUTF8.toList.mapM fun b =>
        if b.toNat < 128 then some (Char.ofNat b.toNat) else ofByte? upper b

end Charset

end MplsReach.Xml
