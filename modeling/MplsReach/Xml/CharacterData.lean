/-
Character data between markup, in the chunks in which it is taken in.

* `CharacterData.chunks`: the chunks of a run of character data, each with the text after it.

Whether a chunk of blanks is layout is decided for each chunk by itself. A chunk ends at a carriage
return; a carriage return before a line feed is dropped. From the first character on that is not
seven-bit text, or the first carriage return that stands alone, the rest of the run is taken as a
whole, up to a size.
-/
import MplsReach.Xml.Scan

namespace MplsReach.Xml.CharacterData

/-- A chunk, and the text after it. -/
abbrev Chunk := List Char × List Char

/-- The chunk that has been gathered in reverse order, unless it is empty. -/
def close (gathered after : List Char) : List Chunk :=
  if gathered.isEmpty then [] else [(gathered.reverse, after)]

/-- The characters that a short chunk is made of. -/
def isShort (c : Char) : Bool :=
  c = '\t' || c = '\n' || (32 ≤ c.toNat && c.toNat < 128 && c ≠ '<' && c ≠ '&')

/-- The characters after a line end with which short chunks go on. -/
def goesOn (c : Char) : Bool := c = '\t' || c = '\n' || (32 ≤ c.toNat && c.toNat < 128)

/-- From which size on a long chunk is cut, in bytes. -/
def chunkSize : Nat := 300

/-- The chunks of the rest of a run, taken as a whole, and the text after it; `size` is the size of
what has been gathered. -/
def longChunks (size : Nat) (gathered : List Char) : List Char → List Chunk × List Char
  | [] => (close gathered [], [])
  | '\r' :: '\n' :: cs =>
    if chunkSize ≤ size + 1 then
      let r := longChunks 0 [] cs
      (close ('\n' :: gathered) cs ++ r.1, r.2)
    else longChunks (size + 1) ('\n' :: gathered) cs
  | c :: cs =>
    if c = '<' || c = '&' || !isDocumentChar c then (close gathered (c :: cs), c :: cs)
    else
      let c := if c = '\r' then '\n' else c
      if chunkSize ≤ size + c.utf8Size then
        let r := longChunks 0 [] cs
        (close (c :: gathered) cs ++ r.1, r.2)
      else longChunks (size + c.utf8Size) (c :: gathered) cs

/-- The chunks of a run of character data, and the text after it. -/
def chunksAux (gathered : List Char) : List Char → List Chunk × List Char
  | [] => (close gathered [], [])
  | '\r' :: '\n' :: cs =>
    let r := if cs.head?.any goesOn then chunksAux ['\n'] cs else longChunks 1 ['\n'] cs
    (close gathered ('\r' :: '\n' :: cs) ++ r.1, r.2)
  | c :: cs =>
    if isShort c then chunksAux (c :: gathered) cs
    else
      let r := longChunks 0 [] (c :: cs)
      (close gathered (c :: cs) ++ r.1, r.2)

/-- The chunks of a run of character data, and the text after it, which is empty or starts with
markup or a character that may not stand there. -/
def chunks (cs : List Char) : List Chunk × List Char := chunksAux [] cs

end MplsReach.Xml.CharacterData
