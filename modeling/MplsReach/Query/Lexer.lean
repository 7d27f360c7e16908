/-
Cutting a query into tokens, the longest possible token first.

* `isWordChar`, `isEscapable`: the characters of words, and those that a backslash may precede.
* `Scan`: the states in which a token is read, with `Scan.step` and `Scan.accepts`.
* `Lexer`: the text that is left, and the place that has been reached.
* `Lexer.next`: the next token, or the fault that none starts here, and what is left.
* `TokenStream`: tokens one at a time, with a look at the next one and the way back.
* `tokens`: all tokens of a text up to its end or the first fault.
-/
import MplsReach.Fault
import MplsReach.Query.Token

namespace MplsReach.Query

/-! ### Characters -/

/-- The characters with a meaning of their own, which a backslash takes away. -/
def isEscapable (c : Char) : Bool := "<>()[]\x7b\x7d|*+^.?\\".toList.contains c

/-- Blanks between tokens. -/
def isSpace (c : Char) : Bool := c = ' ' || c = '\t' || c = '\n' || c = '\r'

/-- The characters of words. -/
def isWordChar (c : Char) : Bool := c.toNat ≤ 0xFFFF && !isSpace c && !isEscapable c

/-- The tokens of one character. -/
def single? : Char → Option TokenKind
  | '<' => some .chevLeft
  | '>' => some .chevRight
  | '(' => some .parenLeft
  | ')' => some .parenRight
  | '[' => some .squareLeft
  | ']' => some .squareRight
  | '\x7b' => some .braceLeft
  | '\x7d' => some .braceRight
  | '|' => some .pipe
  | '*' => some .star
  | '+' => some .plus
  | '^' => some .hat
  | '.' => some .dot
  | '?' => some .questionMark
  | _ => none

/-! ### Reading one token -/

/-- What has been read of a token. -/
inductive Scan where
  | start
  | blank
  | single (kind : TokenKind)
  /-- A comma, which a word may start with. -/
  | comma
  | word
  /-- A backslash of a word, whose character is missing. -/
  | escape
deriving DecidableEq, Repr

namespace Scan

/-- Going on with a word. -/
def wordStep (c : Char) : Option Scan :=
  if c = '\\' then some escape else if isWordChar c then some word else none

/-- The state after one more character. -/
def step : Scan → Char → Option Scan
  | start, c =>
    if isSpace c then some blank
    else if c = ',' then some comma
    else match single? c with
      | some k => some (single k)
      | none => wordStep c
  | blank, c => if isSpace c then some blank else none
  | single _, _ => none
  | comma, c => wordStep c
  | word, c => wordStep c
  | escape, c => if isEscapable c then some word else none

/-- The token that ends in a state. -/
def accepts : Scan → Option TokenKind
  | start => none
  | blank => some .blank
  | single k => some k
  | comma => some .comma
  | word => some .word
  | escape => none

end Scan

/-- A place in a text. -/
structure Place where
  line : Nat
  column : Nat
deriving DecidableEq, Repr

/-- A place, and whether a carriage return stands in front of it. -/
structure Cursor where
  place : Place
  afterReturn : Bool
deriving DecidableEq, Repr

/-- The cursor after a character: a line feed after a carriage return starts no further line. -/
def Cursor.advance (p : Cursor) (c : Char) : Cursor :=
  if c = '\n' then
    if p.afterReturn then ⟨p.place, false⟩ else ⟨⟨p.place.line + 1, 0⟩, p.afterReturn⟩
  else if c = '\r' then ⟨⟨p.place.line + 1, 0⟩, true⟩
  else ⟨⟨p.place.line, p.place.column + 1⟩, false⟩

/-- A token that has been read: its kind, its characters backwards, the text after it and the place
of that text. -/
structure Match where
  kind : TokenKind
  taken : List Char
  rest : List Char
  place : Place
deriving DecidableEq, Repr

/-- The result of reading as far as possible. -/
structure Attempt where
  /-- The longest token. -/
  longest : Option Match
  /-- The characters looked at, backwards. -/
  seen : List Char
  /-- The text after them. -/
  rest : List Char
  cursor : Cursor
  /-- Whether the end of the text has been looked at. -/
  atEnd : Bool
deriving DecidableEq, Repr

/-- Reads on from a state; `seen` holds the characters looked at, backwards. -/
def attempt (state : Scan) (cursor : Cursor) (seen : List Char) (longest : Option Match) :
    List Char → Attempt
  | [] => ⟨longest, seen, [], cursor, true⟩
  | c :: cs =>
    let cursor := cursor.advance c
    match state.step c with
    | none => ⟨longest, c :: seen, cs, cursor, false⟩
    | some next =>
      let longest :=
        match next.accepts with
        | some kind => some ⟨kind, c :: seen, cs, cursor.place⟩
        | none => longest
      attempt next cursor (c :: seen) longest cs

/-! ### Reading tokens -/

/-- The text that is left and the place that has been reached. -/
structure Lexer where
  rest : List Char
  cursor : Cursor
  /-- Whether the end of the text has been looked at. -/
  atEnd : Bool
deriving DecidableEq, Repr

namespace Lexer

/-- At the start of a text. -/
def start (text : List Char) : Lexer := ⟨text, ⟨⟨0, 0⟩, false⟩, false⟩

/-- The next token, or the fault that none starts here, and what is left. Characters that start no
token are passed over. -/
def next (l : Lexer) : Except Fault Token × Lexer :=
  let a := attempt .start l.cursor [] none l.rest
  let line : Int := l.cursor.place.line + 1
  let column : Int := l.cursor.place.column + 1
  match a.longest with
  | some m =>
    (.ok ⟨m.kind, String.ofList m.taken.reverse, line, column⟩,
      ⟨m.rest, ⟨m.place, a.cursor.afterReturn⟩, a.atEnd && m.rest.isEmpty⟩)
  | none =>
    if a.seen.isEmpty then (.ok ⟨.ending, "", line, column⟩, { l with atEnd := true })
    else
      (.error (.unknownToken line column (String.ofList a.seen.reverse)),
        ⟨a.rest, a.cursor, a.atEnd⟩)

/-- A token put back in front of the text; the place becomes the token's own. -/
def unread (l : Lexer) (t : Token) : Lexer :=
  ⟨t.text.toList ++ l.rest, ⟨⟨(t.line - 1).toNat, (t.column - 1).toNat⟩, l.cursor.afterReturn⟩,
    l.atEnd && t.text.isEmpty⟩

/-- The tokens up to the end of the text, or up to the first fault. -/
def run (l : Lexer) : List Token × Option Fault :=
  match l.next with
  | (.error f, _) => ([], some f)
  | (.ok t, l') =>
    if t.kind = .ending then ([t], none)
    else if _h : l'.rest.length < l.rest.length then
      let (ts, f) := l'.run
      (t :: ts, f)
    else ([t], none)
termination_by l.rest.length

end Lexer

/-! ### Streams of tokens -/

/-- A lexer, the token that has been looked at and not taken, and the tokens taken so far. -/
structure TokenStream where
  lexer : Lexer
  waiting : Option Token
  taken : List Token
deriving DecidableEq, Repr

namespace TokenStream

/-- At the start of a text. -/
def start (text : String) : TokenStream := ⟨.start text.toList, none, []⟩

/-- The next token, which is not taken. -/
def peek (s : TokenStream) : Except Fault Token × TokenStream :=
  match s.waiting with
  | some t => (.ok t, s)
  | none =>
    match s.lexer.next with
    | (.ok t, l) => (.ok t, { s with lexer := l, waiting := some t })
    | (.error f, l) => (.error f, { s with lexer := l })

/-- The next token, which is taken. -/
def next (s : TokenStream) : Except Fault Token × TokenStream :=
  match s.peek with
  | (.ok t, s) => (.ok t, { s with waiting := none, taken := s.taken ++ [t] })
  | (.error f, s) => (.error f, s)

/-- A taken token put back in front of the text, by its position; a negative position counts from
the last token. -/
def unread (s : TokenStream) (i : Int) : Except Fault TokenStream :=
  let i := if i < 0 then i + s.taken.length else i
  match (if i < 0 then none else s.taken[i.toNat]?) with
  | some t => .ok { s with lexer := s.lexer.unread t }
  | none => .error .outOfRange

end TokenStream

/-- The tokens of a text up to its end, or up to the first fault. -/
def tokens (text : String) : List Token × Option Fault := (Lexer.start text.toList).run

end MplsReach.Query
