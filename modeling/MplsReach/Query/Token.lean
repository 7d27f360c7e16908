/-
The tokens of the query language.

* `TokenKind`: blanks, brackets, operators, words and the end of the text.
* `Token`: a kind, the text that was read and the place where it starts.
* `TokenKind.index`: the number by which the grammar knows a kind.
-/
import MplsReach.Fault

namespace MplsReach.Query

/-- The kinds of tokens. -/
inductive TokenKind where
  | blank
  | chevLeft | chevRight
  | parenLeft | parenRight
  | squareLeft | squareRight
  | braceLeft | braceRight
  | pipe | star | plus | comma | hat | dot | questionMark
  | word
  | ending
deriving DecidableEq, Repr, Inhabited

namespace TokenKind

/-- The number by which the grammar knows a kind; blanks are not part of it. -/
def index : TokenKind → Int
  | blank => -1
  | chevLeft => 0
  | chevRight => 1
  | parenLeft => 2
  | parenRight => 3
  | squareLeft => 4
  | squareRight => 5
  | braceLeft => 6
  | braceRight => 7
  | pipe => 8
  | star => 9
  | plus => 10
  | comma => 11
  | hat => 12
  | dot => 13
  | questionMark => 14
  | word => 15
  | ending => 16

/-- The text of a kind that is always written the same way. -/
def fixedText? : TokenKind → Option String
  | chevLeft => some "<"
  | chevRight => some ">"
  | parenLeft => some "("
  | parenRight => some ")"
  | squareLeft => some "["
  | squareRight => some "]"
  | braceLeft => some "\x7b"
  | braceRight => some "\x7d"
  | pipe => some "|"
  | star => some "*"
  | plus => some "+"
  | comma => some ","
  | hat => some "^"
  | dot => some "."
  | questionMark => some "?"
  | blank | word | ending => none

/-- The name of a kind. -/
def name : TokenKind → String
  | blank => "TBlank"
  | chevLeft => "TChevLeft"
  | chevRight => "TChevRight"
  | parenLeft => "TParenLeft"
  | parenRight => "TParenRight"
  | squareLeft => "TSqLeft"
  | squareRight => "TSqRight"
  | braceLeft => "TBracLeft"
  | braceRight => "TBracRight"
  | pipe => "TPipe"
  | star => "TStar"
  | plus => "TPlus"
  | comma => "TComma"
  | hat => "THat"
  | dot => "TDot"
  | questionMark => "TQuestionMark"
  | word => "TWord"
  | ending => "EOF"

/-- All kinds. -/
def all : List TokenKind :=
  [blank, chevLeft, chevRight, parenLeft, parenRight, squareLeft, squareRight, braceLeft,
   braceRight, pipe, star, plus, comma, hat, dot, questionMark, word, ending]

/-- The kind of a name. -/
def ofName? (s : String) : Option TokenKind := all.find? (·.name = s)

/-- Every kind is found under its name. -/
theorem ofName?_name (k : TokenKind) : ofName? k.name = some k := by
  cases k <;> rfl

end TokenKind

/-- A token: what was read and where it starts. -/
structure Token where
  kind : TokenKind
  text : String
  line : Int
  column : Int
deriving DecidableEq, Repr, Inhabited

namespace Token

/-- A token as text, with a blank behind it. -/
def render (t : Token) : String := t.text ++ " "

/-- The same token with another text, unless its text is fixed. -/
def withText (t : Token) (text : String) : Except Fault Token :=
  match t.kind.fixedText? with
  | some _ => .error (.refused (.fixedText t.kind.name))
  | none => .ok { t with text := text }

end Token

end MplsReach.Query
