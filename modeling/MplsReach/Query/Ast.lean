/-
Queries: the header in front of the network, the path through it, and the header behind it.

* `Symbol`: a word, or a tuple of up to four words.
* `Atom`: expressions over symbols.
* `Query`: two header expressions, which may be left out, and a path expression.
* `Token.name`: the name that a word stands for.
-/
import MplsReach.Query.Token

namespace MplsReach

namespace Query

/-- How often an expression occurs. -/
inductive Quantifier where
  | zeroOrMore
  | oneOrMore
  | zeroOrOne
deriving DecidableEq, Repr

/-- What an expression is about: a name, or a tuple whose parts may be left out. -/
inductive Symbol where
  | simple (word : Token)
  | tuple (router interface failures ops : Option Token)
deriving DecidableEq, Repr

/-- An expression. -/
inductive Atom where
  | simple (symbol : Symbol)
  | any
  | positiveSet (symbols : List Symbol)
  | negativeSet (symbols : List Symbol)
  | sequence (atoms : List Atom)
  | alternative (left right : Atom)
  | quantified (atom : Atom) (quantifier : Quantifier)
deriving Repr

end Query

/-- A query. -/
structure Query where
  constructing : Option Query.Atom
  network : Query.Atom
  destructing : Option Query.Atom
deriving Repr

namespace Query

/-- A text without the backslashes that make the character behind them plain. -/
def unescape : List Char → List Char
  | '\\' :: c :: cs => if c = '\n' then '\\' :: c :: unescape cs else c :: unescape cs
  | c :: cs => c :: unescape cs
  | [] => []

/-- The name that a word stands for. -/
def Token.name (t : Token) : String := String.ofList (unescape t.text.toList)

mutual

/-- The same expression with every sequence in reverse order. -/
def Atom.reverse : Atom → Atom
  | .sequence as => .sequence (Atom.reverseAll as).reverse
  | .alternative l r => .alternative l.reverse r.reverse
  | .quantified a q => .quantified a.reverse q
  | .simple s => .simple s
  | .any => .any
  | .positiveSet ss => .positiveSet ss
  | .negativeSet ss => .negativeSet ss

/-- The same expressions, each with every sequence in reverse order. -/
def Atom.reverseAll : List Atom → List Atom
  | [] => []
  | a :: as => a.reverse :: Atom.reverseAll as

end

end Query

end MplsReach
