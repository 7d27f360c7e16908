/-
Reading a query from its tokens.

A query is `<` header `>` path `<` header `>`. An expression is a sequence of alternatives, an
alternative is built from quantified atoms, and an atom is a word, a tuple, a dot, a set or a group
in round brackets. A chevron behind a path opens the second header, unless it turns out to open a
tuple.

* `Clause`: a sequence that is being read.
* `Part`: which of the three expressions is being read.
* `Parsing`: everything read so far.
* `Parsing.step`: one more token, or the fault that it is not expected.
* `Query.read`: the query of a text; `Query.obstacle`: the token that is not expected.
-/
import MplsReach.Query.Ast
import MplsReach.Query.Lexer

namespace MplsReach.Query

/-! ### Expressions in progress -/

/-- The end of a sequence that is being read. -/
inductive Tail where
  /-- No atom yet. -/
  | empty
  /-- An atom that a quantifier may follow, behind the alternatives in front of it. -/
  | bare (left : Option Atom) (atom : Atom)
  /-- Alternatives that only a further alternative may extend. -/
  | closed (atom : Atom)
  /-- Alternatives that end in a bar. -/
  | bar (left : Atom)
deriving Repr

/-- A sequence that is being read: what is finished, backwards, and the end. -/
structure Clause where
  finished : List Atom
  tail : Tail
deriving Repr

namespace Clause

/-- Nothing read yet. -/
def empty : Clause := ⟨[], .empty⟩

/-- An atom behind the alternatives in front of it. -/
def join : Option Atom → Atom → Atom
  | some left, a => .alternative left a
  | none, a => a

/-- One more atom. -/
def atom (s : Clause) (a : Atom) : Clause :=
  match s.tail with
  | .empty => ⟨s.finished, .bare none a⟩
  | .bare left b => ⟨join left b :: s.finished, .bare none a⟩
  | .closed b => ⟨b :: s.finished, .bare none a⟩
  | .bar left => ⟨s.finished, .bare (some left) a⟩

/-- A quantifier behind the last atom, if it may stand there. -/
def quantify? (s : Clause) (q : Quantifier) : Option Clause :=
  match s.tail with
  | .bare left a => some ⟨s.finished, .closed (join left (.quantified a q))⟩
  | _ => none

/-- A bar behind the last atom, if it may stand there. -/
def bar? (s : Clause) : Option Clause :=
  match s.tail with
  | .bare left a => some ⟨s.finished, .bar (join left a)⟩
  | .closed a => some ⟨s.finished, .bar a⟩
  | _ => none

/-- The whole sequence, if it may end here. -/
def finish? (s : Clause) : Option Atom :=
  match s.tail with
  | .bare left a => some (.sequence (join left a :: s.finished).reverse)
  | .closed a => some (.sequence (a :: s.finished).reverse)
  | _ => none

end Clause

/-- Which of the three expressions is being read, and the ones before it. -/
inductive Part where
  | constructing
  | network (constructing : Option Atom)
  | destructing (constructing : Option Atom) (network : Atom)
deriving Repr

/-- The set that a symbol belongs to. -/
structure OpenSet where
  negative : Bool
  /-- The symbols, backwards. -/
  symbols : List Symbol
deriving Repr

/-- What the next token has to go on with. -/
inductive Mode where
  /-- The first chevron. -/
  | opening
  /-- The innermost expression. -/
  | expression
  /-- A set just opened. -/
  | setOpened
  | set (s : OpenSet)
  /-- A tuple: the parts before the current one, backwards, and the current one; its symbol goes to
  a set or to the innermost expression. -/
  | tuple (into : Option OpenSet) (parts : List (Option Token)) (current : Option Token)
  /-- A chevron behind a path. -/
  | junction
  /-- A chevron behind a path, and a word. -/
  | junctionWord (word : Token)
  /-- The end of the text. -/
  | complete (query : Query)
deriving Repr

/-- Everything read so far: the innermost expression, and the groups around it from inside out. -/
structure Parsing where
  part : Part
  current : Clause
  outer : List Clause
  mode : Mode
deriving Repr

namespace Parsing

/-- Nothing read yet. -/
def start : Parsing := ⟨.constructing, .empty, [], .opening⟩

/-! ### What is expected -/

/-- The beginnings of an atom. -/
def atomStarts : List String := ["'<'", "'('", "'['", "'.'", "word"]

/-- The beginnings of an atom, or the end of a header. -/
def atomOrEnd : List String := ["'<'", "'>'", "'('", "'['", "'.'", "word"]

/-- What may follow in the innermost expression when no atom has just ended. -/
def expectedAtom (p : Parsing) : List String :=
  match p.current.tail, p.outer, p.part with
  | .empty, [], .constructing => atomOrEnd
  | _, _, _ => atomStarts

/-- What may follow in the innermost expression when an atom has just ended; operators are not
told. -/
def expectedMore (p : Parsing) : List String :=
  match p.outer, p.part with
  | [], .network _ => atomStarts
  | [], _ => atomOrEnd
  | _ :: _, _ => ["'<'", "'('", "')'", "'['", "'.'", "word"]

/-- What may follow. -/
def expected (p : Parsing) : List String :=
  match p.mode with
  | .opening => ["'<'"]
  | .expression =>
    match p.current.tail with
    | .empty | .bar _ => p.expectedAtom
    | .bare .. | .closed _ => p.expectedMore
  | .setOpened => ["'<'", "'^'", "word"]
  | .set ⟨_, []⟩ => ["'<'", "word"]
  | .set ⟨_, _ :: _⟩ => ["']'"]
  | .tuple _ parts none => if parts.length < 3 then ["','", "word"] else ["'>'", "word"]
  | .tuple _ parts (some _) => if parts.length < 3 then ["','"] else ["'>'"]
  | .junction => ["'<'", "'>'", "'('", "'['", "','", "'.'", "word"]
  | .junctionWord _ => atomOrEnd
  | .complete _ => ["EOF"]

/-- The fault that a token is not expected. -/
def unexpected {α : Type} (p : Parsing) (t : Token) : Except Fault α :=
  .error (.unexpectedToken t.line t.column p.expected)

/-! ### Steps -/

/-- One more atom in the innermost expression. -/
def addAtom (p : Parsing) (a : Atom) : Parsing :=
  { p with current := p.current.atom a, mode := .expression }

/-- One more symbol, in a set or in the innermost expression. -/
def addSymbol (p : Parsing) (into : Option OpenSet) (s : Symbol) : Parsing :=
  match into with
  | some set => { p with mode := .set { set with symbols := s :: set.symbols } }
  | none => p.addAtom (.simple s)

/-- A header or group just opened. -/
def startPart (part : Part) : Parsing := ⟨part, .empty, [], .expression⟩

/-- The path that ends in front of a chevron; the second header starts. -/
def destructing? (p : Parsing) : Option Parsing :=
  match p.part, p.current.finish? with
  | .network c, some n => some (startPart (.destructing c n))
  | _, _ => none

/-- The query that ends with the second header. -/
def finishDestructing (p : Parsing) (d : Option Atom) : Option Parsing :=
  match p.part with
  | .destructing c n => some { p with mode := .complete ⟨c, n, d⟩ }
  | _ => none

/-- The chevron that closes a header. -/
def closeHeader? (p : Parsing) : Option Parsing :=
  match p.outer, p.part, p.current.tail with
  | [], .constructing, .empty => some (startPart (.network none))
  | [], .constructing, _ => p.current.finish?.map fun a => startPart (.network (some a))
  | [], .destructing .., .empty => p.finishDestructing none
  | [], .destructing .., _ => p.current.finish?.bind fun a => p.finishDestructing (some a)
  | _, _, _ => none

/-- The bracket that closes a group. -/
def closeGroup? (p : Parsing) : Option Parsing :=
  match p.outer with
  | [] => none
  | s :: ss => p.current.finish?.map fun a => { p with current := s.atom a, outer := ss }

/-- A chevron in an expression: behind a path it may open the second header. -/
def openChevron (p : Parsing) : Parsing :=
  match p.outer, p.part, p.current.finish? with
  | [], .network _, some _ => { p with mode := .junction }
  | _, _, _ => { p with mode := .tuple none [] none }

/-- A token in an expression. -/
def inExpression (p : Parsing) (t : Token) : Option Parsing :=
  match t.kind with
  | .word => some (p.addAtom (.simple (.simple t)))
  | .dot => some (p.addAtom .any)
  | .chevLeft => some p.openChevron
  | .squareLeft => some { p with mode := .setOpened }
  | .parenLeft => some { p with current := .empty, outer := p.current :: p.outer }
  | .parenRight => p.closeGroup?
  | .chevRight => p.closeHeader?
  | .star => (p.current.quantify? .zeroOrMore).map fun s => { p with current := s }
  | .plus => (p.current.quantify? .oneOrMore).map fun s => { p with current := s }
  | .questionMark => (p.current.quantify? .zeroOrOne).map fun s => { p with current := s }
  | .pipe => p.current.bar?.map fun s => { p with current := s }
  | _ => none

/-- A token in a set. -/
def inSet (p : Parsing) (s : OpenSet) (t : Token) : Option Parsing :=
  match t.kind, s.symbols with
  | .word, _ => some (p.addSymbol (some s) (.simple t))
  | .chevLeft, _ => some { p with mode := .tuple (some s) [] none }
  | .squareRight, _ :: _ =>
    let symbols := s.symbols.reverse
    some (p.addAtom (if s.negative then .negativeSet symbols else .positiveSet symbols))
  | _, _ => none

/-- A token in a tuple. -/
def inTuple (p : Parsing) (into : Option OpenSet) (parts : List (Option Token))
    (current : Option Token) (t : Token) : Option Parsing :=
  match t.kind, parts, current with
  | .word, _, none => some { p with mode := .tuple into parts (some t) }
  | .comma, [], c => some { p with mode := .tuple into [c] none }
  | .comma, [a], c => some { p with mode := .tuple into [c, a] none }
  | .comma, [b, a], c => some { p with mode := .tuple into [c, b, a] none }
  | .chevRight, [c, b, a], d => some (p.addSymbol into (.tuple a b c d))
  | _, _, _ => none

/-- One more token. -/
def step (p : Parsing) (t : Token) : Except Fault Parsing :=
  let next :=
    match p.mode with
    | .opening => if t.kind = .chevLeft then some { p with mode := .expression } else none
    | .expression => p.inExpression t
    | .setOpened =>
      if t.kind = .hat then some { p with mode := .set ⟨true, []⟩ } else p.inSet ⟨false, []⟩ t
    | .set s => p.inSet s t
    | .tuple into parts current => p.inTuple into parts current t
    | .junction =>
      match t.kind with
      | .comma => some { p with mode := .tuple none [none] none }
      | .word => some { p with mode := .junctionWord t }
      | _ => p.destructing?.bind (·.inExpression t)
    | .junctionWord w =>
      if t.kind = .comma then some { p with mode := .tuple none [some w] none }
      else p.destructing?.bind fun q => (q.addAtom (.simple (.simple w))).inExpression t
    | .complete _ => none
  match next with
  | some p => .ok p
  | none => p.unexpected t

/-- The query, if the text may end here. -/
def finish (p : Parsing) (t : Token) : Except Fault Query :=
  match p.mode with
  | .complete q => .ok q
  | _ => p.unexpected t

/-- All tokens in order, and then the fault that ended them if there was one. -/
def steps (p : Parsing) (fault : Option Fault) : List Token → Except Fault (Query × Token)
  | [] => .error (fault.getD .exhausted)
  | t :: ts =>
    match t.kind with
    | .blank => p.steps fault ts
    | .ending => (p.finish t).map fun q => (q, t)
    | _ => do (← p.step t).steps fault ts

/-- The first token that is not expected. -/
def obstacle? (p : Parsing) : List Token → Option Token
  | [] => none
  | t :: ts =>
    match t.kind with
    | .blank => p.obstacle? ts
    | .ending => if (p.finish t).isOk then none else some t
    | _ =>
      match p.step t with
      | .ok p => p.obstacle? ts
      | .error _ => some t

end Parsing

/-- The query of a text, and the token at its end. -/
def readWithEnd (text : String) : Except Fault (Query × Token) :=
  let (ts, fault) := tokens text
  Parsing.start.steps fault ts

/-- The query of a text. -/
def read (text : String) : Except Fault Query :=
  (readWithEnd text).map (·.1)

/-- The token at which the reading of a text stops, if it is no query. -/
def obstacle (text : String) : Except Fault (Option Token) :=
  match readWithEnd text with
  | .ok _ => .ok none
  | .error (.unexpectedToken ..) => .ok (Parsing.start.obstacle? (tokens text).1)
  | .error f => .error f

/-! ### Names for programs

A program that opens the library finds the type and its reader among the parts of queries, too.
-/

export MplsReach (Query)

namespace Query

export MplsReach.Query (read)

end Query

end MplsReach.Query
