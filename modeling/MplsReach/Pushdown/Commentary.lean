/-
The remarks that go with rules.

* `Naming`: how locations and symbols are written.
* `Transition.spelled`: a transition written out.
* `Transition.printed`: a transition as a step of a run.
* `Block.remarks`: the remarks of a transition; the rules of a transition that fires on several tops
  stand between two lines of their own.
* `Pda.annotated`: every transition gets itself written out as a comment.
-/
import MplsReach.Pushdown.Rules
import MplsReach.Text.Blank
import MplsReach.Text.Lines
import MplsReach.Text.Quoted

namespace MplsReach

/-- What a location of a name is shown as. -/
def describeLocation (name : String) : String := "<Location " ++ name ++ "@>"

/-- The name of a location that is observed by another automaton; there may be no location. -/
def observedName (location : Option String) (observer : String) : String :=
  Text.tuple [Text.showOption (location.map describeLocation),
    "<NFALocation " ++ Text.quote observer ++ ">"]

/-- How locations and symbols are written. -/
structure Naming (Loc Sym : Type) where
  location : Loc → String
  symbol : Sym → String
  /-- The shown form of what a symbol holds. -/
  value : Sym → String

namespace Naming

variable {Loc Sym : Type}

/-- What a location is shown as. -/
def describe (n : Naming Loc Sym) (l : Loc) : String := describeLocation (n.location l)

/-- What a symbol is shown as. -/
def describeSymbol (n : Naming Loc Sym) (a : Sym) : String := "<Label: " ++ n.value a ++ ">"

/-- What an operation leaves on the stack, where a star is the symbol on top before. -/
def outcome (n : Naming Loc Sym) : Op Sym → String
  | .pop => ""
  | .push a => "_" ++ n.symbol a ++ " *"
  | .noop => "*"
  | .replace a => "_" ++ n.symbol a
  | .pushReplace a b => "_" ++ n.symbol a ++ " _" ++ n.symbol b

/-- The title over the rules of a transition that fires on several tops. -/
def title (n : Naming Loc Sym) (t : Transition Loc Sym) : String :=
  n.location t.source ++ "<*> --> " ++ n.location t.target ++ "<" ++ n.outcome t.op ++ "> (" ++
    Text.showOption t.guard ++ ")"

end Naming

variable {Loc Sym : Type}

/-- A transition written out; what one that fires on several tops leaves is not written. -/
def Transition.spelled (n : Naming Loc Sym) (t : Transition Loc Sym) : String :=
  match t.input with
  | .on a =>
    n.describe t.source ++ "<" ++ n.describeSymbol a ++ "> --> " ++ n.describe t.target ++ "<" ++
      ",".intercalate ((t.op.apply a).map n.describeSymbol) ++ ">"
  | _ =>
    Text.quote (n.describe t.source) ++ "<'*'> --> " ++ Text.quote (n.describe t.target) ++
      "<'_,W,H,O,_,K,N,O,W,S,_'>"

/-- The automaton with every transition written out as a comment of its own. -/
def Pda.annotated (n : Naming Loc Sym) (p : Pda Loc Sym) : Pda Loc Sym :=
  { p with transitions := p.transitions.map fun t =>
      { t with comments := t.comments ++ [t.spelled n] } }

/-- A step of a run: what it needs on top, and what it leaves there. A replaced symbol is written
with the one that it replaces. -/
def Transition.printed (n : Naming Loc Sym) (t : Transition Loc Sym) : String :=
  let top := match t.input with
    | .on a => n.symbol a
    | _ => "*"
  let left := match t.op with
    | .pop => ""
    | .noop => top
    | .push a | .replace a => n.symbol a ++ " " ++ top
    | .pushReplace a b => n.symbol a ++ " " ++ n.symbol b
  n.location t.source ++ " <" ++ top ++ "> --> " ++ n.location t.target ++ " " ++ left

/-- Comments as lines of remarks. -/
def remarkLines (comments : List String) : List String :=
  comments.flatMap fun c => (Text.splitLines c).map ("#" ++ ·)

/-- The line over a group of rules. -/
def groupOpening (title : String) : String := "# ---------" ++ title ++ "--------- \x7b\x7b\x7b"

/-- The line under a group of rules. -/
def groupClosing : String := "# \x7d\x7d\x7d"

/-- The remarks of a transition and its rules. -/
def Block.remarks (n : Naming Loc Sym) (b : Block Loc Sym) : List String :=
  match b.transition.input with
  | .on _ => if b.tops.isEmpty then [] else remarkLines b.transition.comments
  | _ =>
    remarkLines b.transition.comments ++ [groupOpening (n.title b.transition), groupClosing]

/-- The remarks of all rules. A remark ends with its line. -/
def RuleSystem.remarks (n : Naming Loc Sym) (s : RuleSystem Loc Sym) : List String :=
  ((s.blocks.flatMap (·.remarks n)).flatMap (Text.cutAt '\n')).filter (·.toList.head? = some '#')

end MplsReach
