/-
Rule systems as texts.

The first line gives the start in round brackets, and each further line a rule: a location and a
top, an arrow, a location and what takes the place of the top, and then, if there are any, the text
of the rule in quotes and its guard in round brackets. From a number sign to the end of the line a
text is a remark.

* `ruleLine`: one rule.
* `RuleSystem.write`: a rule system, with numbers for locations, symbols and transitions.
-/
import MplsReach.Pushdown.Commentary

namespace MplsReach

/-- The first line: the start, and the goal as a remark. -/
def startLine (start goal : String × String) : String :=
  "(" ++ start.1 ++ "<" ++ start.2 ++ ">) # --> " ++ goal.1 ++ "<" ++ goal.2 ++ ">\n"

/-- A rule. -/
def ruleLine (source top target : String) (left : List String) (text guard : Option String) :
    String :=
  source ++ "<" ++ top ++ "> --> " ++ target ++ "<" ++ " ".intercalate left ++ ">" ++
    (match text with
      | some t => " \"" ++ t ++ "\""
      | none => "") ++
    (match guard with
      | some g => " (" ++ g ++ ")"
      | none => "") ++ "\n"

/-- Lines of a text. -/
def asLines (lines : List String) : String := String.join (lines.map (· ++ "\n"))

section Writing

variable {Loc Sym : Type} [DecidableEq Loc] [DecidableEq Sym]

/-- The position of an element. -/
def position {α : Type} [DecidableEq α] (as : List α) (a : α) : Nat := as.findIdx (· = a)

/-- What stands for an element: its position behind some others. -/
def code {α : Type} [DecidableEq α] (first : Nat) (as : List α) (a : α) : String :=
  "_" ++ toString (first + position as a)

/-- The rules of a transition, with its remarks. -/
def Block.write (loc : Loc → String) (sym : Sym → String) (n : Naming Loc Sym) (number : Nat)
    (b : Block Loc Sym) : String :=
  let t := b.transition
  let rules := String.join (b.tops.map fun a => ruleLine (loc t.source) (sym a) (loc t.target)
    ((t.op.apply a).map sym) (some (toString number)) t.guard)
  match t.input with
  | .on _ => if b.tops.isEmpty then "" else asLines (remarkLines t.comments) ++ rules
  | _ =>
    asLines (remarkLines t.comments ++ [groupOpening (n.title t)]) ++ rules ++
      asLines [groupClosing]

namespace RuleSystem

/-- The symbols of the rules. -/
def allSymbols (s : RuleSystem Loc Sym) : List Sym :=
  Text.distinct (s.start.2 :: s.goal.2 ::
    s.blocks.flatMap fun b => b.tops ++ b.transition.op.symbols)

/-- The locations of the rules. -/
def allLocations (s : RuleSystem Loc Sym) : List Loc :=
  Text.distinct (s.start.1 :: s.goal.1 ::
    s.blocks.flatMap fun b => [b.transition.source, b.transition.target])

/-- The written form of a location with a top. Transitions have the first numbers, then symbols,
then locations. -/
def headCode (s : RuleSystem Loc Sym) (h : Loc × Sym) : String × String :=
  let symbols := s.allSymbols
  (code (s.blocks.length + symbols.length) s.allLocations h.1, code s.blocks.length symbols h.2)

/-- A rule system as a text. -/
def write (n : Naming Loc Sym) (s : RuleSystem Loc Sym) : String :=
  let symbols := s.allSymbols
  let locations := s.allLocations
  let symbol := code s.blocks.length symbols
  let location := code (s.blocks.length + symbols.length) locations
  startLine (s.headCode s.start) (s.headCode s.goal) ++
    String.join (s.blocks.mapIdx fun i b => b.write location symbol n i)

/-- Whether each remark is one line. -/
def hasPlainRemarks (n : Naming Loc Sym) (s : RuleSystem Loc Sym) : Bool :=
  s.blocks.all fun b =>
    match b.transition.input with
    | .on _ => true
    | _ => !(n.title b.transition).contains '\n'

/-- The guards of the rules. -/
def guards (s : RuleSystem Loc Sym) : List String :=
  Text.distinct (s.blocks.filterMap (·.transition.guard))

end RuleSystem

end Writing

end MplsReach
