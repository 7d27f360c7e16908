/-
Reports on automata and rule systems.

Each takes the written form of locations and symbols. Lists stand in ascending order, so that
equal automata have equal reports.

* `Nfa.report`, `Pda.report`, `RuleSystem.report`: the parts in full.
* `Nfa.sizes`, `Pda.sizes`, `RuleSystem.sizes`: how many there are.
-/
import MplsReach.Automaton.Nfa
import MplsReach.Pushdown.Rules
import MplsReach.Report.Value
import MplsReach.Text.Anonymous

namespace MplsReach

variable {Loc Sym : Type}

/-- An operation in capitals, with its symbols. -/
def Op.written (sym : Sym → String) : Op Sym → String
  | .noop => "NOOP"
  | .pop => "POP"
  | .push a => "PUSH " ++ sym a
  | .replace a => "REPLACE " ++ sym a
  | .pushReplace a b => "PUSHREPLACE " ++ sym a ++ " " ++ sym b

/-- The tops that an input allows. -/
def Input.written (sym : Sym → String) : Input Sym → String
  | .on a => sym a
  | .any => "*"
  | .among as => "\x7b" ++ ",".intercalate (Text.sorted (as.map sym)) ++ "\x7d"

/-- A transition in one line, with its guard, its text and its comments. -/
def Transition.written (loc : Loc → String) (sym : Sym → String) (t : Transition Loc Sym) :
    String :=
  loc t.source ++ " <" ++ t.input.written sym ++ "> --> " ++ loc t.target ++ " " ++
    t.op.written sym ++
    (match t.guard with
      | some g => " if " ++ g
      | none => "") ++
    (match t.text with
      | some x => " text " ++ x
      | none => "") ++
    String.join (t.comments.map fun c => " # " ++ Text.withoutSerials c)

/-- Three sizes. -/
def Value.sizes (locations symbols transitions : Nat) : Value :=
  .record [("locations", .nat locations), ("symbols", .nat symbols),
    ("transitions", .nat transitions)]

/-- The parts of an automaton that were found out one by one. -/
def Value.automaton (initial final : Option String) (specials : Option (List (String × String)))
    (symbols locations transitions : List String) : Value :=
  .record ([("initial", .optional initial), ("final", .optional final)] ++
    (match specials with
      | some ss => [("specials", .record (ss.map fun (k, v) => (k, .text v)))]
      | none => []) ++
    [("symbols", .sortedTexts symbols), ("locations", .sortedTexts locations),
     ("transitions", .sortedTexts transitions)])

/-- All of a pushdown automaton. -/
def Pda.report (loc : Loc → String) (sym : Sym → String) (p : Pda Loc Sym) : Value :=
  .automaton (some (loc p.initial)) (some (loc p.final))
    (some (p.specials.map fun (k, v) => (k, sym v)))
    (p.symbols.map sym) (p.locations.map loc) (p.transitions.map (Transition.written loc sym))

/-- The sizes of a pushdown automaton. -/
def Pda.sizes (p : Pda Loc Sym) : Value :=
  .sizes p.locations.length p.symbols.length p.transitions.length

/-- An edge in one line. -/
def Edge.written (loc : Loc → String) (sym : Sym → String) (e : Edge Loc Sym) : String :=
  match e.symbol with
  | some a => loc e.source ++ " <" ++ sym a ++ "> --> " ++ loc e.target
  | none => loc e.source ++ " --> " ++ loc e.target

/-- All of an automaton. -/
def Nfa.report (loc : Loc → String) (sym : Sym → String) (a : Nfa Loc Sym) : Value :=
  .automaton (some (loc a.initial)) (some (loc a.final)) none
    (a.symbols.map sym) (a.locations.map loc) (a.edges.map (Edge.written loc sym))

/-- The sizes of an automaton. -/
def Nfa.sizes (a : Nfa Loc Sym) : Value :=
  .sizes a.locations.length a.symbols.length a.edges.length

/-- The two ends of each edge. -/
def Edge.ends (loc : Loc → String) (es : List (Edge Loc Sym)) : Value :=
  .list ((Text.sortedPairs (es.map fun e => (loc e.source, loc e.target))).map .pair)

/-- A rule: a transition on one top, with what it leaves of the stack. -/
def Transition.rule (loc : Loc → String) (sym : Sym → String) (t : Transition Loc Sym) (a : Sym) :
    String :=
  loc t.source ++ " <" ++ sym a ++ "> --> " ++ loc t.target ++ " <" ++
    " ".intercalate ((t.op.apply a).map sym) ++ ">" ++
    (match t.guard with
      | some g => " (" ++ g ++ ")"
      | none => "")

namespace RuleSystem

variable [DecidableEq Loc] [DecidableEq Sym]

/-- The ends and the sizes of a rule system. -/
def sizeFields (loc : Loc → String) (sym : Sym → String) (s : RuleSystem Loc Sym) :
    List (String × Value) :=
  [("size", .nat s.size), ("start", .texts [loc s.start.1, sym s.start.2]),
   ("end", .texts [loc s.goal.1, sym s.goal.2]), ("lines", .nat s.size), ("used", .nat s.used)]

/-- The ends and the sizes of a rule system. -/
def sizes (loc : Loc → String) (sym : Sym → String) (s : RuleSystem Loc Sym) : Value :=
  .record (s.sizeFields loc sym)

/-- All of a rule system. -/
def report (loc : Loc → String) (sym : Sym → String) (s : RuleSystem Loc Sym) : Value :=
  .record (s.sizeFields loc sym ++
    [("rules", .sortedTexts (s.blocks.flatMap fun b =>
      b.tops.map (b.transition.rule loc sym)))])

end RuleSystem

end MplsReach
