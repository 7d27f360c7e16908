/-
Reports on the stages between a query on a network and its verdict.

* `Inquiry`: a query on a network, and the stages that are asked about.
* `Inquiry.reports`: what is wanted of each stage, up to the first fault.
-/
import MplsReach.Analysis.Compile
import MplsReach.Pushdown.CheckLog
import MplsReach.Report.Automata

namespace MplsReach

variable {Spent : Type}

/-- A hop in one line. -/
def Hop.written (spent : Spent → List String) : Hop Spent → String
  | .start => "simstart"
  | .finish => "simend"
  | .at p as e => "|".intercalate ([Text.showOption p.router.name, Text.showOption p.interface,
      ",".intercalate (as.map Action.shortForm)] ++ spent e)

/-- A location of the product of hops and query. -/
def observedWritten (spent : Spent → List String) (l : Option (Hop Spent) × Nat) : String :=
  "(" ++ (match l.1 with
    | some h => h.written spent
    | none => entranceName) ++ "; " ++ numbered "N" l.2 ++ ")"

/-- A location of the whole automaton. -/
def placeWritten (spent : Spent → List String) : Place Spent → String
  | .inl (.inl b) => b.name
  | .inl (.inr l) => observedWritten spent l
  | .inr n => numbered "D" n

/-- What is asked about a network. -/
structure Inquiry where
  /-- The query, or why it cannot be read. -/
  query : Except Fault Query
  /-- Whether joined automata take over the locations of their parts. -/
  takeOver : Bool
  /-- Whether transitions get remarks. -/
  verbose : Bool
  /-- The wanted stages; a name that ends in `#` asks for the sizes. -/
  wanted : List String

namespace Inquiry

/-- The report on one stage, in full and as sizes, as far as they are wanted. -/
def stage (i : Inquiry) (name : String) (full sizes : Unit → Value) : List (String × Value) :=
  (if i.wanted.contains name then [(name, full ())] else []) ++
  (if i.wanted.contains (name ++ "#") then [(name ++ "#", sizes ())] else [])

/-- The report on the forwarding of the network. -/
def forwardingReport (i : Inquiry) (spent : Spent → List String)
    (p : Pda (Hop Spent) StackSymbol) : List (String × Value) :=
  i.stage "mpls" (fun _ => p.report (Hop.written spent) StackSymbol.render) (fun _ => p.sizes)

/-- The report on the verdict, if it is wanted. -/
def verdictReports [DecidableEq Spent] [Hashable Spent] (i : Inquiry) (spent : Spent → List String)
    (s : RuleSystem (Place Spent) StackSymbol) : List (String × Value) × Option Fault :=
  if i.wanted.contains "verdict" then
    match s.decided (placeNaming spent) with
    | .ok b => ([("verdict", .flag b)], none)
    | .error f => ([], some f)
  else ([], none)

/-- The reports on all later stages, and the fault of the last one. -/
def laterReports [DecidableEq Spent] [Hashable Spent] (i : Inquiry) (spent : Spent → List String)
    (n : Network) (p : Pda (Hop Spent) StackSymbol) :
    Except Fault (List (String × Value) × Option Fault) := do
  let sym := StackSymbol.render
  let place := placeWritten spent
  let labels ← n.labels
  let q ← i.query
  let a ← q.automata labels p
  let plain := (a.constructing.mapSymbols StackSymbol.ofLabel).plainBuilder
  let parts := a.parts p
  let front := parts.front i.takeOver
  let whole := parts.whole i.takeOver
  let system ← rulesOf i.verbose spent whole
  let reports :=
    i.stage "nfa_c" (fun _ => a.constructing.report (numbered "C") Label.name)
      (fun _ => a.constructing.sizes) ++
    i.stage "nfa_n" (fun _ => a.network.report (numbered "N") (Hop.written spent))
      (fun _ => a.network.sizes) ++
    i.stage "nfa_d" (fun _ => a.destructing.report (numbered "D") Label.name)
      (fun _ => a.destructing.sizes) ++
    i.stage "nx" (fun _ => Edge.ends (numbered "N") a.network.edges) (fun _ => .nothing) ++
    i.stage "plain" (fun _ => plain.report (numbered "C") sym) (fun _ => plain.sizes) ++
    i.stage "twice" (fun _ => .failure (.refused .convertedTwice)) (fun _ => .nothing) ++
    i.stage "build" (fun _ => parts.build.report Built.name sym) (fun _ => parts.build.sizes) ++
    i.stage "destroy" (fun _ => parts.destroy.report (numbered "D") sym)
      (fun _ => parts.destroy.sizes) ++
    i.stage "apda" (fun _ => parts.network.report (observedWritten spent) sym)
      (fun _ => parts.network.sizes) ++
    i.stage "with_builder" (fun _ => front.report (fun l => place (.inl l)) sym)
      (fun _ => front.sizes) ++
    i.stage "with_destroy" (fun _ => whole.report place sym) (fun _ => whole.sizes) ++
    i.stage "system" (fun _ => system.report place sym) (fun _ => system.sizes place sym) ++
    i.stage "comments"
      (fun _ => .sortedTexts ((system.remarks (placeNaming spent)).map Text.withoutSerials))
      (fun _ => .nothing)
  let (verdict, fault) := i.verdictReports spent system
  pure (reports ++ verdict, fault)

/-- What is wanted of each stage, and the fault that ended it. -/
def reports [DecidableEq Spent] [Hashable Spent] (i : Inquiry) (spent : Spent → List String)
    (n : Network) (p : Pda (Hop Spent) StackSymbol) : List (String × Value) × Option Fault :=
  let first := i.forwardingReport spent p
  if i.wanted.all fun w => w == "mpls" || w == "mpls#" then (first, none)
  else
    match i.laterReports spent n p with
    | .ok (later, fault) => (first ++ later, fault)
    | .error f => (first, some f)

end Inquiry

end MplsReach
