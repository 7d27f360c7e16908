/-
The grammar of rule files.

A file defines constants, declares variables, gives the start in round brackets, names atoms, and
lists rules. A rule is a location and a top, an arrow, a location and up to two symbols in place of
the top, and then, if there are any, its text in quotes and its condition in round brackets.

* `RuleReading`: reading the pieces of a file one after the other; where it fails it stops.
* `constant`, `condition`: calculations and conditions. A calculation of a condition has no
  brackets.
* `RuleText`: the start and the rules whose conditions hold.
* `RuleText.read`: the rules of a text, and the stray characters in front of the place where the
  reading ended.

No condition can speak of a variable: what a variable stands for is not part of a rule here.
-/
import MplsReach.Pushdown.Condition
import MplsReach.Pushdown.RuleToken
import MplsReach.Pushdown.Witness
import MplsReach.Text.OperatorChain

namespace MplsReach

/-! ### Reading pieces -/

/-- The pieces that are left, and the constants defined so far. -/
structure RuleSource where
  left : List RuleToken
  constants : List (String × Int32)

/-- Reading that can fail; what was left then can still be told. -/
abbrev RuleReading := OptionT (StateM RuleSource)

/-- A piece in which constants stand for their numbers. -/
def RuleSource.resolve (s : RuleSource) : RuleToken → RuleToken
  | .word name =>
    match s.constants.find? (·.1 = name) with
    | some (_, n) => .number n
    | none => .word name
  | t => t

/-- Whether a piece is a stray character. -/
def RuleToken.isStray : RuleToken → Bool
  | .stray _ => true
  | _ => false

namespace RuleReading

/-- The piece that comes next; stray characters are passed over. -/
def peek : RuleReading (Option RuleToken) := do
  let s ← get
  let left := s.left.dropWhile (·.isStray)
  set { s with left := left }
  pure (left.head?.map s.resolve)

/-- Passes over a piece. -/
def skip : RuleReading Unit := modify fun s => { s with left := s.left.drop 1 }

/-- How many pieces are left, at least. -/
def rounds : RuleReading Nat := do pure ((← get).left.length + 1)

/-- A sign, if it comes next. -/
def sign? (text : String) : RuleReading Bool := do
  if (← peek) = some (.sign text) then
    skip
    pure true
  else pure false

/-- A sign that has to come next. -/
def sign (text : String) : RuleReading Unit := do
  if !(← sign? text) then failure

/-- A word that has to come next. -/
def word : RuleReading String := do
  match ← peek with
  | some (.word s) =>
    skip
    pure s
  | _ => failure

/-- What pieces of a kind start, as often as it comes, at most some number of times. -/
def many {α : Type} (starts : RuleToken → Bool) (p : RuleReading α) : Nat → RuleReading (List α)
  | 0 => pure []
  | n + 1 => do
    match ← peek with
    | some t =>
      if starts t then do
        let a ← p
        pure (a :: (← many starts p n))
      else pure []
    | none => pure []

/-- What a sign starts, as often as it comes. -/
def each {α : Type} (text : String) (p : RuleReading α) : RuleReading (List α) := do
  many (· = .sign text) (do skip; p) (← rounds)

/-- One or more with commas between them. -/
def listed {α : Type} (p : RuleReading α) : RuleReading (List α) := do
  pure ((← p) :: (← each "," p))

/-! ### Calculations -/

/-- The operation that a sign stands for. -/
def arithmetic? : RuleToken → Option Arithmetic
  | .sign "+" => some .add
  | .sign "-" => some .sub
  | .sign "*" => some .mul
  | .sign "/" => some .div
  | .sign "<<" => some .shift
  | _ => none

/-- Operations from the loosest on. -/
def arithmeticLevels : List (Arithmetic → Bool) :=
  [fun op => op = .add || op = .sub, fun op => op = .mul || op = .div, (· = .shift)]

/-- Operands with operators of a kind between them. -/
def chain {α ω : Type} (operator? : RuleToken → Option ω) (operand : RuleReading α) :
    RuleReading (OperatorChain α ω) := do
  let first ← operand
  let rest ← many (fun t => (operator? t).isSome) (do
    match (← peek).bind operator? with
    | some op =>
      skip
      pure (op, ← operand)
    | none => failure) (← rounds)
  pure ⟨first, rest⟩

/-- A constant, with as many brackets around its parts as given. -/
def constantWithin : Nat → RuleReading Int32
  | 0 => failure
  | depth + 1 => do
    let c ← chain arithmetic? (do
      match ← peek with
      | some (.number n) =>
        skip
        pure (Calculation.number n)
      | _ =>
        sign "("
        let n ← constantWithin depth
        sign ")"
        pure (.number n))
    match (c.resolve .combine arithmeticLevels).value? [] with
    | some n => pure n
    | none => failure

/-- A constant. -/
def constant : RuleReading Int32 := do constantWithin (← rounds)

/-- A calculation of a condition, in which some names are bound. -/
def calculation (bound : List String) : RuleReading Calculation := do
  let c ← chain arithmetic? (do
    match ← peek with
    | some (.number n) =>
      skip
      pure (Calculation.number n)
    | some (.word s) =>
      if bound.contains s then do
        skip
        pure (.bound s)
      else failure
    | _ => failure)
  pure (c.resolve .combine arithmeticLevels)

/-! ### Conditions -/

/-- The comparison that a sign stands for. -/
def comparison? : RuleToken → Option Comparison
  | .sign "<" => some .lt
  | .sign "<=" => some .le
  | .sign "=" => some .eq
  | .sign "!=" => some .ne
  | .sign ">=" => some .ge
  | .sign ">" => some .gt
  | _ => none

/-- The operation on truth values that a sign stands for. -/
def connective? : RuleToken → Option Connective
  | .sign "==" => some .eqv
  | .sign "^" => some .xor
  | .sign "|" => some .or
  | .sign "&" => some .and
  | _ => none

/-- Operations on truth values from the loosest on. -/
def connectiveLevels : List (Connective → Bool) :=
  [(· = .eqv), (· = .xor), (· = .or), (· = .and)]

/-- Two calculations with a comparison between them. -/
def comparison (bound : List String) : RuleReading Condition := do
  let a ← calculation bound
  match (← peek).bind comparison? with
  | some op =>
    skip
    pure (.compare op a (← calculation bound))
  | none => failure

/-- What stands behind the sign of a quantifier; its condition goes as far as it can. -/
def quantified (bound : List String) (all : Bool) (inner : List String → RuleReading Condition) :
    RuleReading Condition := do
  let name ← word
  if bound.contains name then failure
  sign "("
  let first ← constant
  sign ","
  let last ← constant
  sign ")"
  pure (.quantify all name first last (← inner (name :: bound)))

/-- A condition without operations on truth values outside of brackets, other than that it may be
denied. -/
def simple (bound : List String) (inner : List String → RuleReading Condition) :
    RuleReading Condition := do
  let denials ← each "!" (pure ())
  let c ←
    if ← sign? "(" then do
      let c ← inner bound
      sign ")"
      pure c
    else if ← sign? "A" then quantified bound true inner
    else if ← sign? "E" then quantified bound false inner
    else comparison bound
  pure (if denials.length % 2 = 1 then .negate c else c)

/-- A condition with as many conditions within each other as given. -/
def conditionWithin : Nat → List String → RuleReading Condition
  | 0, _ => failure
  | depth + 1, bound => do
    let c ← chain connective? (simple bound (conditionWithin depth))
    pure (c.resolve .combine connectiveLevels)

/-- Whether the condition in round brackets holds, if there is one. -/
def guard : RuleReading Bool := do
  if ← sign? "(" then do
    let c ← conditionWithin (← rounds) []
    sign ")"
    pure (c.holds [])
  else pure true

/-- Whether a remark or a text in quotes starts with a character, or a line ends with it. -/
def leadsAway (c : Char) : Bool := ['"', '#', '%', '\x7b', '\x7d', '\n'].contains c

/-- Whether a text is a condition that holds and says nothing else. -/
def holdsAsGuard (text : String) : Bool :=
  let tokens := RuleToken.scan ("(" ++ text ++ ")").toList
  let (held, source) := StateT.run (OptionT.run guard) ⟨tokens, []⟩
  !text.toList.any leadsAway && (RuleToken.strays tokens).isEmpty && held = some true &&
    source.left.isEmpty

/-! ### Declarations -/

/-- A constant gets its number. -/
def definition : RuleReading Unit := do
  let name ← match ← peek with
    | some (.word s) =>
      skip
      pure (some s)
    | some (.number _) =>
      skip
      pure none
    | _ => failure
  let n ← constant
  modify fun s => { s with constants := (name.map (·, n)).toList ++ s.constants }

/-- A number that has to be positive. -/
def size : RuleReading Unit := do
  if (← constant) ≤ 0 then failure

/-- A variable, which may have positions. -/
def declared : RuleReading Unit := do
  let _ ← word
  if ← sign? "[" then do
    let _ ← listed constant
    sign "]"

/-- A declaration of variables. -/
def declaration : RuleReading Unit := do
  if ← sign? "bool" then do
    let _ ← listed declared
    sign ";"
  else do
    sign "int"
    let _ ← listed (do
      declared
      sign "("
      size
      sign ")")
    sign ";"

/-- One or more declarations. -/
def declarations : RuleReading Unit := do
  declaration
  let _ ← many (fun t => t = .sign "bool" || t = .sign "int") declaration (← rounds)

/-- The variables of all symbols, and those of some. -/
def allDeclarations : RuleReading Unit := do
  if ← sign? "global" then declarations
  let _ ← each "local" (do
    match ← peek with
    | some (.word _) => skip
    | _ => pure ()
    sign "("
    let _ ← listed word
    sign ")"
    declarations)

/-! ### Rules -/

/-- A name, and whether the condition behind it holds. -/
def guardedName : RuleReading (String × Bool) := do
  let name ← word
  pure (name, ← guard)

/-- The operation that leaves some symbols in place of the top. -/
def operation : List String → RuleReading (Op String)
  | [] => pure .pop
  | [a] => pure (.replace a)
  | [a, b] => pure (.pushReplace a b)
  | _ => failure

/-- Whether a piece is a word. -/
def isWord : RuleToken → Bool
  | .word _ => true
  | _ => false

/-- A rule, and whether its condition holds. -/
def rule : RuleReading (Transition String String × Bool) := do
  let source ← word
  sign "<"
  let top ← word
  sign ">"
  sign "-->"
  let target ← word
  sign "<"
  let op ← operation (← many isWord word 2)
  sign ">"
  let text ← match ← peek with
    | some (.quoted s) =>
      skip
      pure (some s)
    | _ => pure none
  pure (⟨source, target, .on top, op, text, none, []⟩, ← guard)

end RuleReading

/-! ### Files -/

/-- The start, unless a condition excludes it, and the rules whose conditions hold. -/
structure RuleText where
  start : Option (String × String)
  rules : List (Transition String String)

namespace RuleText

open RuleReading

/-- A whole file. -/
def reading : RuleReading RuleText := do
  let _ ← each "define" definition
  allDeclarations
  sign "("
  let (location, first) ← guardedName
  sign "<"
  let (top, second) ← guardedName
  sign ">"
  sign ")"
  let _ ← each "atoms" (do
    let _ ← word
    listed word)
  let rules ← many isWord rule (← rounds)
  if (← peek).isSome then failure
  pure ⟨if first && second then some (location, top) else none,
    (rules.filter (·.2)).map (·.1)⟩

/-- The rules of a text, if it is one of rules, and the stray characters that were passed over. -/
def read (text : String) : Option RuleText × List Char :=
  let tokens := RuleToken.scan text.toList
  let (rules, source) := StateT.run (OptionT.run reading) ⟨tokens, []⟩
  (rules, RuleToken.strays (tokens.take (tokens.length - source.left.length)))

/-- A run to a goal. -/
def witness? (t : RuleText) (goal : String × String) :
    Option (List (Transition String String)) := do
  RuleSystem.witness? ⟨← t.start, goal, t.rules.map fun r => ⟨r, r.input.symbols⟩⟩

end RuleText

end MplsReach
