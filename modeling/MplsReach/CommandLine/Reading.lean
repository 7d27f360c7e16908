/-
Reading a command line.

Every command takes its options and its arguments, and a group hands what is left to the command
that comes next. In a group the options come first; elsewhere they may stand anywhere. Nothing is
done before the whole command line is accepted.

* `takeFlags`: the options at the front of what is left, or of all of it.
* `Command.choose`: what was chosen for a command.
* `read`: what a command line asks for, and the lines that are printed on the way.
-/
import MplsReach.CommandLine.Help
import MplsReach.CommandLine.Operation
import MplsReach.Text.WordCharacter

namespace MplsReach.CommandLine

/-! ### Options -/

/-- The option of a name. -/
def Command.flag? (c : Command) (name : String) : Option Flag := c.flags.find? (·.name = name)

/-- Whether a name is a dash and one character. -/
def isShort (name : String) : Bool := name.length = 2 && !name.startsWith "--"

/-- An option with its value, which may be the argument behind it; the flag says whether it is. -/
def Flag.take (f : Flag) (attached next : Option String) :
    Except UsageMistake ((Flag × String) × Bool) :=
  match f.effect.domain?, attached, next with
  | none, none, _ => .ok ((f, ""), false)
  | none, some _, _ => .error .badOptionUsage
  | some _, some v, _ => .ok ((f, v), false)
  | some _, none, some v => .ok ((f, v), true)
  | some _, none, none => .error .badOptionUsage

/-- Options of one character each behind one dash. -/
def takeShort (c : Command) (next : Option String) :
    List Char → Except UsageMistake (List (Flag × String) × Bool)
  | [] => .ok ([], false)
  | x :: xs =>
    match c.flag? (String.ofList ['-', x]) with
    | none => .error .unknownOption
    | some f =>
      match f.effect.domain? with
      | none => do
        let (more, used) ← takeShort c next xs
        pure ((f, "") :: more, used)
      | some _ => do
        let (g, used) ← f.take (if xs.isEmpty then none else some (String.ofList xs)) next
        pure ([g], used)

/-- The options that one argument holds. -/
def takeFlag (c : Command) (word : String) (next : Option String) :
    Except UsageMistake (List (Flag × String) × Bool) :=
  let name := String.ofList (word.toList.takeWhile (· ≠ '='))
  let attached :=
    if name = word then none else some (String.ofList (word.toList.drop (name.length + 1)))
  match (if isShort name then none else c.flag? name) with
  | some f => do
    let (g, used) ← f.take attached next
    pure ([g], used)
  | none =>
    if word.startsWith "--" then .error .unknownOption else takeShort c next (word.toList.drop 1)

/-- Options, other words, and what is left. -/
def takeFlags (c : Command) : List String → Except UsageMistake (List (Flag × String) × List String)
  | [] => .ok ([], [])
  | word :: rest =>
    if word = "--" then .ok ([], rest)
    else if word.startsWith "-" && word.length > 1 then
      match takeFlag c word rest.head? with
      | .error m => .error m
      | .ok (gs, used) =>
        match rest, used with
        | _ :: rest, true => (takeFlags c rest).map fun (fs, ws) => (gs ++ fs, ws)
        | rest, _ => (takeFlags c rest).map fun (fs, ws) => (gs ++ fs, ws)
    else if c.isGroup then .ok ([], word :: rest)
    else (takeFlags c rest).map fun (fs, ws) => (fs, word :: ws)
termination_by words => words.length

/-! ### Values -/

/-- The values of options must lie in their domains; of several only the last one counts, unless
all do. -/
def checkFlags (t : FileTree) : List (Flag × String) → Except Fault Unit
  | [] => .ok ()
  | (f, v) :: flags => do
    match f.effect with
    | .values d => d.check t v
    | .value d => if !flags.any (·.1.setting = f.setting) then d.check t v
    | _ => pure ()
    checkFlags t flags

/-- Arguments in their order, and what is left. -/
def takeArguments (t : FileTree) :
    List Argument → List String → Except Fault (List String × List String)
  | [], words => .ok ([], words)
  | a :: as, words => do
    match words.head?.or a.default with
    | none => .error (.usage .missingParameter)
    | some v =>
      a.domain.check t v
      let (vs, rest) ← takeArguments t as (words.drop 1)
      pure (v :: vs, rest)

/-- What was chosen for a command, and what is left; nothing if it is to be explained. -/
def Command.choose (t : FileTree) (c : Command) (words : List String) :
    Except Fault (Option (Choice × List String)) := do
  let (flags, words) ← (takeFlags c words).mapError .usage
  if flags.any (·.1.setting = .help) then pure none
  else
    checkFlags t flags
    let (arguments, rest) ← takeArguments t c.arguments words
    if !c.isGroup && !rest.isEmpty then .error (.usage .general)
    else pure (some (⟨arguments, flags⟩, rest))

/-! ### Command lines -/

/-- What a command line asks for. -/
inductive Request where
  | explain (lines : List String)
  | perform (operations : List Operation)

/-- What is printed while a command line is read, and what it asks for. -/
structure Reading where
  printed : List String
  outcome : Except Fault Request

/-- The line that tells that there is no configuration. A configuration cannot be taken up: there
is nothing that says how it is to be read. -/
def configNotice (t : FileTree) (c : Choice) : Except Fault (List String) :=
  let path := plainPath ((c.value? .config).getD "config.yml")
  match t.find path with
  | .ok (.text _) => .error .wrongKind
  | .ok .directory | .error .noSuchFile | .error .notDirectory =>
    .ok [path ++ " not found. Using default config"]
  | .error f => .error f

/-- A reading behind the line about the configuration. -/
def Reading.behindNotice (t : FileTree) (c : Choice) (r : Reading) : Reading :=
  match configNotice t c with
  | .ok notice => ⟨notice ++ r.printed, r.outcome⟩
  | .error f => ⟨[], .error f⟩

/-- Whether a word that is no command asks for an explanation: it does not start as a name does. -/
def asksForHelp (word : String) : Bool :=
  match word.toList with
  | [] => false
  | c :: _ => !Text.isWordCharacter c || c = '_'

/-- What the command and those behind it ask for, behind the operations so far. -/
def readCommand (t : FileTree) (path : List String) (ops : List Operation) (c : Command)
    (words : List String) : Reading :=
  if c.isGroup && c ≠ .main && words.isEmpty then ⟨[], .ok (.explain (helpLines path c))⟩
  else
    match c.choose t words with
    | .error f => ⟨[], .error f⟩
    | .ok none => ⟨[], .ok (.explain (helpLines path c))⟩
    | .ok (some (choice, rest)) =>
      let ops := ops ++ (c.operation? choice).toList
      if !c.isGroup then ⟨[], .ok (.perform ops)⟩
      else
        match rest with
        | [] => if c = .main then Reading.behindNotice t choice ⟨[], .ok (.perform ops)⟩
            else ⟨[], .error (.usage .general)⟩
        | word :: rest =>
          match c.below.find? (·.name = word) with
          | none =>
            if c ≠ .main && asksForHelp word then ⟨[], .ok (.explain (helpLines path c))⟩
            else ⟨[], .error (.usage .general)⟩
          | some d =>
            if _h : rest.length < words.length then
              let r := readCommand t (path ++ [word]) ops d rest
              if c = .main then r.behindNotice t choice else r
            else ⟨[], .error (.usage .general)⟩
termination_by words.length

/-- What a command line asks for. -/
def read (t : FileTree) (program : String) (words : List String) : Reading :=
  readCommand t [program] [] .main words

end MplsReach.CommandLine
