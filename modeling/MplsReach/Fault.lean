/-
What can go wrong, as one type of causes.

* `Fault`: every way in which reading, building or checking can end without a result.
* `Fault.kind`: the class that a caller distinguishes.
* `Fault.message`: the wording, where the cause has one.
-/

namespace MplsReach

/-- Why a well-formed request is turned down. -/
inductive Refusal where
  | interfaceTaken
  | popOnEthernet
  | swapOnEthernet
  | unknownDestination
  | unknownAction
  | unknownRule
  | invalidAction (op : String)
  | convertedTwice
  | noLinkAtEntry
  | queryForm
  | unknownQuantifier
  | notOneCharacter
  | fixedText (token : String)
  | exitFragments
  | unknownTransition (text : String)
  | noVerdict
  | joinedToItself
deriving DecidableEq, Repr

/-- The wording of a refusal. -/
def Refusal.message : Refusal → String
  | .interfaceTaken =>
    "Interface already connected to other interface." ++
      "Interface can only be connected to one other interface"
  | .popOnEthernet => "PopAction is illegal for EthernetRule"
  | .swapOnEthernet => "SwapAction is illegal for EthernetRule"
  | .unknownDestination => "Unknown destination type"
  | .unknownAction => "Unknown action type"
  | .unknownRule => "Someone added a new rule type and forgot this code"
  | .invalidAction op => "Invalid action " ++ op
  | .convertedTwice => "Tried to convert NFA to PDA twice"
  | .noLinkAtEntry => "Link with s2 not found in network"
  | .queryForm => "query must be str or IOBase"
  | .unknownQuantifier => "Unknown quantifier"
  | .notOneCharacter => "Only single characters can be assigned"
  | .fixedText token => "Cannot change " ++ token ++ " text."
  | .exitFragments => "There has to be EXACTLY a single exit fragment"
  | .unknownTransition text => "Unkonwn transition type " ++ text
  | .noVerdict => "¿Qué"
  | .joinedToItself => "Set changed size during iteration"

/-- A mistake on the command line. -/
inductive UsageMistake where
  | general
  | badParameter
  | missingParameter
  | unknownOption
  | badOptionUsage
  | badArgumentUsage
  | noSuchFile
deriving DecidableEq, Repr

/-- The cause of a failure. -/
inductive Fault where
  /-- A name, or a missing name, that a dictionary does not hold. -/
  | unknownName (name : Option String)
  /-- One side of a link names an interface that its router does not have. -/
  | linkInterface (router interface : Option String)
  /-- A destination arrives on an interface that its router does not have. -/
  | arrivalInterface (router interface : Option String)
  /-- A part that the operation needs is missing. -/
  | missingPart
  /-- A value of a kind that the operation cannot take. -/
  | wrongKind
  /-- A text that does not denote a value of the wanted type. -/
  | badValue
  /-- A position outside a sequence. -/
  | outOfRange
  /-- A name that nothing defines. -/
  | undefinedName
  /-- A document that is not well-formed. -/
  | malformedXml
  /-- A name with a prefix that is not known where the name is given. -/
  | unboundName
  /-- No token starts here. -/
  | unknownToken (line column : Int) (text : String)
  /-- A token that no rule of the grammar allows here. -/
  | unexpectedToken (line column : Int) (expected : List String)
  | refused (reason : Refusal)
  /-- A location that may be set once is set again. -/
  | setTwice
  /-- Text follows a complete action. -/
  | trailingText (action : String)
  /-- A construct that is recognised and not supported. -/
  | unsupported
  /-- An action of no known kind has no written form. -/
  | unwritableAction
  /-- A node of no particular kind supports nothing. -/
  | abstractNode
  /-- A search that never ends. -/
  | endless
  /-- A sequence is at its end. -/
  | exhausted
  /-- A stream that cannot step back. -/
  | unseekable
  /-- A path at which there is no text. -/
  | unreadable
  | usage (mistake : UsageMistake)
  | noSuchFile
  /-- A directory where a file is needed. -/
  | isDirectory
  /-- A path that goes through something that is no directory. -/
  | notDirectory
  /-- A place at which there is something already. -/
  | alreadyThere
  /-- A name that is longer than names may be. -/
  | nameTooLong
deriving DecidableEq, Repr

/-- The classes of faults that callers distinguish. -/
inductive FaultKind where
  | key | part | kind | value | range | name | xml | naming | token | grammar
  | refusal | assertion | unsupported | endless | exhausted | stream
  | usage (mistake : UsageMistake) | file | directory | noDirectory | taken
deriving DecidableEq, Repr

namespace Fault

/-- The class of a fault. -/
def kind : Fault → FaultKind
  | unknownName _ | linkInterface .. | arrivalInterface .. => .key
  | missingPart => .part
  | wrongKind => .kind
  | badValue => .value
  | outOfRange => .range
  | undefinedName => .name
  | malformedXml => .xml
  | unboundName => .naming
  | unknownToken .. => .token
  | unexpectedToken .. => .grammar
  | refused _ => .refusal
  | setTwice | trailingText _ => .assertion
  | unsupported | unwritableAction | abstractNode => .unsupported
  | endless => .endless
  | exhausted => .exhausted
  | unseekable | unreadable | nameTooLong => .stream
  | usage m => .usage m
  | noSuchFile => .file
  | isDirectory => .directory
  | notDirectory => .noDirectory
  | alreadyThere => .taken

/-- A place in a text, as it is written in front of a message. -/
def place (line column : Int) : String :=
  "[" ++ toString line ++ "," ++ toString column ++ "]"

/-- The wording of a fault, for the causes that have one. -/
def message : Fault → Option String
  | unknownName name => name
  | linkInterface _ i => i
  | arrivalInterface _ i => i
  | unknownToken l c text => some (place l c ++ " Unknown token: " ++ text)
  | unexpectedToken l c expected =>
    some (place l c ++ " expecting: " ++ ", ".intercalate expected)
  | refused r => some r.message
  | trailingText action => some ("Unknown text at end of " ++ action)
  | unwritableAction => some "Unknown action type \x60NoneType"
  | abstractNode => some "abstract must be implemented in subclass"
  | _ => none

end Fault

end MplsReach
