/-
The symbols on the stack of a packet's labels.

* `StackSymbol`: labels, the mark below them, and the mark on top while a header is being built.
* `StackSymbol.ofLabel`: an absent label stands for the bottom of the stack.
-/
import MplsReach.Network.Label

namespace MplsReach

/-- A symbol on the stack. -/
inductive StackSymbol where
  /-- Below all labels. -/
  | bottom
  /-- On top of all labels while a header is being built. -/
  | marker
  | label (name : String)
deriving DecidableEq, Repr, Hashable

namespace StackSymbol

/-- The symbol of a label. -/
def ofLabel : Label → StackSymbol
  | .named s => label s
  | .absent _ => bottom

/-- The short form of a symbol. -/
def render : StackSymbol → String
  | bottom => "<BOS>"
  | marker => "<STAR>"
  | label s => s

/-- What the value of a symbol is shown as. -/
def describeValue : StackSymbol → String
  | bottom => "<SpecialLabel.BOS: 1>"
  | marker => "<SpecialLabel.STAR: 2>"
  | label s => "<Label " ++ Text.quote s ++ "@>"

/-- The text of a symbol. -/
def text : StackSymbol → String
  | bottom => "SpecialLabel.BOS"
  | marker => "SpecialLabel.STAR"
  | label s => "<Label " ++ Text.quote s ++ "@>"

end StackSymbol

end MplsReach
