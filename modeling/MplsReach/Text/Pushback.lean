/-
A source of characters to which things can be given back.

* `Pushback`: what was given back, the source, and the position in it.
* `Pushback.read`: the next thing; an empty one at the end of the source.
* `Pushback.peek`: the next thing without taking it. Only a source of bytes can step back, and it
  steps back at its end too, where it has not read anything.
-/
import MplsReach.Fault

namespace MplsReach.Text

/-- A source and the things of type `α` that were given back. -/
structure Pushback (α : Type) where
  /-- What was given back, the last in front. -/
  returned : List α
  source : List Char
  position : Nat
  /-- Whether the source can step back. -/
  seekable : Bool

namespace Pushback

variable {α : Type}

/-- A source at its start. -/
def start (source : List Char) (seekable : Bool) : Pushback α := ⟨[], source, 0, seekable⟩

/-- What the source has at its position. -/
def current (p : Pushback α) : List Char := (p.source.drop p.position).take 1

/-- The source behind its current character. -/
def advance (p : Pushback α) : Pushback α :=
  { p with position := p.position + p.current.length }

/-- The next thing, and the source behind it. -/
def read (ofChars : List Char → α) (p : Pushback α) : α × Pushback α :=
  match p.returned with
  | a :: as => (a, { p with returned := as })
  | [] => (ofChars p.current, p.advance)

/-- The next thing, and the source that is left. -/
def peek (ofChars : List Char → α) (p : Pushback α) : Except Fault α × Pushback α :=
  match p.returned, p.seekable with
  | a :: _, _ => (.ok a, p)
  | [], true => (.ok (ofChars p.current), { p.advance with position := p.advance.position - 1 })
  | [], false => (.error .unseekable, p.advance)

/-- A thing is given back. -/
def unread (a : α) (p : Pushback α) : Pushback α := { p with returned := a :: p.returned }

end Pushback

end MplsReach.Text
