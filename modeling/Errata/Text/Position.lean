import Errata.Text.Basic

/-!
Positions for readers: lines and columns count from one, a line ends at its newline, and a column counts
characters.
-/

namespace Errata.Text

/-- Number of newlines in a text. -/
def newlines (t : Text) : Nat := t.count '\n'

/-- Number of characters after the last newline. -/
def lastLineLength (t : Text) : Nat := (t.reverse.takeWhile (· ≠ '\n')).length

/-- Line and column reached by reading `before`. -/
def positionAfter (before : Text) : Nat × Nat :=
  (before.newlines + 1, before.lastLineLength + 1)

/-- Line and column at a position of `t`. A position past the end counts as the end. -/
def lineColumn? (t : Text) (offset : Nat) : Option (Nat × Nat) :=
  (cut? (min offset t.size) t).map fun parts => positionAfter parts.1

end Errata.Text
