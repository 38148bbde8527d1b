import Errata.Text.Basic

/-!
Occurrences of a pattern in a text. They are found from left to right, and none begins inside the one
before it.
-/

namespace Errata.Text

/-- Where a pattern matches: the part that it marks begins after `lead` characters, and the match has
`width` characters. -/
structure Hit where
  lead : Nat
  width : Nat

/-- A pattern looks at the character before a place and at the text from there on. -/
abbrev Pattern := Option Char → Text → Option Hit

/-- The places of the parts that a pattern marks, counted in characters. The text has `place` characters
before it, the last of them is `previous`, and `skip` characters of it belong to an earlier match. -/
def occurrencesFrom (pattern : Pattern) (skip place : Nat) (previous : Option Char) :
    Text → List Nat
  | [] => []
  | c :: t =>
    match skip with
    | skip + 1 => occurrencesFrom pattern skip (place + 1) (some c) t
    | 0 =>
      match pattern previous (c :: t) with
      | some hit =>
        (place + hit.lead) :: occurrencesFrom pattern (hit.width - 1) (place + 1) (some c) t
      | none => occurrencesFrom pattern 0 (place + 1) (some c) t

def occurrences (pattern : Pattern) (t : Text) : List Nat := occurrencesFrom pattern 0 0 none t

end Errata.Text
