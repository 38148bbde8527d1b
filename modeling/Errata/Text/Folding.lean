import Errata.Text.Basic

/-!
Comparison of a text with a word of ASCII letters in any case. Beside the capital letters, the long s
and the Kelvin sign fold to letters of ASCII.
-/

namespace Errata.Text

def fold (c : Char) : Char :=
  if c = '\u017f' then 's' else if c = '\u212a' then 'k' else c.toLower

/-- Whether a text begins with a word of small letters, in any case. -/
def startsWithFolded (t : Text) (start : String) : Bool :=
  start.toList.isPrefixOf (t.map fold)

end Errata.Text
