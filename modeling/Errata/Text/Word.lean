import Errata.Text.Alphabetic
import Errata.Text.Digit
import Errata.Text.Mark
import Errata.Text.Numeral
import Errata.Text.Recent

/-!
Classes of characters that words are made of. The classes `isDigit` and `isWord`, which patterns are
written in, are those of the edition of Unicode before the last.
-/

namespace Errata.Text

def isAsciiLetter (c : Char) : Bool := c.isAlpha

def isAsciiAlphanum (c : Char) : Bool := c.isAlphanum

/-- A decimal digit of any script. -/
def isDigit (c : Char) : Bool :=
  if isAscii c then c.isDigit else !recent.contains c && decimalDigit.contains c

/-- A letter or a numeral of any script. -/
def isAlphanumeric (c : Char) : Bool :=
  if isAscii c then c.isAlphanum
  else alphabetic.contains c || decimalDigit.contains c || numeral.contains c

/-- Punctuation that joins words, as the underscore does. -/
def connector : Ranges :=
  [(0x203F, 0x2040), (0x2054, 0x2054), (0xFE33, 0xFE34), (0xFE4D, 0xFE4F), (0xFF3F, 0xFF3F)]

/-- The joiner and non-joiner of zero width. -/
def joinControl : Ranges := [(0x200C, 0x200D)]

/-- A character of a word: a letter, a mark, a digit, or something that joins these. -/
def isWord (c : Char) : Bool :=
  if isAscii c then c.isAlphanum || c == '_'
  else !recent.contains c && (alphabetic.contains c || mark.contains c || decimalDigit.contains c ||
    connector.contains c || joinControl.contains c)

/-- Whether a word begins or ends between two neighbouring characters. -/
def isBoundary (before after : Option Char) : Bool :=
  before.any isWord != after.any isWord

/-- A character before which, or after which, a delimited token cannot stand. -/
def isTokenChar (c : Char) : Bool := isAlphanumeric c || c == '_'

end Errata.Text
