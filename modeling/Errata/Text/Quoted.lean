import Errata.Text.Basic
import Errata.Text.Extending
import Errata.Text.Unprintable

/-!
Names are quoted in messages: a name stands between double quotes, and a character that would not show
there as itself is written as an escape.
-/

namespace Errata.Text

/-- Whether `c` is drawn by itself. -/
def isPrintable (c : Char) : Bool :=
  if isAscii c then 0x20 ≤ c.toNat && c.toNat < 0x7F
  else !(extending.contains c || unprintable.contains c)

/-- The code point in small hexadecimal digits, without leading zeros. -/
def codePoint (c : Char) : Text := Nat.toDigits 16 c.toNat

def escape (c : Char) : Text :=
  if c == '\x00' then ['\\', '0']
  else if c == '\t' then ['\\', 't']
  else if c == '\n' then ['\\', 'n']
  else if c == '\r' then ['\\', 'r']
  else if c == '"' then ['\\', '"']
  else if c == '\\' then ['\\', '\\']
  else if isPrintable c then [c]
  else ['\\', 'u', '\x7b'] ++ codePoint c ++ ['\x7d']

def quoted (t : Text) : String := String.ofList ('"' :: t.flatMap escape ++ ['"'])

end Errata.Text
