/-!
Character properties of Unicode are kept as tables of ranges of code points, in increasing order and
with both ends included. The tables leave out ASCII, whose members are told apart by hand.
-/

namespace Errata.Text

/-- Ranges of code points, both ends included. -/
abbrev Ranges := List (Nat × Nat)

/-- Whether the code point of `c` lies in one of the ranges. -/
def Ranges.contains (table : Ranges) (c : Char) : Bool :=
  table.any fun range => range.1 ≤ c.toNat && c.toNat ≤ range.2

/-- Whether `c` is one of the first 128 code points. -/
def isAscii (c : Char) : Bool := c.toNat < 128

end Errata.Text
