import Errata.Text.Scan

/-!
Figures nest. The end of a figure is found by counting the figure tags after its start, the start of the
figure that a text ends with by counting them from the end.
-/

namespace Errata.Figure

def startTag : Scan :=
  .seq [.literal "<figure", .one fun c => Text.isBlank c || c == '>']

def endTag : Scan :=
  .seq [.literal "</figure", .one fun c => Text.isBlank c || c == '>']

/-- A tag of a figure: the number of characters before it, and whether it is an end tag. -/
structure Tag where
  place : Nat
  isEnd : Bool
deriving DecidableEq, Repr

/-- The figure tags of a text that has `place` characters before it. -/
def tagsFrom (place : Nat) : Text → List Tag
  | [] => []
  | c :: t =>
    if startTag.startsIn (c :: t) then ⟨place, false⟩ :: tagsFrom (place + 1) t
    else if endTag.startsIn (c :: t) then ⟨place, true⟩ :: tagsFrom (place + 1) t
    else tagsFrom (place + 1) t

def tags (t : Text) : List Tag := tagsFrom 0 t

/-- The place of the first end tag that closes as many figures as were opened, `depth` of them before
these tags. -/
def endPlace? (depth : Nat) : List Tag → Option Nat
  | [] => none
  | ⟨place, true⟩ :: rest => if depth = 1 then some place else endPlace? (depth - 1) rest
  | ⟨_, false⟩ :: rest => endPlace? (depth + 1) rest

/-- The number of characters of the figure that a text begins with. -/
def width? (t : Text) : Option Nat := do
  let place ← endPlace? 0 (tags t)
  let n ← (t.drop place).findIdx? (· == '>')
  return place + n + 1

theorem width?_pos {t : Text} {n : Nat} (h : width? t = some n) : 0 < n := by
  simp only [width?, Option.bind_eq_bind, Option.bind_eq_some_iff] at h
  obtain ⟨_, _, _, _, hn⟩ := h
  simp only [Option.pure_def, Option.some.injEq] at hn
  omega

/-- The place of the start tag that opens the figure ending last, the tags being given from the last
on. -/
def startPlace? (depth : Nat) : List Tag → Option Nat
  | [] => none
  | ⟨_, true⟩ :: rest => startPlace? (depth + 1) rest
  | ⟨place, false⟩ :: rest => if depth = 1 then some place else startPlace? (depth - 1) rest

/-- The number of characters before the figure that ends last in a text. -/
def opening? (t : Text) : Option Nat := startPlace? 0 (tags t).reverse

end Errata.Figure
