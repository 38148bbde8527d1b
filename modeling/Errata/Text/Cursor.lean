import Errata.Text.Scan

/-!
A cursor stands at a position of a text. A fragment is a piece of text with the position it was read at.
-/

namespace Errata

structure Fragment where
  text : Text
  offset : Nat
deriving DecidableEq, Repr

/-- Position after the last character. -/
def Fragment.stop (f : Fragment) : Nat := f.offset + f.text.size

structure Cursor where
  /-- The character just read, if there is one. -/
  previous : Option Char
  offset : Nat
  rest : Text
deriving DecidableEq, Repr

namespace Cursor

/-- At the start of a text that itself begins at `offset`. -/
def atStart (t : Text) (offset : Nat) : Cursor := { previous := none, offset, rest := t }

def isDone (c : Cursor) : Bool := c.rest.isEmpty

/-- The next `n` characters. -/
def fragment (c : Cursor) (n : Nat) : Fragment := { text := c.rest.take n, offset := c.offset }

/-- Past the next `n` characters. -/
def advance (c : Cursor) (n : Nat) : Cursor where
  previous := (c.rest.take n).getLast?.or c.previous
  offset := c.offset + Text.size (c.rest.take n)
  rest := c.rest.drop n

@[simp] theorem rest_advance (c : Cursor) (n : Nat) : (c.advance n).rest = c.rest.drop n := rfl

/-- Past the characters of a class. -/
def skip (c : Cursor) (p : Char → Bool) : Cursor := c.advance (c.rest.takeWhile p).length

def skipBlanks (c : Cursor) : Cursor := c.skip Text.isBlank

/-- What a scan matches here, and the cursor after it. -/
def scan? (c : Cursor) (s : Scan) : Option (Fragment × Cursor) :=
  (s c.rest).map fun n => (c.fragment n, c.advance n)

theorem skip_length_le (c : Cursor) (p : Char → Bool) :
    (c.skip p).rest.length ≤ c.rest.length := by
  simp [skip]

theorem scan?_length_le {c d : Cursor} {s : Scan} {f : Fragment} (h : c.scan? s = some (f, d)) :
    d.rest.length ≤ c.rest.length := by
  simp only [scan?, Option.map_eq_some_iff, Prod.mk.injEq] at h
  obtain ⟨n, _, _, hd⟩ := h
  simp [← hd]

end Cursor
end Errata
