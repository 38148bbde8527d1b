import Errata.Step.Basic
import Errata.Text.Lines

/-!
The first line of a step: its marker, its attributes, and the beginning of its content.
-/

namespace Errata.Step

/-- A number with a point, or a star. -/
def markerSign : Scan :=
  .first [.seq [.some1 Text.isDigit, .char '.'], .char '*']

/-- The number of characters of the marker that a line begins with. Blanks or the end of the line
follow it. -/
def marker? (t : Text) : Option Nat := do
  let n ← markerSign t
  let _ ← Scan.first [.blanks1, .done] (t.drop n)
  return n

def isMarked (line : Line) : Bool := (marker? line.text).isSome

def isKeyChar (c : Char) : Bool := Text.isAsciiAlphanum c || c == '-'

/-- The key of an attribute with what stands before and after it. -/
def keyScan : Scan :=
  .seq [.blanks, .word isKeyChar, .blanks, .char '=', .blanks, .char '"']

/-- Whether attributes begin here. -/
def hasAttributes (t : Text) : Bool := Scan.startsIn (.seq [.char '[', keyScan]) t

/-- One attribute. -/
def attributeAt? (c : Cursor) : Option (StepAttribute × Cursor) := do
  let (key, afterKey) ← c.skipBlanks.scan? (.word isKeyChar)
  let (_, inQuotes) ← afterKey.scan? (.seq [.blanks, .char '=', .blanks, .char '"'])
  let n := (inQuotes.rest.takeWhile (· ≠ '"')).length
  if n < inQuotes.rest.length then
    some (⟨key, inQuotes.fragment n⟩, inQuotes.advance (n + 1))
  else none

theorem attributeAt?_lt {c d : Cursor} {a : StepAttribute} (h : attributeAt? c = some (a, d)) :
    d.rest.length < c.rest.length := by
  simp only [attributeAt?, Option.bind_eq_bind, Option.bind_eq_some_iff] at h
  obtain ⟨⟨key, afterKey⟩, hkey, ⟨sign, inQuotes⟩, hquotes, h⟩ := h
  have hle₁ := Cursor.scan?_length_le hkey
  have hle₂ := Cursor.scan?_length_le hquotes
  have hle₀ := c.skip_length_le Text.isBlank
  simp only [Cursor.skipBlanks] at hle₁ hle₂ h
  split at h
  · simp only [Option.some.injEq, Prod.mk.injEq] at h
    rw [← h.2]
    simp only [Cursor.rest_advance, List.length_drop]
    omega
  · simp at h

/-- The attributes from here through the closing bracket and the blanks after it. -/
def attributesAt (c : Cursor) : Except StepError (List StepAttribute × Cursor) :=
  match h : attributeAt? c with
  | none => .error (.invalidAttributes c.offset)
  | some (first, d) =>
    have := attributeAt?_lt h
    match d.skipBlanks.rest with
    | ',' :: _ => do
      let (others, last) ← attributesAt (d.skipBlanks.advance 1).skipBlanks
      return (first :: others, last)
    | ']' :: _ => return ([first], (d.skipBlanks.advance 1).skipBlanks)
    | _ => .error (.invalidAttributes d.offset)
termination_by c.rest.length
decreasing_by
  have hle₁ := d.skip_length_le Text.isBlank
  have hle₂ := (d.skipBlanks.advance 1).skip_length_le Text.isBlank
  simp only [Cursor.skipBlanks, Cursor.rest_advance, List.length_drop] at *
  omega

/-- The first line of a step. -/
structure Head where
  marker : Fragment
  attributes : List StepAttribute
  /-- Where the content begins. -/
  content : Cursor

def headOf (line : Line) : Except StepError Head := do
  let start := Cursor.atStart line.text line.start
  match marker? line.text with
  | none => throw (.expectedStep line.start)
  | some n =>
    let marker := start.fragment n
    let body := (start.advance n).skipBlanks
    if hasAttributes body.rest then
      let (attributes, content) ← attributesAt (body.advance 1)
      return { marker, attributes, content }
    else return { marker, attributes := [], content := body }

end Errata.Step
