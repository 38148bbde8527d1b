import Errata.Document.Basic
import Errata.Text.Cursor

/-!
Tags of markup. A start tag has a name, attributes and maybe a slash before its end; the values of
attributes stand between quotes or are bare. What does not have this form is no tag.
-/

namespace Errata.Markup

/-- A start tag. -/
structure Tag where
  name : Text
  attributes : List Attribute
  /-- Whether the tag ends with a slash, and so needs no end tag. -/
  closed : Bool
deriving DecidableEq, Repr

def isNameChar (c : Char) : Bool := Text.isAsciiAlphanum c || c == '-'

def isAttributeNameChar (c : Char) : Bool :=
  !(Text.isBlank c || c == '"' || c == '\x27' || c == '>' || c == '/' || c == '=')

def isBareValueChar (c : Char) : Bool :=
  !(Text.isBlank c || c == '"' || c == '\x27' || c == '=' || c == '<' || c == '>' || c == '\x60')

/-- A value up to the given closing quote, and the number of characters with that quote. -/
def quotedValue? (quote : Char) (t : Text) : Option (Text × Nat) :=
  let value := t.takeWhile (· ≠ quote)
  if value.length < t.length then some (value, value.length + 1) else none

/-- A value and the number of its characters with its quotes. -/
def value? : Text → Option (Text × Nat)
  | '"' :: t => (quotedValue? '"' t).map fun (value, n) => (value, n + 1)
  | '\x27' :: t => (quotedValue? '\x27' t).map fun (value, n) => (value, n + 1)
  | t =>
    let value := t.takeWhile isBareValueChar
    if value.isEmpty then none else some (value, value.length)

/-- An equals sign and a value, with the blanks around the sign. -/
def assignment? (t : Text) : Option (Text × Nat) := do
  let n ← Scan.seq [.blanks, .char '=', .blanks] t
  let (value, m) ← value? (t.drop n)
  return (value, n + m)

/-- An attribute and the number of its characters. Without a value its value is empty. -/
def attribute? (t : Text) : Option (Attribute × Nat) :=
  let name : Text := t.takeWhile isAttributeNameChar
  if name.isEmpty then none
  else
    let (value, n) := (assignment? (t.drop name.length)).getD ([], 0)
    some ({ name := name.toLower, value }, name.length + n)

/-- What follows the name of a start tag: the attributes, whether a slash closes the tag, and the number
of characters. -/
def tagRest? (t : Text) : Option (List Attribute × Bool × Nat) :=
  let blanks := (t.takeWhile Text.isBlank).length
  match t.drop blanks with
  | '>' :: _ => some ([], false, blanks + 1)
  | '/' :: '>' :: _ => some ([], true, blanks + 2)
  | after =>
    if blanks = 0 ∨ t.length < blanks then none
    else match attribute? after with
      | none => none
      | some (first, n) =>
        (tagRest? (t.drop (blanks + n))).map fun (others, closed, m) =>
          (first :: others, closed, blanks + n + m)
termination_by t.length
decreasing_by simp only [List.length_drop]; omega

/-- A start tag and the number of its characters. -/
def startTag? (t : Text) : Option (Tag × Nat) := do
  let n ← Scan.seq [.char '<', .word isNameChar] t
  let (attributes, closed, m) ← tagRest? (t.drop n)
  return ({ name := Text.toLower ((t.take n).drop 1), attributes, closed }, n + m)

theorem startTag?_pos {t : Text} {tag : Tag} {n : Nat} (h : startTag? t = some (tag, n)) :
    0 < n := by
  simp only [startTag?, Option.bind_eq_bind, Option.bind_eq_some_iff] at h
  obtain ⟨k, hk, _, _, hn⟩ := h
  have hpos := Scan.seq_char_pos hk
  simp only [Option.pure_def, Option.some.injEq, Prod.mk.injEq] at hn
  omega

/-- The name of an end tag and the number of the tag's characters. -/
def endTag? (t : Text) : Option (Text × Nat) := do
  let n ← Scan.seq [.literal "</", .word isNameChar] t
  let m ← Scan.seq [.blanks, .char '>'] (t.drop n)
  return (Text.toLower ((t.take n).drop 2), n + m)

theorem endTag?_pos {t : Text} {name : Text} {n : Nat} (h : endTag? t = some (name, n)) :
    0 < n := by
  simp only [endTag?, Option.bind_eq_bind, Option.bind_eq_some_iff] at h
  obtain ⟨k, hk, _, _, hn⟩ := h
  obtain ⟨a, b, ha, _, hsum⟩ := Scan.seq_cons_eq_some_iff.mp hk
  have htwo : a = 2 := (Scan.literal_eq_some_iff.mp ha).2
  simp only [Option.pure_def, Option.some.injEq, Prod.mk.injEq] at hn
  omega

end Errata.Markup
