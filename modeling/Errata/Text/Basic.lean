/-!
A text is a list of characters. A position in a text is a number of bytes of its UTF-8 form, so a cut
at a position succeeds only between two characters and within the text.
-/

namespace Errata

abbrev Text := List Char

namespace Text

/-- Number of bytes of the UTF-8 form. -/
def size : Text → Nat
  | [] => 0
  | c :: t => c.utf8Size + size t

@[simp] theorem size_nil : size [] = 0 := rfl

@[simp] theorem size_cons (c : Char) (t : Text) : size (c :: t) = c.utf8Size + size t := rfl

@[simp] theorem size_append (s t : Text) : size (s ++ t) = size s + size t := by
  induction s with
  | nil => simp
  | cons c s ih => simp [ih, Nat.add_assoc]

/-- The parts before and after position `n`, if `n` is a position of the text. -/
def cut? : Nat → Text → Option (Text × Text)
  | 0, t => some ([], t)
  | _ + 1, [] => none
  | n + 1, c :: t =>
    if c.utf8Size ≤ n + 1 then
      (cut? (n + 1 - c.utf8Size) t).map fun parts => (c :: parts.1, parts.2)
    else none

/-- The text between two positions, the first of them not after the second. -/
def slice? (start stop : Nat) (t : Text) : Option Text :=
  if start ≤ stop then
    (cut? start t).bind fun parts => (cut? (stop - start) parts.2).map Prod.fst
  else none

/-- The pieces between the occurrences of a separator; there is one more piece than separators. -/
def pieces (separator : Char) : Text → List Text
  | [] => [[]]
  | c :: t =>
    if c = separator then [] :: pieces separator t
    else match pieces separator t with
      | [] => [[c]]
      | piece :: rest => (c :: piece) :: rest

/-- Number of characters before the first occurrence of `needle`. -/
def find? (t needle : Text) : Option Nat :=
  match t with
  | [] => if needle.isEmpty then some 0 else none
  | c :: rest =>
    if needle.isPrefixOf (c :: rest) then some 0 else (find? rest needle).map (· + 1)

def startsWith (t : Text) (start : String) : Bool := start.toList.isPrefixOf t

def endsWith (t : Text) (ending : String) : Bool := ending.toList.isSuffixOf t

/-- What stands before `ending`, if the text ends with it. -/
def beforeEnding? (t : Text) (ending : String) : Option Text :=
  if t.endsWith ending then some (t.take (t.length - ending.toList.length)) else none

/-- The text without its first and last character, as `x` for `_x_`. -/
def undelimited (t : Text) : Text := (t.drop 1).dropLast

/-- Capital letters of ASCII made small. -/
def toLower (t : Text) : Text := t.map Char.toLower

/-- A line without the carriage return that its line break may have begun with. -/
def withoutReturn (line : Text) : Text := if line.endsWith "\r" then line.dropLast else line

/-- The lines of a text for display: they end at a newline, or at a carriage return and a newline,
and a final line break begins no further line. -/
def displayLines (t : Text) : List Text :=
  let all := t.pieces '\n'
  let last := all.getLast?.filter (!·.isEmpty)
  all.dropLast.map withoutReturn ++ last.toList

end Text
end Errata
