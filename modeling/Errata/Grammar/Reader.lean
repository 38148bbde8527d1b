import Errata.Grammar.RightHandSide
import Errata.Text.Lines

/-!
A text of grammar is a list of groups of lines. A line that is indented no more than the first begins a
group: it is the header of a production, and the lines under it are the right-hand sides.
-/

namespace Errata.Grammar

/-! ## Headers -/

/-- The right-hand sides of a production as far as they have been read. -/
inductive Body where
  | listed (rightHandSides : List RightHandSide)
  /-- The alternatives after `one of`, and where the first of them begin. -/
  | oneOf (found : Option (Nat × List Symbol))

def Body.rightHandSides : Body → List RightHandSide
  | .listed sides => sides
  | .oneOf none => []
  | .oneOf (some (offset, alternatives)) =>
    [{ guard := none, symbols := [.oneOf ⟨false, offset⟩ alternatives], offset }]

/-- Adds alternatives that begin at `offset`. -/
def addAlternatives (found : Option (Nat × List Symbol)) (offset : Nat) (symbols : List Symbol) :
    Option (Nat × List Symbol) :=
  match found with
  | none => some (offset, symbols)
  | some (start, before) => some (start, before ++ symbols)

/-- A header cut into its parts. -/
structure HeaderParts where
  name : Text
  /-- What stands between the brackets after the name. -/
  parameters : Option Fragment
  /-- What follows the colons. -/
  tail : Option Cursor

/-- The list of parameters after a name. -/
def parametersAt (c : Cursor) : Option Fragment × Cursor :=
  match c.rest with
  | '[' :: t =>
    let n := (t.takeWhile (· ≠ ']')).length
    if n < t.length then (some ((c.advance 1).fragment n), c.advance (n + 2)) else (none, c)
  | _ => (none, c)

def headerParts? (line : Line) : Option HeaderParts := do
  let (name, afterName) ← (Cursor.atStart line.text line.start).scan? nameScan
  let (parameters, afterParameters) := parametersAt afterName
  let (_, tail) ← afterParameters.scan?
    (.seq [.blanks, .first [.literal ":::", .literal "::", .literal ":"]])
  match tail.rest with
  | [] => return { name := name.text, parameters, tail := none }
  | c :: _ =>
    if Text.isBlank c then
      return { name := name.text, parameters, tail := some tail.skipBlanks }
    else none

/-- The parameters in the pieces of a list, the first of which begins at `offset`. -/
def parametersOf (offset : Nat) : List Text → Except SyntaxError (List Parameter)
  | [] => .ok []
  | piece :: pieces =>
    let start := offset + (piece.size - piece.trimStart.size)
    if nameScan.coversAll piece.trim then do
      let others ← parametersOf (offset + piece.size + 1) pieces
      return { name := piece.trim, offset := start } :: others
    else .error ⟨start, .parameterName⟩

/-- What the header's own line says of the right-hand sides. -/
def headerBody (tail : Cursor) : Except SyntaxError Body :=
  match keyword? oneOfScan tail with
  | some alternatives =>
    if alternatives.isDone then .ok (.oneOf none)
    else do
      let symbols ← alternativesAt alternatives
      return .oneOf (some (alternatives.offset, symbols))
  | none => do return .listed [← rightHandSideAt tail]

/-- A production as its header begins it, with the body so far. -/
def headerOf (source : Nat) (line : Line) : Except SyntaxError (Production × Body) :=
  match headerParts? line with
  | none => .error ⟨line.start, .production⟩
  | some parts => do
    let parameters ←
      match parts.parameters with
      | none => .ok []
      | some list => parametersOf list.offset (list.text.pieces ',')
    let body ←
      match parts.tail with
      | none => .ok (.listed [])
      | some tail => headerBody tail
    let production : Production :=
      { name := parts.name, offset := line.start, source, parameters, rightHandSides := [] }
    return (production, body)

/-! ## Groups -/

/-- Adds what a line under the header says. -/
def Body.add (body : Body) (line : Line) : Except SyntaxError Body :=
  let start := Cursor.atStart line.text line.start
  match body with
  | .listed sides => do return .listed (sides ++ [← rightHandSideAt start])
  | .oneOf found => do return .oneOf (addAlternatives found line.start (← alternativesAt start))

/-- Adds the lines under the header. A line that cannot be read is left out and its error kept. -/
def Body.addAll (body : Body) : List Line → Body × List SyntaxError
  | [] => (body, [])
  | line :: lines =>
    match body.add line with
    | .ok more => more.addAll lines
    | .error e =>
      let (final, errors) := body.addAll lines
      (final, e :: errors)

/-- The production of a header and the lines under it, and the errors in them. Nothing is read under a
header that has an error, and a production has at least one right-hand side. -/
def readGroup (source : Nat) (header : Line) (lines : List Line) :
    Option Production × List SyntaxError :=
  match headerOf source header with
  | .error e => (none, [e])
  | .ok (production, start) =>
    let (body, errors) := start.addAll lines
    match body.rightHandSides with
    | [] => (none, errors ++ [⟨header.start, .rightHandSide⟩])
    | sides => (some { production with rightHandSides := sides }, errors)

/-- The lines before the first header, and each header with the lines under it. -/
def groupLines (indent : Nat) : List Line → List Line × List (Line × List Line)
  | [] => ([], [])
  | line :: lines =>
    let (under, groups) := groupLines indent lines
    if indent < line.indent then (line :: under, groups) else ([], (line, under) :: groups)

/-- The headers of a text with the lines under them. -/
def groups (text : Text) : List (Line × List Line) :=
  match text.lines with
  | [] => []
  | first :: lines => (groupLines first.indent (first :: lines)).2

def SyntaxError.diagnostic (source : Nat) (e : SyntaxError) : Diagnostic :=
  { source, offset := e.offset, problem := .missing e.expected }

/-- The productions of one text, which is the text number `source`. -/
def readSource (source : Nat) (text : Text) : Compilation :=
  let read := (groups text).map fun (header, lines) => readGroup source header lines
  { productions := read.filterMap Prod.fst
    diagnostics := (read.flatMap Prod.snd).map (·.diagnostic source) }

end Errata.Grammar
