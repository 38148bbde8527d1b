import Errata.Document.Basic
import Errata.Text.Occurrence
import Errata.Text.Position
import Errata.Text.Scan

/-!
Spellings and blanks that are not wanted anywhere in a source. Each has a pattern that marks the place
of the complaint.
-/

namespace Errata.Spelling

inductive Problem where
  | thisObject
  | complement
  | behaviour
  | emptyString
  | iff
  | trailingBlanks
  | blankLines
  | carriageReturn
  | stepNumber
  | clauseNumber
deriving DecidableEq, Repr

def Problem.message : Problem → String
  | thisObject => "prefer \"*this* value\""
  | complement => "prefer \"one's complement\" or \"two's complement\""
  | behaviour => "\"behavior\" is the preferred spelling"
  | emptyString => "prefer \"the empty String\""
  | iff => "prefer \"iff\""
  | trailingBlanks => "trailing whitespace"
  | blankLines => "no more than one blank line is allowed"
  | carriageReturn => "only Unix-style (LF) linebreaks are allowed"
  | stepNumber =>
    "prefer using labeled steps and <emu-xref> tags over hardcoding step numbers"
  | clauseNumber =>
    "clauses should be referenced using <emu-xref> tags rather than hardcoding clause numbers"

/-- All of what a scan matches is marked. -/
def marking (s : Scan) : Text.Pattern := fun _ t => (s t).map fun width => { lead := 0, width }

/-- What a scan matches at the start of a word. -/
def wordMarking (s : Scan) : Text.Pattern := fun previous t =>
  if Text.isBoundary previous t.head? then marking s previous t else none

/-- A number after a word; its first digit is marked. -/
def numberMarking (noun : List Scan) : Text.Pattern := fun previous t =>
  if Text.isBoundary previous t.head? then
    (Scan.seq (noun ++ [.optional (.char 's'), .char ' ', .one Text.isDigit]) t).map fun width =>
      { lead := width - 1, width }
  else none

/-- Spaces and tabs before the end of a line, which a carriage return may begin. -/
def trailingMarking : Text.Pattern := fun _ t => do
  let n ← Scan.some1 (fun c => c == ' ' || c == '\t') t
  let m ← Scan.optional (.char '\r') (t.drop n)
  if (t.drop (n + m)).head?.all (· == '\n') then some { lead := 0, width := n + m } else none

/-- Three newlines or more, after a character that is none or at the start of the text. The third is
marked. -/
def blankLinesMarking : Text.Pattern := fun previous t =>
  let lead := if t.head? = some '\n' then 0 else 1
  let n := ((t.drop lead).takeWhile (· == '\n')).length
  if lead = 0 && previous.isSome then none
  else if 3 ≤ n then some { lead := lead + 2, width := lead + n }
  else none

def Problem.pattern : Problem → Text.Pattern
  | thisObject => marking (.literal "*this* object")
  | complement =>
    wordMarking (.seq [.one fun c => c == '1' || c == '2', .literal "'s complement"])
  | behaviour => wordMarking (.seq [.one fun c => c == 'B' || c == 'b', .literal "ehaviour"])
  | emptyString => marking (.literal "the empty string")
  | iff => wordMarking (.seq [.literal "IIF", .notBefore Text.isWord])
  | trailingBlanks => trailingMarking
  | blankLines => blankLinesMarking
  | carriageReturn => marking (.char '\r')
  | stepNumber => numberMarking [.one fun c => c == 'S' || c == 's', .literal "tep"]
  | clauseNumber => numberMarking [.one fun c => c == 'C' || c == 'c', .literal "lause"]

/-- The problems in the order in which a source is searched for them. -/
def problems : List Problem :=
  [.thisObject, .complement, .behaviour, .emptyString, .iff, .trailingBlanks, .blankLines,
    .carriageReturn, .stepNumber, .clauseNumber]

/-- A misspelling with the line and the column of its place. -/
structure Misspelling where
  problem : Problem
  line : Nat
  column : Nat
deriving DecidableEq, Repr

/-- The misspellings of one kind in a text. -/
def misspellingsOf (t : Text) (problem : Problem) : List Misspelling :=
  (Text.occurrences problem.pattern t).map fun place =>
    let (line, column) := Text.positionAfter (t.take place)
    { problem, line, column }

def misspellings (t : Text) : List Misspelling := problems.flatMap (misspellingsOf t)

end Errata.Spelling
