import Errata.Report.Basic
import Errata.Report.Details
import Errata.Text.Blank

/-!
Printed forms of a report: one line, or the line of the source that it is about with an explanation.
-/

namespace Errata.Report

/-- The report in one line. -/
def concise (palette : Palette) (r : Report) : String :=
  palette .error "error" ++ ": " ++ palette .filename (String.ofList r.file) ++ ":" ++
    r.line.repr ++ ":" ++ r.column.repr ++ " " ++ palette .problem r.message ++ " " ++
    palette .rule ("[" ++ r.rule.code ++ "]")

/-- The line of the source that a report is about, if the source has it. -/
def excerpt? (doc : Document) (r : Report) : Option Text :=
  doc.sources[r.source]?.bind fun source => source.text.displayLines[r.line - 1]?

def spaces (n : Nat) : String := String.ofList (List.replicate n ' ')

/-- The width of the column of line numbers. -/
def gutterWidth (r : Report) : Nat := max 3 r.line.repr.length

def lineNumber (r : Report) : String := spaces (r.gutterWidth - r.line.repr.length) ++ r.line.repr

/-- The lines of the full form of a report. -/
def fullLines (palette : Palette) (doc : Document) (r : Report) : List String :=
  let margin := spaces r.gutterWidth ++ " " ++ palette .gutter "|"
  let line := String.ofList ((r.excerpt? doc).getD ['?'])
  [ r.concise palette,
    "",
    margin,
    palette .gutter r.lineNumber ++ " " ++ palette .gutter "|" ++ " " ++ palette .excerpt line,
    margin ++ " " ++ spaces (r.column - 1) ++ palette .caret "^",
    "",
    details palette r.rule ]

/-- The report with an excerpt and an explanation. -/
def full (palette : Palette) (doc : Document) (r : Report) : String :=
  String.ofList (Text.trimAscii ("\n".intercalate (r.fullLines palette doc)).toList)

end Errata.Report
