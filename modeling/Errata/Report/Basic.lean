import Errata.Diagnostic

/-!
A report is a diagnostic with its file, line and column. Reports are given in the order of their lines
and columns, whatever their files are.
-/

namespace Errata

structure Report where
  rule : Rule
  message : String
  file : Path
  line : Nat
  column : Nat
  source : SourceId
deriving DecidableEq, Repr

namespace Report

/-- The report of a diagnostic. -/
def ofDiagnostic (doc : Document) (d : Diagnostic) : Except Fault Report := do
  let (source, line, column) ← d.location.resolve doc
  match doc.sources[source]? with
  | none => throw (.noSuchSource source)
  | some { filename, .. } =>
    return {
      rule := d.problem.rule
      message := d.problem.message
      file := filename
      line := line
      column := column
      source := source }

/-- Whether the position of a report is not after that of another. -/
def le (a b : Report) : Bool := a.line < b.line || (a.line = b.line && a.column ≤ b.column)

/-- Reports in the order of their positions. Reports at one position keep their order. -/
def inOrder (reports : List Report) : List Report := reports.mergeSort le

end Report
end Errata
