import Errata.Document.Position
import Errata.Grammar.Consistency
import Errata.Header
import Errata.Scope.Action
import Errata.Spelling
import Errata.Step.Basic
import Errata.Style.Problem

/-!
All problems that a document can have, and where they are.
-/

namespace Errata

inductive Problem where
  | spelling (problem : Spelling.Problem)
  | collection (problem : Collection.Problem)
  | grammar (problem : Grammar.Consistency.Problem)
  /-- The steps of an algorithm could not be told apart. -/
  | algorithm (error : StepError)
  /-- The content of a step could not be parsed. -/
  | expression (error : StepError)
  | style (problem : Style.Problem)
  | scope (problem : Scope.Problem)
  | header (problem : Header.Problem)

namespace Problem

def rule : Problem → Rule
  | spelling _ => .spelling
  | collection problem => problem.rule
  | grammar problem => problem.rule
  | algorithm _ => .algorithmError
  | expression _ => .expressionParsing
  | style problem => problem.rule
  | scope problem => problem.rule
  | header problem => problem.rule

def message : Problem → String
  | spelling problem => problem.message
  | collection problem => problem.message
  | grammar problem => problem.message
  | algorithm error => error.message
  | expression error => error.message
  | style problem => problem.message
  | scope problem => problem.message
  | header problem => problem.message

end Problem

inductive Location where
  /-- A position of the source that the element was read from. -/
  | inElement (element : NodeId) (offset : Nat)
  | inSource (source : SourceId) (line column : Nat)
deriving DecidableEq, Repr

structure Diagnostic where
  problem : Problem
  location : Location

namespace Diagnostic

def ofComplaint (c : Complaint Problem) : Diagnostic :=
  { problem := c.problem, location := .inElement c.element c.offset }

def ofMisspelling (source : SourceId) (m : Spelling.Misspelling) : Diagnostic :=
  { problem := .spelling m.problem, location := .inSource source m.line m.column }

end Diagnostic

namespace Location

/-- The source, the line and the column of a location. -/
def resolve (doc : Document) : Location → Except Fault (SourceId × Nat × Nat)
  | .inSource source line column => .ok (source, line, column)
  | .inElement element offset => do
    let source := ((doc.element? element).map Element.source).getD 0
    let (line, column) ← doc.lineColumn source offset
    return (source, line, column)

end Location
end Errata
