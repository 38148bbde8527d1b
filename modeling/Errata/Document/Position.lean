import Errata.Document.Basic
import Errata.Text.Position

/-!
Lines and columns in the sources of a document.
-/

namespace Errata.Document

/-- The part of a source before a position. -/
def before (doc : Document) (source : SourceId) (offset : Nat) : Except Fault Text := do
  match (← doc.sourceText source).cut? offset with
  | some (part, _) => return part
  | none => throw (.noSuchPosition source offset)

/-- Line and column at a position of a source. -/
def lineColumn (doc : Document) (source : SourceId) (offset : Nat) : Except Fault (Nat × Nat) := do
  match (← doc.sourceText source).lineColumn? offset with
  | some position => return position
  | none => throw (.noSuchPosition source offset)

end Errata.Document
