import Errata.Expression.Reader
import Errata.Grammar.Compile
import Errata.Report.Basic
import Errata.Scope.Reading
import Errata.Scope.Seeds
import Errata.Step.Reader
import Errata.Style.Check

/-!
All checks of a document. The checks do not depend on how steps and grammar are read.
-/

namespace Errata.Lint

structure Options where
  /-- The id of the annex whose grammar, algorithms and headers are not checked. -/
  annex : Text := "sec-additional-ecmascript-features-for-web-browsers".toList
  spelling : Bool := true
deriving DecidableEq, Repr

/-- Readers of the two notations in a document. -/
structure Readers where
  algorithm : Text → Except StepError StepList
  step : Step → Except StepError Expression
  grammar : Grammar.Compiler

def readers : Readers where
  algorithm := Step.readAlgorithm
  step := fun step => Expression.parse step.content
  grammar := Grammar.compile

/-- The misspellings in all sources. -/
def spelling (doc : Document) : List Diagnostic :=
  doc.sources.zipIdx.flatMap fun (source, i) =>
    (Spelling.misspellings source.text).map (.ofMisspelling i)

/-! ## Algorithms -/

/-- The findings in the steps of an algorithm, without those that depend on the rest of the document. -/
def stepFindings (inExample : Bool) (list : StepList) (cache : Cache) (errors : List StepError) :
    List (Finding Problem) :=
  (errors.map fun e => ⟨.expression e, e.offset⟩) ++
    if inExample then []
    else (Style.checkList cache list).map fun f => ⟨.style f.problem, f.offset⟩

/-- The findings in the variables of an algorithm. Algorithms in the annex, and those that replace steps
of another one, are left alone. -/
def scopeFindings (doc : Document) (annex : Text) (algorithm : Collection.Algorithm)
    (list : StepList) (cache : Cache) : Except Fault (List (Finding Problem)) := do
  -- such an algorithm continues the scope of the one it belongs to
  let replaces := doc.attribute? algorithm.element "replaces-step".toList
  if algorithm.context.inAnnex || replaces.isSome then return []
  let seeds ← Scope.seeds doc annex algorithm.element
  return (Scope.findings seeds (Scope.actions cache list)).map fun f =>
    ⟨.scope f.problem, f.offset⟩

/-- The findings in the text of an algorithm. -/
def textFindings (readers : Readers) (doc : Document) (annex : Text)
    (algorithm : Collection.Algorithm) (text : Text) : Except Fault (List (Finding Problem)) :=
  match readers.algorithm text with
  | .error e => .ok [⟨.algorithm e, e.offset⟩]
  | .ok list => do
    let (cache, errors) := Cache.ofList readers.step list
    let inScope ← scopeFindings doc annex algorithm list cache
    return stepFindings algorithm.context.inExample list cache errors ++ inScope

def checkAlgorithm (readers : Readers) (doc : Document) (annex : Text)
    (algorithm : Collection.Algorithm) : Except Fault (List (Complaint Problem)) :=
  match doc.element? algorithm.element with
  | none => .ok []
  | some e => do
    match ← doc.inner e with
    | none => return []
    | some (base, text) =>
      return (← textFindings readers doc annex algorithm text).map
        (Finding.complaint algorithm.element base)

/-! ## Documents -/

/-- The complaints about what a walk over the document has gathered. -/
def checkCollection (readers : Readers) (doc : Document) (annex : Text) (collection : Collection) :
    Except Fault (List (Complaint Problem)) := do
  let grammar ← Grammar.Consistency.check readers.grammar doc collection
  let algorithms ← collection.algorithms.mapM (checkAlgorithm readers doc annex)
  let headers ← Header.check doc collection.headers
  return grammar.map (.map .grammar) ++ algorithms.flatten ++ headers.map (.map .header)

/-- The complaints about the structure of a document, and about the rest if the structure is sound. -/
def complaints (readers : Readers) (annex : Text) (doc : Document) :
    Except Fault (List (Complaint Problem)) := do
  let outcome ← Collection.collect doc annex
  let structural := outcome.complaints.map (.map .collection)
  match outcome.collection with
  | none => return structural
  | some collection => return structural ++ (← checkCollection readers doc annex collection)

/-- The diagnostics of a document in the order in which they are raised. -/
def diagnostics (readers : Readers) (options : Options) (doc : Document) :
    Except Fault (List Diagnostic) := do
  let others ← complaints readers options.annex doc
  return (if options.spelling then spelling doc else []) ++ others.map .ofComplaint

/-- The reports on a document, in the order of their positions. -/
def reports (readers : Readers) (options : Options) (doc : Document) :
    Except Fault (List Report) := do
  let found ← diagnostics readers options doc
  return Report.inOrder (← found.mapM (Report.ofDiagnostic doc))

end Errata.Lint
