import Errata.Rule
import Errata.Text.Quoted

/-!
What can be wrong with the form of a step.
-/

namespace Errata.Style

/-- Faults in how a step begins and ends. -/
inductive LineFault where
  | emptyStep
  | preWithSubsteps
  | figureWithoutColon
  | ifSemicolon
  | ifWithSubsteps
  | ifWithList
  | ifAlone
  | ifThen
  | elseWithSubsteps
  | elseAlone
  | repeatWithoutSubsteps
  | repeatStart
  | repeatEnd
  | forEachWithSubsteps
  | forEachAlone
  | noteCase
  | assertCase
  | freeformWithSubsteps
  | freeformAlone
deriving DecidableEq, Repr

inductive Problem where
  | numbering (marker : Text)
  | unknownAttribute (key : Text)
  | label
  | line (fault : LineFault)
  | enumCasing
  | forEachElement
  /-- An `Else` whose form is not that of the `If` before it; `wanted` tells whether that has
  substeps. -/
  | ifElse (wanted : Bool)
deriving DecidableEq, Repr

def LineFault.message : LineFault → String
  | emptyStep => "empty step"
  | preWithSubsteps => "lines ending in <pre> tags must not have substeps"
  | figureWithoutColon => "expected line with figure to end with \":\""
  | ifSemicolon =>
    "expected \"If\" with substeps to end with \", then\" rather than \"; then\" when there are no other commas"
  | ifWithSubsteps => "expected \"If\" with substeps to end with \", then\""
  | ifWithList => "expected \"If\" with list of substeps to end with \":\""
  | ifAlone => "expected \"If\" without substeps to end with \".\" or \":\""
  | ifThen => "single-line \"If\" steps should not have a \"then\""
  | elseWithSubsteps => "expected \"Else\" with substeps to end with \",\""
  | elseAlone => "expected \"Else\" without substeps to end with \".\" or \":\""
  | repeatWithoutSubsteps => "expected \"Repeat\" to have substeps"
  | repeatStart =>
    "expected \"Repeat\" to start with \"Repeat, while \" or \"Repeat, until \""
  | repeatEnd => "expected \"Repeat\" to end with \",\""
  | forEachWithSubsteps => "expected \"For each\" with substeps to end with \", do\""
  | forEachAlone => "expected \"For each\" without substeps to end with \".\""
  | noteCase => "\"NOTE:\" should be fully capitalized"
  | assertCase => "\"Assert:\" should be capitalized"
  | freeformWithSubsteps => "expected freeform line with substeps to end with \":\""
  | freeformAlone => "expected freeform line to end with \".\""

namespace Problem

def rule : Problem → Rule
  | numbering _ => .stepNumbering
  | unknownAttribute _ => .unknownStepAttribute
  | label => .stepLabels
  | line _ => .lineStyle
  | enumCasing => .enumCasing
  | forEachElement => .forEachElement
  | ifElse _ => .ifElseConsistency

def message : Problem → String
  | numbering marker =>
    "expected step number to be \"1.\" (found " ++ marker.quoted ++ ")"
  | unknownAttribute key => "unknown step attribute " ++ key.quoted
  | label => "step labels should start with \"step-\""
  | line fault => fault.message
  | enumCasing => "enum values should be lowercase and kebab-cased"
  | forEachElement =>
    "expected \"For each\" to have a type name or \"element\" before the loop variable"
  | ifElse true => "expected \"Else\" to have substeps, since the preceding \"If\" does"
  | ifElse false => "expected \"Else\" not to have substeps, since the preceding \"If\" does not"

end Problem
end Errata.Style
