import Errata.Report.Palette
import Errata.Rule

/-!
Longer explanations of the rules, for those that need one.
-/

namespace Errata.Report

/-- An indented line of an example. -/
def exampleLine (palette : Palette) (text : String) : String := "    " ++ palette .excerpt text

/-- The lines of the explanation of a rule. -/
def detailLines (palette : Palette) : Rule → List String
  | .lineStyle => [
      "Each kind of step has a required shape. Steps without substeps end with a",
      "period; steps with substeps end with a colon, except for conditionals and",
      "loops:",
      "",
      exampleLine palette "1. If _x_ is *true*, then",
      exampleLine palette "1. Else,",
      exampleLine palette "1. Repeat, while _k_ < _len_,",
      exampleLine palette "1. For each element _e_ of _list_, do"]
  | .stepNumbering => [
      "Ordered steps are all written as \"1.\" and numbered when the document is",
      "rendered, so that inserting a step doesn't require renumbering its siblings."]
  | .stepLabels => [
      "Labels on steps are referenced from elsewhere in the document and must begin",
      "with \"step-\", as in " ++ palette .excerpt "[id=\"step-foo\"]" ++ "."]
  | .unknownStepAttribute => [
      "The attributes a step may carry are \"id\", \"fence-effects\", and \"declared\"."]
  | .enumCasing => [
      "Enum values are lowercase words separated by hyphens, for example " ++
        palette .excerpt "~not-a-number~" ++ "."]
  | .forEachElement => [
      "The variable introduced by a \"For each\" step must be preceded by its type, or",
      "by the word \"element\" if it has none:",
      "",
      exampleLine palette "1. For each String _s_ of _names_, do"]
  | .ifElseConsistency => [
      "When an \"If\" step is immediately followed by an \"Else\", either both of them",
      "have substeps or neither does."]
  | .useBeforeDeclaration => [
      "Every variable must be declared (with \"Let\", as a parameter, as the variable",
      "of a loop, or with a declared=\"…\" annotation on the step) before it is",
      "referenced."]
  | .redeclaration => [
      "A variable may only be declared once at a given level of an algorithm. To",
      "change its value use \"Set\" instead of \"Let\"."]
  | .unusedDeclaration => ["The variable is declared but never referenced afterwards."]
  | .unusedCapture => ["The variable is declared but never referenced afterwards."]
  | .badClosure => [
      "Abstract closures list their parameters and captures explicitly:",
      "",
      exampleLine palette
        "1. Let _closure_ be a new Abstract Closure with parameters (_x_) that captures _y_ and performs the following steps when called:"]
  | .undefinedNonterminal => [
      "Grammar used with syntax-directed operations and early errors must match a",
      "production given in a grammar definition elsewhere in the document.",
      "Optional symbols and restrictions of the definition may be left out."]
  | .guardInFragment => fragmentLines
  | .lineTerminatorInFragment => fragmentLines
  | _ => []
where
  fragmentLines : List String := [
    "Restrictions like [no LineTerminator here] and parameter guards belong in the",
    "grammar definition only, not where the production is referenced."]

/-- The explanation of a rule. -/
def details (palette : Palette) (rule : Rule) : String :=
  "\n".intercalate (detailLines palette rule)

/-- The explanation of the rule with the given code; other codes need none. -/
def detailsOfCode (palette : Palette) (code : String) : String :=
  match Rule.ofCode? code with
  | none => ""
  | some rule => details palette rule

end Errata.Report
