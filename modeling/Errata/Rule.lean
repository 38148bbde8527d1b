/-!
The rules that a document is checked against. A report names its rule by a code.
-/

namespace Errata

inductive Rule where
  | algorithmError
  | expressionParsing
  | missingCloseTag
  | earlyErrorShape
  | grammarSyntax
  | grammarUnusedParameter
  | grammarDuplicateProduction
  | undefinedNonterminal
  | guardInFragment
  | lineTerminatorInFragment
  | lineStyle
  | stepNumbering
  | stepLabels
  | unknownStepAttribute
  | enumCasing
  | forEachElement
  | ifElseConsistency
  | useBeforeDeclaration
  | redeclaration
  | unusedDeclaration
  | unusedCapture
  | needlessAttribute
  | badClosure
  | headerFormat
  | spelling
deriving DecidableEq, Repr

namespace Rule

def code : Rule → String
  | algorithmError => "algorithm-error"
  | expressionParsing => "expression-parsing"
  | missingCloseTag => "missing-close-tag"
  | earlyErrorShape => "early-error-shape"
  | grammarSyntax => "grammar:syntax"
  | grammarUnusedParameter => "grammar:unused-parameter"
  | grammarDuplicateProduction => "grammar:duplicate-production"
  | undefinedNonterminal => "undefined-nonterminal"
  | guardInFragment => "guard-in-SDO"
  | lineTerminatorInFragment => "NLTH-in-SDO"
  | lineStyle => "algorithm-line-style"
  | stepNumbering => "algorithm-step-numbering"
  | stepLabels => "algorithm-step-labels"
  | unknownStepAttribute => "unknown-step-attribute"
  | enumCasing => "enum-casing"
  | forEachElement => "for-each-element"
  | ifElseConsistency => "if-else-consistency"
  | useBeforeDeclaration => "use-before-def"
  | redeclaration => "re-declaration"
  | unusedDeclaration => "unused-declaration"
  | unusedCapture => "unused-capture"
  | needlessAttribute => "unnecessary-declared-var"
  | badClosure => "bad-ac"
  | headerFormat => "header-format"
  | spelling => "spelling"

def all : List Rule :=
  [algorithmError, expressionParsing, missingCloseTag, earlyErrorShape, grammarSyntax,
    grammarUnusedParameter, grammarDuplicateProduction, undefinedNonterminal, guardInFragment,
    lineTerminatorInFragment, lineStyle, stepNumbering, stepLabels, unknownStepAttribute, enumCasing,
    forEachElement, ifElseConsistency, useBeforeDeclaration, redeclaration, unusedDeclaration,
    unusedCapture, needlessAttribute, badClosure, headerFormat, spelling]

/-- The rule with the given code. -/
def ofCode? (code : String) : Option Rule := all.find? (·.code = code)

end Rule
end Errata
