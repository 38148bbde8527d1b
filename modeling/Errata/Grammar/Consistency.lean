import Errata.Collection
import Errata.Grammar.Matching

/-!
Whether the grammar fragments of operations and early errors agree with the definitions of grammar. A
fragment names a production that is defined, each of its right-hand sides fits one of the definition's,
and guards and the restriction on line terminators stand in definitions only.
-/

namespace Errata.Grammar

/-- A reader of several texts of grammar, with or without the checks on the whole. -/
abbrev Compiler := List Text → Bool → Compilation

namespace Consistency

inductive Problem where
  | grammar (problem : Grammar.Problem)
  | guardInFragment
  | lineTerminatorInFragment
  | undefined (name : Text)
  | unmatched (name : Text)
deriving DecidableEq, Repr

namespace Problem

def rule : Problem → Rule
  | grammar (.missing _) => .grammarSyntax
  | grammar (.unusedParameter ..) => .grammarUnusedParameter
  | grammar (.duplicateProduction _) => .grammarDuplicateProduction
  | guardInFragment => .guardInFragment
  | lineTerminatorInFragment => .lineTerminatorInFragment
  | undefined _ => .undefinedNonterminal
  | unmatched _ => .undefinedNonterminal

def message : Problem → String
  | grammar problem => problem.message
  | guardInFragment =>
    "productions referenced in SDOs and early errors should not include parameter guards"
  | lineTerminatorInFragment =>
    "productions referenced in SDOs and early errors should not include [no LineTerminator here] restrictions"
  | undefined name =>
    "Could not find a definition for LHS in syntactic grammar (" ++ String.ofList name ++ ")"
  | unmatched name =>
    "Could not find a production matching RHS in syntactic grammar (" ++ String.ofList name ++ ")"

end Problem

/-- The text inside an element, with the position where it begins in the element's source. -/
structure Passage where
  element : NodeId
  base : Nat
  text : Text
deriving DecidableEq, Repr

/-- The passage of an element; there is none without an end tag. -/
def passage (doc : Document) (id : NodeId) : Except Fault (Option Passage) :=
  match doc.element? id with
  | none => .ok none
  | some e => do
    match ← doc.inner e with
    | none => return none
    | some (base, text) => return some ⟨id, base, text⟩

/-- The passages of some elements. -/
def passages (doc : Document) (ids : List NodeId) : Except Fault (List Passage) := do
  return (← ids.mapM (passage doc)).filterMap id

def Passage.complaint (p : Passage) (problem : Problem) (offset : Nat) : Complaint Problem :=
  { problem, element := p.element, offset := p.base + offset }

/-! ## Definitions -/

/-- The complaint for a problem of the definitions. -/
def definitionComplaint? (definitions : List Passage) (d : Diagnostic) :
    Option (Complaint Problem) :=
  definitions[d.source]?.map fun p => p.complaint (.grammar d.problem) d.offset

/-- The right-hand sides of the productions of one name, if there are such productions. -/
def definition? (productions : List Production) (name : Text) : Option (List RightHandSide) :=
  let found := productions.filter (·.name = name)
  if found.isEmpty then none else some (found.flatMap Production.rightHandSides)

/-! ## Fragments -/

mutual

/-- Where a restriction on line terminators first stands in a symbol. -/
def lineTerminator? : Symbol → Option Nat
  | .restriction mark .noLineTerminator => some mark.offset
  | .butNot _ left right => (lineTerminator? left).or (lineTerminator? right)
  | .oneOf _ alternatives => firstLineTerminator? alternatives
  | _ => none

def firstLineTerminator? : List Symbol → Option Nat
  | [] => none
  | s :: ss => (lineTerminator? s).or (firstLineTerminator? ss)

end

/-- What does not belong in a right-hand side of a fragment. -/
def misplaced (side : RightHandSide) : List (Finding Problem) :=
  (side.guard.map fun guard => ⟨.guardInFragment, guard.offset⟩).toList ++
    (side.symbols.filterMap lineTerminator?).map fun offset => ⟨.lineTerminatorInFragment, offset⟩

/-- Whether a right-hand side of a fragment fits none of the definition's, or there is no definition. -/
def unknown (definition : Option (List RightHandSide)) (name : Text) (side : RightHandSide) :
    List (Finding Problem) :=
  match definition with
  | none => [⟨.undefined name, side.offset⟩]
  | some sides =>
    if sides.any fun d => sequenceFits side.symbols d.symbols then []
    else [⟨.unmatched name, side.offset⟩]

def checkProduction (definitions : List Production) (p : Production) : List (Finding Problem) :=
  let definition := definition? definitions p.name
  p.rightHandSides.flatMap fun side => misplaced side ++ unknown definition p.name side

/-- The findings in a fragment. -/
def checkFragment (definitions : List Production) (c : Compilation) : List (Finding Problem) :=
  let errors := c.diagnostics.filterMap fun d =>
    match d.problem with
    | .missing expected => some ⟨.grammar (.missing expected), d.offset⟩
    | _ => none
  errors ++ c.productions.flatMap (checkProduction definitions)

/-! ## Parameters -/

/-- Whether a parameter of a production stands in brackets in a fragment that has the production. -/
def mentioned (fragments : List (Passage × Compilation)) (production parameter : Text) : Bool :=
  let needle := '[' :: parameter ++ [']']
  fragments.any fun (p, c) =>
    c.productions.any (·.name = production) && (p.text.find? needle).isSome

/-- Unused parameters are forgiven if a fragment mentions them, so they are looked at last. -/
def isHeld : Grammar.Problem → Bool
  | .unusedParameter .. => true
  | _ => false

def isForgiven (fragments : List (Passage × Compilation)) : Grammar.Problem → Bool
  | .unusedParameter production parameter => mentioned fragments production parameter
  | _ => false

/-- The complaints about definitions that have been read together and about fragments that have been read
one by one. -/
def checkCompilations (definitions : List Passage) (whole : Compilation)
    (parts : List (Passage × Compilation)) : List (Complaint Problem) :=
  -- whether a parameter is used is known only when the fragments have been read
  let (held, direct) := whole.diagnostics.partition fun d => isHeld d.problem
  direct.filterMap (definitionComplaint? definitions) ++
    (parts.flatMap fun (p, c) =>
      (checkFragment whole.productions c).map (Finding.complaint p.element p.base)) ++
    (held.filter fun d => !isForgiven parts d.problem).filterMap (definitionComplaint? definitions)

/-- The complaints about definitions and fragments whose texts are given. -/
def checkPassages (compile : Compiler) (definitions fragments : List Passage) :
    List (Complaint Problem) :=
  checkCompilations definitions (compile (definitions.map Passage.text) true)
    (fragments.map fun p => (p, compile [p.text] false))

/-- Checks the grammar of a collection. Fragments of operations come before those of early errors. -/
def check (compile : Compiler) (doc : Document) (collection : Collection) :
    Except Fault (List (Complaint Problem)) := do
  let definitions ← passages doc collection.grammars
  let fragments ← passages doc
    (collection.operations.map Collection.Operation.grammar ++
      collection.earlyErrors.map Collection.EarlyErrors.grammar)
  return checkPassages compile definitions fragments

end Consistency
end Errata.Grammar
