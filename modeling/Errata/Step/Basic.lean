import Errata.Text.Cursor

/-!
An algorithm is a nested list of steps. A step has a marker, attributes, content, and maybe a list of
substeps. All positions are positions in the text of the algorithm.
-/

namespace Errata

/-- A step's place in its algorithm, counting from zero in the order of the text. -/
abbrev StepId := Nat

inductive ListKind where
  | ordered
  | unordered
deriving DecidableEq, Repr

/-- An attribute of a step, such as `id="step-foo"`. -/
structure StepAttribute where
  key : Fragment
  value : Fragment
deriving DecidableEq, Repr

mutual

structure StepList where
  kind : ListKind
  steps : List Step

structure Step where
  id : StepId
  /-- A number with a point, or a star, as written. -/
  marker : Fragment
  attributes : List StepAttribute
  content : Fragment
  sublist : Option StepList

end

/-- The kind of list that a marker belongs to. -/
def Fragment.listKind (marker : Fragment) : ListKind :=
  if marker.text = ['*'] then .unordered else .ordered

namespace Step

def kind (step : Step) : ListKind := step.marker.listKind

/-- The first attribute with the given key. -/
def attribute? (step : Step) (key : String) : Option StepAttribute :=
  step.attributes.find? (·.key.text = key.toList)

def hasSubsteps (step : Step) : Bool := step.sublist.isSome

end Step

/-- The list of some steps; its first step decides its kind. -/
def StepList.ofSteps (steps : List Step) : StepList where
  kind := (steps.head?.map Step.kind).getD .ordered
  steps := steps

/-- What is wrong in the text of an algorithm, and where. -/
inductive StepError where
  | expectedStep (offset : Nat)
  | inconsistentMarkers (offset : Nat)
  | invalidAttributes (offset : Nat)
  | unbalanced (offset : Nat) (bracket : Char)
  | unclosedFigure (offset : Nat)
  | unclosedRecord (offset : Nat)
deriving DecidableEq, Repr

namespace StepError

def offset : StepError → Nat
  | expectedStep offset => offset
  | inconsistentMarkers offset => offset
  | invalidAttributes offset => offset
  | unbalanced offset _ => offset
  | unclosedFigure offset => offset
  | unclosedRecord offset => offset

def message : StepError → String
  | expectedStep _ => "expected a numbered or bulleted step"
  | inconsistentMarkers _ => "a list cannot mix numbered and bulleted steps"
  | invalidAttributes _ => "invalid step attributes"
  | unbalanced _ bracket => "unbalanced '" ++ bracket.toString ++ "'"
  | unclosedFigure _ => "could not find the matching </figure>"
  | unclosedRecord _ => "unterminated record"

end StepError
end Errata
