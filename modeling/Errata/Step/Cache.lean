import Errata.Expression.Basic
import Errata.Step.Basic

/-!
The parsed contents of the steps of one algorithm, by the numbers of the steps. Below a step whose
content has an error nothing is parsed.
-/

namespace Errata

abbrev Cache := List (StepId × Expression)

namespace Cache

/-- What was last kept under a number. -/
def get? (cache : Cache) (id : StepId) : Option Expression := cache.reverse.lookup id

mutual

/-- Parses the content of a step and of the steps below it. -/
def ofStep (parse : Step → Except StepError Expression) : Step → Cache × List StepError
  | ⟨id, marker, attributes, content, sublist⟩ =>
    match parse ⟨id, marker, attributes, content, sublist⟩ with
    | .error e => ([], [e])
    | .ok expression =>
      match sublist with
      | none => ([(id, expression)], [])
      | some list =>
        let (below, errors) := ofList parse list
        ((id, expression) :: below, errors)

/-- Parses the contents of the steps of a list. -/
def ofList (parse : Step → Except StepError Expression) : StepList → Cache × List StepError
  | ⟨_, steps⟩ => ofSteps parse steps

def ofSteps (parse : Step → Except StepError Expression) : List Step → Cache × List StepError
  | [] => ([], [])
  | step :: steps =>
    let (here, hereErrors) := ofStep parse step
    let (others, otherErrors) := ofSteps parse steps
    (here ++ others, hereErrors ++ otherErrors)

end

end Cache
end Errata
