import Errata.Step.Head

/-!
Steps are laid out by indentation. Lines that are indented more than a step and begin no step continue
it; steps that are indented more are its substeps; steps with the same indentation follow it in its
list.
-/

namespace Errata.Step

/-- Whether a line continues the step that begins at `line`. -/
def continues (line next : Line) : Bool := line.indent < next.indent && !isMarked next

/-- The content of a step: what follows the head on its line, and the lines that continue it. -/
def contentOf (head : Head) (continued : List Line) : Fragment where
  text := head.content.rest ++ continued.flatMap fun line => line.gap ++ line.text
  offset := head.content.offset

/-- The steps of one list, the lines after it, and the number of the next step. The list has the given
indentation, and `kind` is the kind of the steps that it already has. No list is longer than `fuel`. -/
def readList : Nat → Nat → Option ListKind → StepId → List Line →
    Except StepError (List Step × List Line × StepId)
  | _, _, _, next, [] => .ok ([], [], next)
  | 0, _, _, next, lines => .ok ([], lines, next)
  | fuel + 1, indent, kind, id, line :: lines =>
    if line.indent < indent then .ok ([], line :: lines, id)
    else if indent < line.indent then .error (.expectedStep line.start)
    else do
      let head ← headOf line
      let content := contentOf head (lines.takeWhile (continues line))
      -- what is indented more now begins with a marker, so it is a list
      let (sublist, after, next) ←
        match lines.dropWhile (continues line) with
        | [] => .ok (none, [], id + 1)
        | first :: others =>
          if line.indent < first.indent then do
            let (steps, after, next) ← readList fuel first.indent none (id + 1) (first :: others)
            .ok (some (StepList.ofSteps steps), after, next)
          else .ok (none, first :: others, id + 1)
      let step : Step := { id, marker := head.marker, attributes := head.attributes, content, sublist }
      -- the markers are compared only after the substeps have been read
      if kind.any (· ≠ step.kind) then
        throw (.inconsistentMarkers step.marker.offset)
      let (steps, rest, next) ← readList fuel indent (some step.kind) next after
      return (step :: steps, rest, next)

/-- The steps of an algorithm. No step may be indented less than the first. -/
def readAlgorithm (text : Text) : Except StepError StepList :=
  match text.lines with
  | [] => .ok (.ofSteps [])
  | first :: lines => do
    let (steps, rest, _) ← readList (lines.length + 1) first.indent none 0 (first :: lines)
    match rest with
    | [] => return .ofSteps steps
    | line :: _ => throw (.expectedStep line.start)

end Errata.Step
