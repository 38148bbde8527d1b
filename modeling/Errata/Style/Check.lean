import Errata.Expression.Figure
import Errata.Finding
import Errata.Step.Cache
import Errata.Style.Problem
import Errata.Text.Folding

/-!
Checks on the form of steps: their numbers and attributes, how each kind of step begins and ends, how
enum values are written, and whether an `If` and its `Else` have the same form.
-/

namespace Errata.Style

/-- Kinds of steps by how they begin. -/
inductive Category where
  | conditional
  | alternative
  | repetition
  | forEach
  | freeform
deriving DecidableEq, Repr

def elseScan : Scan :=
  .seq [.first [.literal "Else", .literal "Otherwise"], .notBefore Text.isWord]

def repeatScan : Scan := .seq [.literal "Repeat", .notBefore Text.isWord]

def classify (first : Text) : Category :=
  if first.startsWith "If " || first.startsWith "Else if " then .conditional
  else if elseScan.startsIn first then .alternative
  else if repeatScan.startsIn first then .repetition
  else if first.startsWith "For each " then .forEach
  else .freeform

def endsWithAny (t : Text) (endings : List String) : Bool := endings.any t.endsWith

/-- A fault at an offset, unless `ok`. -/
def require (ok : Bool) (fault : LineFault) (offset : Nat) : List (Finding Problem) :=
  if ok then [] else [⟨.line fault, offset⟩]

/-! ## Numbers and attributes -/

def checkNumber (kind : ListKind) (step : Step) : List (Finding Problem) :=
  if kind = .ordered && step.marker.text ≠ "1.".toList then
    [⟨.numbering step.marker.text, step.marker.offset⟩]
  else []

def knownKeys : List Text := ["id", "fence-effects", "declared"].map String.toList

def checkAttribute (a : StepAttribute) : List (Finding Problem) :=
  if !knownKeys.contains a.key.text then [⟨.unknownAttribute a.key.text, a.key.offset⟩]
  else if a.key.text = "id".toList && !a.value.text.startsWith "step-" then
    [⟨.label, a.value.offset⟩]
  else []

/-! ## Beginnings and endings -/

/-- What the rules for a step's line look at. -/
structure Shape where
  first : Text
  last : Text
  /-- Number of items. -/
  count : Nat
  content : Fragment
  substeps : Option ListKind

def checkConditional (s : Shape) : List (Finding Problem) :=
  let stop := s.content.stop
  match s.substeps with
  | some .ordered =>
    match s.content.text.beforeEnding? "; then" with
    | some before => require (before.contains ',') .ifSemicolon stop
    | none => require (s.last.endsWith ", then") .ifWithSubsteps stop
  | some .unordered => require (s.last.endsWith ":") .ifWithList stop
  | none =>
    require (endsWithAny s.last [".", ".)", ":"]) .ifAlone stop ++
      match s.content.text.find? ", then ".toList with
      | some n => [⟨.line .ifThen, s.content.offset + Text.size (s.content.text.take n)⟩]
      | none => []

def checkAlternative (s : Shape) : List (Finding Problem) :=
  if s.substeps.isSome then
    require ((s.first = "Else,".toList && s.count = 1) || s.last.endsWith ",") .elseWithSubsteps
      s.content.stop
  else require (endsWithAny s.last [".", ".)", ":"]) .elseAlone s.content.stop

def checkRepetition (s : Shape) : List (Finding Problem) :=
  let bare := s.first = "Repeat,".toList && s.count = 1
  require s.substeps.isSome .repeatWithoutSubsteps s.content.offset ++
    require (bare || s.first.startsWith "Repeat, while " || s.first.startsWith "Repeat, until ")
      .repeatStart s.content.offset ++
    require (s.last.endsWith ",") .repeatEnd s.content.stop

def checkForEach (s : Shape) : List (Finding Problem) :=
  if s.substeps.isSome then
    require (s.last.endsWith ", do") .forEachWithSubsteps s.content.stop
  else require (endsWithAny s.last [".", ".)"]) .forEachAlone s.content.stop

def checkFreeform (s : Shape) : List (Finding Problem) :=
  require (!s.first.startsWithFolded "note:" || s.first.startsWith "NOTE:") .noteCase
      s.content.offset ++
    require (!s.first.startsWithFolded "assert:" || s.first.startsWith "Assert:") .assertCase
      s.content.offset ++
    if s.substeps.isSome then
      require (s.last.endsWith ":") .freeformWithSubsteps s.content.stop
    else require (endsWithAny s.last [".", ".)"]) .freeformAlone s.content.stop

/-- A line that ends with a figure has a colon before the figure. -/
def checkFigure (content : Fragment) : List (Finding Problem) :=
  match Figure.opening? content.text with
  | none => []
  | some n =>
    let before := Text.trimEnd (content.text.take n)
    require (before.endsWith ":") .figureWithoutColon (content.offset + before.size)

def endsWithPre (items : Expression) : Bool :=
  match items.getLast? with
  | some (.leaf .inert fragment) => fragment.text = "</pre>".toList
  | _ => false

def checkLine (step : Step) (items : Expression) : List (Finding Problem) :=
  let content := step.content
  if items.isEmpty then [⟨.line .emptyStep, content.offset⟩]
  else if endsWithPre items then require (!step.hasSubsteps) .preWithSubsteps content.stop
  else if content.text.endsWith "</figure>" then checkFigure content
  else
    let s : Shape := {
      first := items.firstText
      last := Expression.lastText items
      count := items.length
      content := content
      substeps := step.sublist.map StepList.kind }
    match classify s.first with
    | .conditional => checkConditional s
    | .alternative => checkAlternative s
    | .repetition => checkRepetition s
    | .forEach => checkForEach s
    | .freeform => checkFreeform s

/-! ## Enum values, loops, alternatives -/

/-- Words of small letters and digits with hyphens between them. -/
def isKebab (name : Text) : Bool :=
  (name.pieces '-').all fun word =>
    !word.isEmpty && word.all fun c => c.isLower || c.isDigit

def checkEnums (items : Expression) : List (Finding Problem) :=
  ((Expression.leaves .enumValue items).filter fun f => !isKebab f.text.undelimited).map
    fun f => ⟨.enumCasing, f.offset⟩

/-- A loop variable needs a type before it. -/
def checkLoop : Expression → List (Finding Problem)
  | .leaf .text first :: .leaf .var token :: _ =>
    if first.text = "For each ".toList then [⟨.forEachElement, token.offset⟩] else []
  | _ => []

def checkElse (step : Step) (items : Expression) (next : Step) (following : Expression) :
    List (Finding Problem) :=
  if classify items.firstText = .conditional && elseScan.startsIn following.firstText &&
    step.hasSubsteps != next.hasSubsteps
  then [⟨.ifElse step.hasSubsteps, next.content.offset⟩]
  else []

/-! ## All steps -/

/-- The checks on one step, which stands in a list of the given kind before `next`. -/
def checkStep (cache : Cache) (kind : ListKind) (step : Step) (next : Option Step) :
    List (Finding Problem) :=
  checkNumber kind step ++ step.attributes.flatMap checkAttribute ++
    match cache.get? step.id with
    | none => []
    | some items =>
      (if kind = .ordered then checkLine step items else []) ++ checkEnums items ++
        checkLoop items ++
        match next with
        | none => []
        | some next =>
          match cache.get? next.id with
          | none => []
          | some following => checkElse step items next following

mutual

/-- The checks on the steps of a list and on all steps below them. -/
def checkList (cache : Cache) : StepList → List (Finding Problem)
  | ⟨kind, steps⟩ => checkSteps cache kind steps

def checkSteps (cache : Cache) (kind : ListKind) : List Step → List (Finding Problem)
  | [] => []
  | step :: steps =>
    checkStep cache kind step steps.head? ++ checkBelow cache step ++ checkSteps cache kind steps

/-- The checks on the substeps of a step. -/
def checkBelow (cache : Cache) : Step → List (Finding Problem)
  | ⟨_, _, _, _, none⟩ => []
  | ⟨_, _, _, _, some list⟩ => checkList cache list

end

end Errata.Style
