import Errata.Scope.Action
import Errata.Scope.Phrase
import Errata.Step.Cache
import Errata.Text.Blank

/-!
The actions of a step, read off its words.
-/

namespace Errata.Scope

/-! ## Attributes -/

/-- The names in the pieces of an attribute's value, the first of which begins at `offset`. -/
def annotations (offset : Nat) : List Text → List Action
  | [] => []
  | piece :: pieces =>
    let start := offset + (piece.size - piece.trimStart.size)
    let others := annotations (offset + piece.size + 1) pieces
    if piece.trim.isEmpty then others else .annotate piece.trim start :: others

def attributeActions (step : Step) : List Action :=
  match step.attribute? "declared" with
  | none => []
  | some a => annotations a.value.offset (a.value.text.pieces ',')

/-! ## Declarations and uses -/

/-- The text of an item, or none at all. -/
def textOf (item : Option Item) : Text := (item.bind Item.text?).getD []

/-- The variables that are listed together before an item, and what stands before the first of them. The
items before are given from the last on, as the variables are. -/
def listedBefore : List Item → List Fragment × List Item
  | separator :: item :: before =>
    match separator.text?, item.var? with
    | some t, some token =>
      if isSeparator t then
        let (tokens, rest) := listedBefore before
        (token :: tokens, rest)
      else ([], separator :: item :: before)
    | _, _ => ([], separator :: item :: before)
  | before => ([], before)

/-- The variables that a variable token declares, itself among them, and whether they may shadow. -/
def declaredWith (conditional : Bool) (before : List Item) (token : Fragment) (next : Text) :
    Option (List Fragment × Bool) :=
  if isExistential (textOf before.head?) then some ([token], true)
  else
    -- a list such as "_a_, _b_, and _c_" is declared together
    let (tokens, rest) := listedBefore before
    let together := (token :: tokens).reverse
    if next.startsWith " be " then
      if isLet (textOf rest.head?) then some (together, conditional) else none
    else if next.startsWith " such that " then some (together, true)
    else none

/-- The declarations in the items of a step. `before` are the items already seen, the last first, and
`declared` the places of the tokens already known to declare. The result has the places of all such
tokens. -/
def declarations (conditional : Bool) (before : List Item) (declared : List Nat) :
    List Item → List Action × List Nat
  | [] => ([], declared)
  | item :: items =>
    match item.var? with
    | none => declarations conditional (item :: before) declared items
    | some token =>
      if declared.contains token.offset then
        declarations conditional (item :: before) declared items
      else
        match declaredWith conditional before token (textOf items.head?) with
        | none => declarations conditional (item :: before) declared items
        | some (tokens, shadow) =>
          let new := tokens.filter fun t => !declared.contains t.offset
          let here := new.map fun t => Action.declare t.name .ordinary t.offset shadow
          let (others, all) :=
            declarations conditional (item :: before) (new.map Fragment.offset ++ declared) items
          (here ++ others, all)

/-- The uses among some variable tokens: those whose place is not that of a declaration. -/
def uses (declared : List Nat) (tokens : List Fragment) : List Action :=
  (tokens.filter fun t => !declared.contains t.offset).map fun t => .use t.name t.offset

/-- The declarations and uses of a step, when the tokens at some places are known to declare. -/
def wordActions (items : Expression) (declared : List Nat) : List Action :=
  let conditional := conditionalScan.startsIn items.firstText
  let (here, all) := declarations conditional [] declared items
  here ++ uses all items.vars

/-- The variable of a loop. -/
def loopVar? (items : Expression) : Option Fragment :=
  if items.firstText.startsWith "For each " then items.findSome? Item.var? else none

/-! ## Closures -/

/-- The bindings of a closure's introduction, with what is wrong in it and where. -/
abbrev Introduction := List Binding × Option (ClosurePart × Nat)

/-- The parameters in a parenthesis: names with commas between them. -/
def parameterBindings : List Item → Introduction
  | [] => ([], none)
  | [item] =>
    match item.var? with
    | none => ([], some (.parameterName, item.start))
    | some token => ([.parameter token.name token.offset], none)
  | item :: comma :: items =>
    match item.var? with
    | none => ([], some (.parameterName, item.start))
    | some token =>
      let first := Binding.parameter token.name token.offset
      if comma.text? ≠ some ", ".toList then ([first], some (.comma, comma.start))
      else if items.isEmpty then ([first], some (.parameterName, comma.stop))
      else
        let (others, wrong) := parameterBindings items
        (first :: others, wrong)

/-- The captures in a list of items: names with separators between them, up to the words that begin the
steps. `stop` is where the items before them end. -/
def captureBindings (stop : Nat) : List Item → Introduction
  | [] => ([], some (.captureName, stop))
  | item :: items =>
    match item.var? with
    | none => ([], some (.captureName, item.start))
    | some token =>
      let first := Binding.capture token.name token.offset
      match items with
      | [] => ([first], some (.captureSeparator, item.stop))
      | separator :: rest =>
        match separator.text? with
        | none => ([first], some (.captureSeparator, separator.start))
        | some t =>
          if isSeparator t then
            let (others, wrong) := captureBindings separator.stop rest
            (first :: others, wrong)
          else if t.startsWith " and performs" || t.startsWith " performs" then ([first], none)
          else ([first], some (.captureSeparator, separator.start))

/-- The items after the first text that ends with the given words, and where that text ends. -/
def afterWords (words : String) : List Item → Option (Nat × List Item)
  | [] => none
  | item :: items =>
    if item.text?.any (·.endsWith words) then some (item.stop, items) else afterWords words items

/-- The parameters of a closure. -/
def closureParameters (items : Expression) : Introduction :=
  match afterWords " with parameters " items with
  | none => ([], none)
  | some (stop, []) => ([], some (.parameterList, stop))
  | some (_, .paren span inner :: _) =>
    if inner.isEmpty then ([], some (.parameterName, span.start + 1)) else parameterBindings inner
  | some (_, item :: _) => ([], some (.parameterList, item.start))

/-- The captures of a closure. -/
def closureCaptures (items : Expression) : Introduction :=
  match afterWords " that captures " items with
  | none => ([], none)
  | some (stop, rest) => captureBindings stop rest

/-- The bindings of a closure. Nothing is read after the first thing that is wrong. -/
def introduction (items : Expression) : Introduction :=
  match closureParameters items with
  | (parameters, some wrong) => (parameters, some wrong)
  | (parameters, none) =>
    let (captures, wrong) := closureCaptures items
    (parameters ++ captures, wrong)

/-- The declaration of the variable that a closure is given to. -/
def closureVar : Expression → List Action
  | .leaf .text first :: .leaf .var token :: .leaf .text after :: _ =>
    if first.text = "Let ".toList && after.text.startsWith " be " then
      [.declare token.name .ordinary token.offset false]
    else []
  | _ => []

/-- A closure with the given body. -/
def closureAction (items : Expression) (body : List Action) : Action :=
  match introduction items with
  | (bindings, none) => .closure bindings body
  | (bindings, some (expected, offset)) => .brokenClosure bindings expected offset

/-! ## Steps -/

mutual

/-- The actions of a step in an ordered list. A step that was not parsed does nothing. -/
def stepActions (cache : Cache) : Step → List Action
  | ⟨id, marker, attributes, content, sublist⟩ =>
    match cache.get? id with
    | none => []
    | some items =>
      -- the attribute counts before the words of the step
      let annotated := attributeActions ⟨id, marker, attributes, content, sublist⟩
      let below := sublistActions cache sublist
      annotated ++
        if introducesClosure (Expression.lastText items) then
          closureVar items ++ [closureAction items (closureBody cache sublist)]
        else match loopVar? items with
          | some token =>
            [.loop token.name token.offset (wordActions items [token.offset] ++ below)]
          | none => wordActions items [] ++ below

/-- The actions of steps in an ordered list. -/
def orderedActions (cache : Cache) : List Step → List Action
  | [] => []
  | step :: steps => stepActions cache step ++ orderedActions cache steps

/-- Steps in unordered lists, and all steps below them, only use variables. -/
def unorderedActions (cache : Cache) : List Step → List Action
  | [] => []
  | step :: steps => stepUses cache step ++ unorderedActions cache steps

def stepUses (cache : Cache) : Step → List Action
  | ⟨id, _, _, _, sublist⟩ =>
    match cache.get? id with
    | none => []
    | some items => uses [] items.vars ++ sublistUses cache sublist

/-- The substeps of a step: an ordered list is a level of its own. -/
def sublistActions (cache : Cache) : Option StepList → List Action
  | none => []
  | some ⟨.ordered, steps⟩ => [.level (orderedActions cache steps)]
  | some ⟨.unordered, steps⟩ => unorderedActions cache steps

def sublistUses (cache : Cache) : Option StepList → List Action
  | none => []
  | some ⟨_, steps⟩ => unorderedActions cache steps

/-- The steps of a closure, which are an ordered list. -/
def closureBody (cache : Cache) : Option StepList → List Action
  | none => []
  | some ⟨.ordered, steps⟩ => orderedActions cache steps
  | some ⟨.unordered, _⟩ => []

end

/-- The actions of an algorithm. Its own list counts as ordered whatever its markers are. -/
def actions (cache : Cache) (list : StepList) : List Action := orderedActions cache list.steps

end Errata.Scope
