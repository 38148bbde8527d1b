import Errata.Collection
import Errata.Text.Quoted
import Errata.Text.Scan

/-!
The form of the headers of operations, such as `Name ( _a_ [ , _b_ ] )`. Headers that do not end with a
parenthesis are not looked at.
-/

namespace Errata.Header

inductive Problem where
  | spacing
  | name (found : Text)
  | parameters
deriving DecidableEq, Repr

namespace Problem

def rule : Problem → Rule
  | _ => .headerFormat

def message : Problem → String
  | spacing => "expected header to have a single space before the argument list"
  | name found =>
    "expected operation to have a name like 'Example', 'Runtime Semantics: Foo', 'Example.prop', etc, but found "
      ++ found.quoted
  | parameters =>
    "expected parameter list to look like '( _a_ [ , _b_ ] )', '( _foo_, _bar_, ..._baz_ )', '( _foo_, … , _bar_ )', or '( . . . )'"

end Problem

/-! ## Names -/

def small : Scan := .one Char.isLower

def capital : Scan := .one Char.isUpper

def alphanums : Scan := .many Text.isAsciiAlphanum

/-- A letter and then letters and digits. -/
def word : Scan := .word Text.isAsciiAlphanum

/-- A capital letter and then letters and digits. -/
def title : Scan := .seq [capital, alphanums]

/-- Parts of a path of properties: `.name`, `.__name__` and ` [ @@name ]`. -/
def properties : List Scan := [
  .seq [.char '.', word],
  .seq [.literal ".__", small, alphanums, .literal "__"],
  .seq [.literal " [ @@", small, .some1 Text.isAsciiLetter, .literal " ]"]]

/-- The forms that the name of an operation may have. -/
def nameForms : List Scan := [
  .seq [.first [.literal "Runtime", .literal "Static"], .literal " Semantics: ", capital,
    .many fun c => Text.isAsciiAlphanum c || c == '/'],
  .seq [title, .literal "::", small, alphanums],
  .seq [.literal "[[", title, .literal "]]"],
  .seq [.char '_', title, .char '_'],
  .seq [word, .repeated (.first (properties ++ [.seq [.char '/', word]]))],
  .seq [.char '%', title, .char '%', .repeated (.first properties)]]

def isName (t : Text) : Bool := nameForms.any (·.coversAll t)

/-! ## Parameters -/

def parameter : Scan := .seq [.char '_', .some1 Text.isAsciiAlphanum, .char '_']

/-- Parameters, each with a comma after it. -/
def leading : Scan := .repeated (.seq [parameter, .literal ", "])

/-- A parameter after a comma. -/
def further : Scan := .seq [.literal ", ", parameter]

/-- The forms that a list of parameters may have between its parentheses. -/
def parameterForms : List Scan := [
  .literal " ",
  .literal " . . . ",
  .seq [.char ' ', leading, .literal "...", parameter, .char ' '],
  .seq [.char ' ', leading, .literal "… ", further, .repeated further, .char ' '],
  .seq [.char ' ', .optional (.literal "[ "), parameter, .repeated further,
    .repeated (.seq [.literal " [ , ", parameter]), .repeated (.literal " ]"), .char ' ']]

def isParameterList (t : Text) : Bool := parameterForms.any (·.coversAll t)

/-! ## Headers -/

/-- Whether a header is that of an operator, such as ``The Addition Operator ( `+` )``. -/
def isOperator (t : Text) : Bool :=
  match t.beforeEnding? "\x60 )" with
  | none => false
  | some before =>
    let sign := before.reverse.takeWhile (· ≠ '\x60')
    !sign.isEmpty &&
      Text.endsWith (before.take (before.length - sign.length)) " Operator ( \x60"

def checkName (name : Text) : List (Finding Problem) :=
  let trimmed := name.trimEnd
  if name ≠ trimmed ++ [' '] then [⟨.spacing, trimmed.size⟩]
  else if isName trimmed then []
  else [⟨.name trimmed, 0⟩]

/-- The findings in a header without blanks around it. -/
def checkContents (contents : Text) : List (Finding Problem) :=
  if !contents.endsWith ")" || isOperator contents then []
  else match contents.find? ['('] with
    | none => []
    | some n =>
      let name : Text := contents.take n
      checkName name ++
        if isParameterList (contents.drop (n + 1)).dropLast then []
        else [⟨.parameters, name.size + 1⟩]

/-- The findings in a header. -/
def checkText (t : Text) : List (Finding Problem) :=
  let lead := t.size - t.trimStart.size
  (checkContents t.trim).map fun f => { f with offset := lead + f.offset }

/-- Checks the header in an element. Deleted text does not count. -/
def checkElement (doc : Document) (id : NodeId) : Except Fault (List (Complaint Problem)) := do
  let text ← doc.textExcluding id Collection.deletedName
  (checkText text).mapM fun f => do
    let offset ← doc.textOffset? id Collection.deletedName f.offset
    return { problem := f.problem, element := id, offset := offset.getD 0 }

/-- Checks headers outside the annex. -/
def check (doc : Document) (headers : List Collection.Header) :
    Except Fault (List (Complaint Problem)) := do
  let outside := headers.filter fun header => !header.inAnnex
  return (← outside.mapM fun header => checkElement doc header.element).flatten

end Errata.Header
