import Errata.Document.Tree
import Errata.Finding
import Errata.Rule
import Errata.Text.Blank

/-!
One walk over a document gathers what there is to check: the headers of clauses, the definitions of
grammar, the grammar fragments of operations and of early errors, and the algorithms. The walk does not
go into grammar and algorithms.
-/

namespace Errata

namespace Collection

/-- What stands around an element, the element itself included. -/
structure Context where
  inAnnex : Bool
  inExample : Bool
  inDeleted : Bool
deriving DecidableEq, Repr

/-- The header of a clause. -/
structure Header where
  element : NodeId
  inAnnex : Bool
deriving DecidableEq, Repr

/-- A grammar fragment with the algorithm that follows it. -/
structure Operation where
  grammar : NodeId
  algorithm : NodeId
deriving DecidableEq, Repr

/-- A grammar fragment with the lists of errors that apply to it. -/
structure EarlyErrors where
  grammar : NodeId
  lists : List NodeId
deriving DecidableEq, Repr

structure Algorithm where
  element : NodeId
  context : Context
deriving DecidableEq, Repr

end Collection

structure Collection where
  headers : List Collection.Header
  grammars : List NodeId
  operations : List Collection.Operation
  earlyErrors : List Collection.EarlyErrors
  algorithms : List Collection.Algorithm
deriving DecidableEq, Repr

namespace Collection

/-- How a clause of early errors can fail to be grammar fragments each followed by lists. -/
inductive Shape where
  | noGrammar
  | listFirst
  | consecutiveGrammars
  | grammarWithoutList
deriving DecidableEq, Repr

inductive Problem where
  | unclosedAlgorithm
  | unclosedGrammar
  | earlyErrors (shape : Shape)
deriving DecidableEq, Repr

def Shape.message : Shape → String
  | noGrammar => "no <emu-grammar>"
  | listFirst => "<ul> without preceding <emu-grammar>"
  | consecutiveGrammars =>
    "multiple consecutive <emu-grammar>s without intervening <ul> of errors"
  | grammarWithoutList => "<emu-grammar> without following <ul> of errors"

def Problem.message : Problem → String
  | unclosedAlgorithm => "could not find closing tag for emu-alg"
  | unclosedGrammar => "could not find closing tag for emu-grammar"
  | earlyErrors shape => "unrecognized structure for early errors: " ++ shape.message

def Problem.rule : Problem → Rule
  | unclosedAlgorithm => .missingCloseTag
  | unclosedGrammar => .missingCloseTag
  | earlyErrors _ => .earlyErrorShape

/-- What a part of the walk has found. -/
structure Gathered where
  collection : Collection
  complaints : List (Complaint Problem)

namespace Gathered

def nothing : Gathered := ⟨⟨[], [], [], [], []⟩, []⟩

def append (a b : Gathered) : Gathered where
  collection := {
    headers := a.collection.headers ++ b.collection.headers
    grammars := a.collection.grammars ++ b.collection.grammars
    operations := a.collection.operations ++ b.collection.operations
    earlyErrors := a.collection.earlyErrors ++ b.collection.earlyErrors
    algorithms := a.collection.algorithms ++ b.collection.algorithms }
  complaints := a.complaints ++ b.complaints

instance : Append Gathered := ⟨append⟩

def ofHeader (header : Header) : Gathered :=
  { nothing with collection := { nothing.collection with headers := [header] } }

def ofGrammar (grammar : NodeId) : Gathered :=
  { nothing with collection := { nothing.collection with grammars := [grammar] } }

def ofOperation (operation : Operation) : Gathered :=
  { nothing with collection := { nothing.collection with operations := [operation] } }

def ofEarlyErrors (groups : List EarlyErrors) : Gathered :=
  { nothing with collection := { nothing.collection with earlyErrors := groups } }

def ofAlgorithm (algorithm : Algorithm) : Gathered :=
  { nothing with collection := { nothing.collection with algorithms := [algorithm] } }

def ofComplaint (complaint : Complaint Problem) : Gathered :=
  { nothing with complaints := [complaint] }

end Gathered

/-- Why a walk ends early. -/
inductive Stop where
  | fault (fault : Fault)
  /-- Early errors without their shape. Nothing else that was found counts then. -/
  | shape (complaint : Complaint Problem)

/-! ## Names -/

def clauseNames : List Text := ["emu-clause", "emu-annex"].map String.toList

def grammarName : Text := "emu-grammar".toList

def algorithmName : Text := "emu-alg".toList

def exampleName : Text := "emu-example".toList

def deletedName : Text := "del".toList

def headerName : Text := "h1".toList

def listName : Text := "ul".toList

def earlyErrorsTitle : Text := "Static Semantics: Early Errors".toList

/-! ## Parts of the walk -/

/-- The context inside an element. -/
def Context.enter (context : Context) (annex : Text) (e : Element) : Context where
  inAnnex := context.inAnnex || e.attribute? "id".toList = some annex
  inExample := context.inExample || e.name = exampleName
  inDeleted := context.inDeleted || e.name = deletedName

/-- A problem at the start tag of an element. -/
def complaintAt (problem : Problem) (id : NodeId) (e : Element) : Complaint Problem :=
  { problem, element := id, offset := e.startTag.start }

/-- The complaint that an element of grammar has no end tag. -/
def unclosed (id : NodeId) (e : Element) : List (Complaint Problem) :=
  if e.endTag.isSome then [] else [complaintAt .unclosedGrammar id e]

/-- An algorithm, unless it is an example. -/
def gatherAlgorithm (context : Context) (id : NodeId) (e : Element) : Gathered :=
  if (e.attribute? "example".toList).isSome || e.attribute? "type".toList = some "example".toList then
    .nothing
  else if e.endTag.isSome then .ofAlgorithm ⟨id, context⟩
  else .ofComplaint (complaintAt .unclosedAlgorithm id e)

/-- A definition of grammar, or a fragment if an algorithm follows. -/
def gatherGrammar (context : Context) (id : NodeId) (e : Element) (next : Option Tree) : Gathered :=
  if context.inAnnex || context.inDeleted then .nothing
  else if e.attribute? "type".toList = some "definition".toList then
    if e.endTag.isSome then .ofGrammar id else .ofComplaint (complaintAt .unclosedGrammar id e)
  else match next with
    | none => .nothing
    | some following =>
      if !following.isNamed algorithmName then .nothing
      else if e.endTag.isSome then .ofOperation ⟨id, following.id⟩
      else .ofComplaint (complaintAt .unclosedGrammar id e)

/-- A grammar fragment of early errors whose lists are being gathered. -/
structure Group where
  id : NodeId
  element : Element
  lists : List NodeId

def Group.earlyErrors (group : Group) : EarlyErrors := ⟨group.id, group.lists⟩

/-- The groups among the children of a clause of early errors, after `current`. -/
def groupsOf (clause : NodeId) (clauseElement : Element) (current : Option Group) :
    List Tree → Except (Complaint Problem) (List Group)
  | [] =>
    match current with
    | none => .error (complaintAt (.earlyErrors .noGrammar) clause clauseElement)
    | some group =>
      if group.lists.isEmpty then
        .error (complaintAt (.earlyErrors .grammarWithoutList) group.id group.element)
      else .ok [group]
  | .text .. :: rest => groupsOf clause clauseElement current rest
  | .element id e _ :: rest =>
    if e.name = grammarName then
      let begun := groupsOf clause clauseElement (some ⟨id, e, []⟩) rest
      match current with
      | none => begun
      | some group =>
        if group.lists.isEmpty then
          .error (complaintAt (.earlyErrors .consecutiveGrammars) id e)
        else begun.map (group :: ·)
    else if e.name = listName then
      match current with
      | none => .error (complaintAt (.earlyErrors .listFirst) id e)
      | some group =>
        groupsOf clause clauseElement (some { group with lists := group.lists ++ [id] }) rest
    else groupsOf clause clauseElement current rest

/-- The early errors of a clause. -/
def gatherEarlyErrors (clause : NodeId) (e : Element) (children : List Tree) :
    Except Stop Gathered :=
  match groupsOf clause e none children with
  | .error complaint => .error (.shape complaint)
  | .ok groups =>
    .ok { Gathered.ofEarlyErrors (groups.map Group.earlyErrors) with
      complaints := groups.flatMap fun group => unclosed group.id group.element }

/-- The header of a clause, and its early errors if that is its title. Only an `h1` that is the first
element counts as a header. -/
def gatherClause (doc : Document) (context : Context) (id : NodeId) (e : Element)
    (children : List Tree) : Except Stop Gathered :=
  match children.find? Tree.isElement with
  | none => .ok .nothing
  | some first =>
    if !first.isNamed headerName then .ok .nothing
    else
      let header := Gathered.ofHeader ⟨first.id, context.inAnnex⟩
      if context.inAnnex then .ok header
      else
        match doc.textOf first (some deletedName) with
        | .error fault => .error (.fault fault)
        | .ok title =>
          if title.trim = earlyErrorsTitle then
            (gatherEarlyErrors id e children).map (header ++ ·)
          else .ok header

/-! ## The walk -/

mutual

/-- Walks over a node and what is below it; `next` is the element that follows it. -/
def gatherNode (doc : Document) (annex : Text) :
    Tree → Context → Option Tree → Except Stop Gathered
  | .text .., _, _ => .ok .nothing
  | .element id e children, context, next =>
    let inside := context.enter annex e
    if clauseNames.contains e.name then do
      let own ← gatherClause doc inside id e children
      let below ← gather doc annex children inside
      return own ++ below
    else if e.name = grammarName then .ok (gatherGrammar inside id e next)
    else if e.name = algorithmName then .ok (gatherAlgorithm inside id e)
    else gather doc annex children inside

/-- Walks over siblings and what is below them. -/
def gather (doc : Document) (annex : Text) : List Tree → Context → Except Stop Gathered
  | [], _ => .ok .nothing
  | t :: rest, context => do
    let found ← gatherNode doc annex t context (rest.find? Tree.isElement)
    let others ← gather doc annex rest context
    return found ++ others

end

/-- The outcome of a walk. Without a collection the grammar, the algorithms and the headers are not
checked. -/
structure Outcome where
  collection : Option Collection
  complaints : List (Complaint Problem)
deriving DecidableEq, Repr

/-- The outcome of a walk that came to its end. Grammar without an end tag has no text to check, and then
there is no collection. -/
def Gathered.outcome (found : Gathered) : Outcome where
  collection :=
    if found.complaints.any (·.problem = .unclosedGrammar) then none else some found.collection
  complaints := found.complaints

/-- Gathers what there is to check in a document. -/
def collect (doc : Document) (annex : Text) : Except Fault Outcome := do
  match ← doc.tree Document.root with
  | .text .. => return Gathered.nothing.outcome
  | .element _ _ children =>
    match gather doc annex children ⟨false, false, false⟩ with
    | .error (.fault fault) => throw fault
    | .error (.shape complaint) => return ⟨none, [complaint]⟩
    | .ok found => return found.outcome

end Collection
end Errata
