import Errata.Document.Navigation

/-!
The tree below a node, and the text in it.
-/

namespace Errata

/-- A node with everything below it. The numbers are those of the document. -/
inductive Tree where
  | text (id : NodeId) (source : SourceId) (span : Span)
  | element (id : NodeId) (element : Element) (children : List Tree)

namespace Tree

def id : Tree → NodeId
  | .text id .. => id
  | .element id .. => id

def element? : Tree → Option Element
  | .text .. => none
  | .element _ e _ => some e

def isElement (t : Tree) : Bool := t.element?.isSome

def isNamed (t : Tree) (name : Text) : Bool := t.element?.any (·.name = name)

/-- The text nodes of a tree from left to right, without those inside elements of an excluded name. -/
def texts (excluded : Option Text) : Tree → List (SourceId × Span)
  | .text _ source span => [(source, span)]
  | .element _ e children => if excluded = some e.name then [] else textsAll excluded children
where
  textsAll (excluded : Option Text) : List Tree → List (SourceId × Span)
    | [] => []
    | t :: ts => texts excluded t ++ textsAll excluded ts

end Tree

namespace Document

/-- The tree below a node, if it has at most `depth` levels. Nothing is kept below elements of an
excluded name. -/
def treeOfDepth? (doc : Document) (excluded : Option Text) : Nat → NodeId → Option Tree
  | 0, _ => none
  | depth + 1, id =>
    match doc.node? id with
    | none => none
    | some { content := .text source span, .. } => some (.text id source span)
    | some { content := .element element, .. } =>
      if excluded = some element.name then some (.element id element [])
      else (element.children.mapM (doc.treeOfDepth? excluded depth)).map (.element id element)

/-- Why nothing can be said about what stands below a node. A path down that passes no node twice has at
most as many levels as there are nodes, so one that goes on has no end. -/
def faultBelow (doc : Document) (id : NodeId) : Fault :=
  if id < doc.count then .endless id else .noSuchNode id

/-- The tree below a node, down to elements of an excluded name. -/
def treeWithout (doc : Document) (excluded : Option Text) (id : NodeId) : Except Fault Tree :=
  match doc.treeOfDepth? excluded doc.count id with
  | some t => .ok t
  | none => .error (doc.faultBelow id)

/-- The tree below a node. -/
def tree (doc : Document) (id : NodeId) : Except Fault Tree := doc.treeWithout none id

/-- Whether an element of the given name stands below the node, if the first `depth` levels show it. The
search goes from left to right and ends at the first such element. -/
def containsWithin? (doc : Document) (name : Text) : Nat → NodeId → Option Bool
  | 0, _ => none
  | depth + 1, id =>
    match doc.node? id with
    | none => none
    | some _ => (doc.children id).anyM fun child =>
        if doc.isNamed child name then some true else doc.containsWithin? name depth child

/-- Whether an element of the given name stands below the node. -/
def contains (doc : Document) (id : NodeId) (name : Text) : Except Fault Bool :=
  match doc.containsWithin? name doc.count id with
  | some found => .ok found
  | none => .error (doc.faultBelow id)

/-- The text nodes of a tree with what is written there. -/
def textPieces (doc : Document) (t : Tree) (excluded : Option Text) :
    Except Fault (List (Span × Text)) :=
  (t.texts excluded).mapM fun (source, span) => do
    let text ← doc.slice source span
    return (span, text)

/-- All text of a tree. -/
def textOf (doc : Document) (t : Tree) (excluded : Option Text) : Except Fault Text := do
  let pieces ← doc.textPieces t excluded
  return pieces.flatMap Prod.snd

def textContent (doc : Document) (id : NodeId) : Except Fault Text := do
  doc.textOf (← doc.tree id) none

/-- The text below a node, without what stands inside elements of the excluded name. -/
def textExcluding (doc : Document) (id : NodeId) (excluded : Text) : Except Fault Text := do
  doc.textOf (← doc.treeWithout (some excluded) id) (some excluded)

/-- The position of the byte with the given index in the joined text of `pieces`. Past their end it is
the end of the last piece. -/
def pieceOffset? : List (Span × Text) → Nat → Option Nat
  | [], _ => none
  | (span, text) :: pieces, index =>
    if index < text.size then some (span.start + index)
    else (pieceOffset? pieces (index - text.size)).or (some span.stop)

/-- Where in its source the byte with the given index in `textExcluding` stands. -/
def textOffset? (doc : Document) (id : NodeId) (excluded : Text) (index : Nat) :
    Except Fault (Option Nat) := do
  let pieces ← doc.textPieces (← doc.treeWithout (some excluded) id) (some excluded)
  return pieceOffset? pieces index

/-- The markup between an element's tags, with the position it starts at. There is none without an end
tag. -/
def inner (doc : Document) (element : Element) : Except Fault (Option (Nat × Text)) := do
  let text ← doc.sourceText element.source
  match element.endTag with
  | none => return none
  | some endTag =>
    let span : Span := ⟨element.startTag.stop, endTag.start⟩
    match text.slice? span.start span.stop with
    | none => throw (.noSuchSpan element.source span)
    | some part => return some (span.start, part)

end Document
end Errata
