import Errata.Document.Position
import Errata.Document.Tree
import Errata.Markup.Reader

/-!
Questions about a document and changes to it, asked by the numbers of nodes and sources. Unlike the
functions behind them they notice a number that is not in use, and then there is no answer.
-/

namespace Errata

/-- A node as it is shown: a text node with what is written there. -/
inductive NodeView where
  | element (parent : Option NodeId) (element : Element)
  | text (parent : Option NodeId) (source : SourceId) (span : Span) (written : Text)
deriving DecidableEq, Repr

inductive Query where
  | addSource (source : Source)
  | readInto (source : SourceId) (parent : NodeId)
  | append (parent : NodeId) (content : Content)
  | close (id : NodeId) (endTag : Option Span)
  | node (id : NodeId)
  | count
  | parent (id : NodeId)
  | name (id : NodeId)
  | isNamed (id : NodeId) (name : Text)
  | attributeValue (id : NodeId) (name : Text)
  | hasAttribute (id : NodeId) (name : Text)
  | children (id : NodeId)
  | elementChildren (id : NodeId)
  | firstElementChild (id : NodeId)
  | lastElementChild (id : NodeId)
  | nextElement (id : NodeId)
  | previousElement (id : NodeId)
  | contains (id : NodeId) (name : Text)
  | text (id : NodeId)
  | textContent (id : NodeId)
  | textExcluding (id : NodeId) (name : Text)
  | textOffset (id : NodeId) (name : Text) (index : Nat)
  | inner (id : NodeId)
  | lineColumn (source : SourceId) (offset : Nat)
  | lineNumber (source : SourceId) (offset : Nat)
  | columnNumber (source : SourceId) (offset : Nat)
deriving DecidableEq, Repr

inductive Answer where
  | number (n : Option Nat)
  | numbers (ns : List Nat)
  | truth (b : Bool)
  | text (t : Option Text)
  | view (node : NodeView)
  | inner (found : Option (Nat × Text))
  | position (line column : Nat)
deriving DecidableEq, Repr

namespace Document

def existing (doc : Document) (id : NodeId) : Except Fault Node :=
  match doc.node? id with
  | some node => .ok node
  | none => .error (.noSuchNode id)

def view (doc : Document) (id : NodeId) : Except Fault NodeView := do
  let node ← doc.existing id
  match node.content with
  | .element element => return .element node.parent element
  | .text source span => return .text node.parent source span (← doc.slice source span)

/-- All nodes in the order of their numbers. -/
def views (doc : Document) : Except Fault (List NodeView) := (List.range doc.count).mapM doc.view

/-- What is written at a text node. -/
def textOf? (doc : Document) (id : NodeId) : Except Fault (Option Text) := do
  match (← doc.existing id).content with
  | .element _ => return none
  | .text source span => return some (← doc.slice source span)

/-- A new node may hang under every node that is there when it has been added. -/
def checkParent (doc : Document) (parent : NodeId) : Except Fault Unit :=
  if parent ≤ doc.count then .ok () else .error (.noSuchNode parent)

/-- The answer to a query, with the document after it. -/
def ask (doc : Document) : Query → Except Fault (Document × Answer)
  | .addSource source => return (doc.addSource source, .number doc.sources.length)
  | .readInto source parent => do
    let after ← Markup.readInto doc source parent
    if after.count ≠ doc.count then doc.checkParent parent
    return (after, .number after.count)
  | .append parent content => do
    doc.checkParent parent
    return (doc.append parent content, .number doc.count)
  | .close id endTag => do
    let _ ← doc.existing id
    let after := doc.close id endTag
    return (after, .view (← after.view id))
  | .node id => return (doc, .view (← doc.view id))
  | .count => return (doc, .number doc.count)
  | .parent id => return (doc, .number (← doc.existing id).parent)
  | .name id => return (doc, .text ((← doc.existing id).element?.map Element.name))
  | .isNamed id name => do
    let _ ← doc.existing id
    return (doc, .truth (doc.isNamed id name))
  | .attributeValue id name => do
    let _ ← doc.existing id
    return (doc, .text (doc.attribute? id name))
  | .hasAttribute id name => do
    let _ ← doc.existing id
    return (doc, .truth (doc.attribute? id name).isSome)
  | .children id => do
    let _ ← doc.existing id
    return (doc, .numbers (doc.children id))
  | .elementChildren id => do
    let _ ← doc.existing id
    return (doc, .numbers (doc.elementChildren id))
  | .firstElementChild id => do
    let _ ← doc.existing id
    return (doc, .number (doc.firstElementChild? id))
  | .lastElementChild id => do
    let _ ← doc.existing id
    return (doc, .number (doc.lastElementChild? id))
  | .nextElement id => do
    let _ ← doc.existing id
    return (doc, .number (doc.nextElement? id))
  | .previousElement id => do
    let _ ← doc.existing id
    return (doc, .number (doc.previousElement? id))
  | .contains id name => return (doc, .truth (← doc.contains id name))
  | .text id => return (doc, .text (← doc.textOf? id))
  | .textContent id => return (doc, .text (some (← doc.textContent id)))
  | .textExcluding id name => return (doc, .text (some (← doc.textExcluding id name)))
  | .textOffset id name index => return (doc, .number (← doc.textOffset? id name index))
  | .inner id => do
    match (← doc.existing id).element? with
    | none => return (doc, .inner none)
    | some element => return (doc, .inner (← doc.inner element))
  | .lineColumn source offset => do
    let (line, column) ← doc.lineColumn source offset
    return (doc, .position line column)
  | .lineNumber source offset => return (doc, .number (← doc.before source offset).newlines)
  | .columnNumber source offset => return (doc, .number (← doc.before source offset).lastLineLength)

/-- The answers to queries one after another. The first that has no answer ends them. -/
def askAll (doc : Document) : List Query → List (Except Fault Answer)
  | [] => []
  | query :: queries =>
    match doc.ask query with
    | .error fault => [.error fault]
    | .ok (after, answer) => .ok answer :: askAll after queries

end Document
end Errata
