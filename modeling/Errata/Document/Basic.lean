import Errata.Path

/-!
A document is a table of nodes, numbered from the root in the order in which they were added, together
with the texts that they were read from. An element keeps the numbers of its children and the positions
of its tags; a text node keeps the positions between which its text stands.
-/

namespace Errata

abbrev NodeId := Nat

abbrev SourceId := Nat

/-- A range of positions in one source. -/
structure Span where
  start : Nat
  stop : Nat
deriving DecidableEq, Repr

structure Source where
  filename : Path
  text : Text
deriving DecidableEq, Repr

structure Attribute where
  name : Text
  value : Text
deriving DecidableEq, Repr

structure Element where
  name : Text
  attributes : List Attribute
  children : List NodeId
  source : SourceId
  startTag : Span
  /-- Missing if the element was never closed. -/
  endTag : Option Span
deriving DecidableEq, Repr

inductive Content where
  | element (element : Element)
  | text (source : SourceId) (span : Span)
deriving DecidableEq, Repr

structure Node where
  parent : Option NodeId
  content : Content
deriving DecidableEq, Repr

structure Document where
  sources : List Source
  nodes : List Node
deriving DecidableEq, Repr

/-- Ways in which a question about a document has no answer. -/
inductive Fault where
  | noSuchNode (id : NodeId)
  /-- A path down from the node comes back to a node that it has passed. -/
  | endless (id : NodeId)
  | noSuchSource (id : SourceId)
  /-- The span is not one between two positions of the source. -/
  | noSuchSpan (source : SourceId) (span : Span)
  /-- The offset is not a position of the source. -/
  | noSuchPosition (source : SourceId) (offset : Nat)
  /-- The position lies beyond those that can be kept. -/
  | tooFar (offset : Nat)
deriving DecidableEq, Repr

/-- The element of a node, unless it is a text node. -/
def Node.element? (node : Node) : Option Element :=
  match node.content with
  | .element element => some element
  | .text .. => none

/-- Changes the element of a node; text nodes stay as they are. -/
def Node.mapElement (f : Element → Element) (node : Node) : Node :=
  match node.content with
  | .element element => { node with content := .element (f element) }
  | .text .. => node

namespace Document

/-- The number of the root. -/
def root : NodeId := 0

/-- The name of the root element, which stands for the whole of the main source. -/
def rootName : Text := "#document".toList

/-- A document of one source with no node but the root. -/
def ofSource (source : Source) : Document where
  sources := [source]
  nodes := [{
    parent := none
    content := .element {
      name := rootName
      attributes := []
      children := []
      source := 0
      startTag := ⟨0, 0⟩
      endTag := some ⟨source.text.size, source.text.size⟩ } }]

/-- Number of nodes; one more than the highest number in use. -/
def count (doc : Document) : Nat := doc.nodes.length

/-- Adds a source, whose number is the number of sources before. -/
def addSource (doc : Document) (source : Source) : Document :=
  { doc with sources := doc.sources ++ [source] }

/-- Adds a node, whose number is the number of nodes before, as the last child of its parent. A text
node has no children, so as a parent it stays as it is. -/
def append (doc : Document) (parent : NodeId) (content : Content) : Document :=
  -- the node is added first, so that it may be its own parent
  let nodes := doc.nodes ++ [{ parent := some parent, content }]
  let adopt (element : Element) := { element with children := element.children ++ [doc.count] }
  { doc with nodes := nodes.modify parent (Node.mapElement adopt) }

/-- Records where the end tag of an element was found. -/
def close (doc : Document) (id : NodeId) (endTag : Option Span) : Document :=
  { doc with nodes := doc.nodes.modify id (Node.mapElement fun e => { e with endTag }) }

/-- The text of a source. -/
def sourceText (doc : Document) (id : SourceId) : Except Fault Text :=
  match doc.sources[id]? with
  | some source => .ok source.text
  | none => .error (.noSuchSource id)

/-- The text between two positions of a source. -/
def slice (doc : Document) (source : SourceId) (span : Span) : Except Fault Text := do
  let text ← doc.sourceText source
  match text.slice? span.start span.stop with
  | some part => .ok part
  | none => .error (.noSuchSpan source span)

end Document
end Errata
