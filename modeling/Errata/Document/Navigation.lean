import Errata.Document.Basic

/-!
Questions about the neighbours of a node. A number that is not in use is answered like a text node
without a parent.
-/

namespace Errata

namespace Document

def node? (doc : Document) (id : NodeId) : Option Node := doc.nodes[id]?

def element? (doc : Document) (id : NodeId) : Option Element :=
  (doc.node? id).bind Node.element?

def isElement (doc : Document) (id : NodeId) : Bool := (doc.element? id).isSome

def parent? (doc : Document) (id : NodeId) : Option NodeId := (doc.node? id).bind Node.parent

/-- The name of an element, in small letters. -/
def name? (doc : Document) (id : NodeId) : Option Text := (doc.element? id).map Element.name

/-- Whether the node is an element of the given name. -/
def isNamed (doc : Document) (id : NodeId) (name : Text) : Bool := doc.name? id = some name

end Document

namespace Element

/-- The value of an attribute; of two attributes of one name the first counts. -/
def attribute? (element : Element) (name : Text) : Option Text :=
  (element.attributes.find? (·.name = name)).map Attribute.value

end Element

namespace Document

def attribute? (doc : Document) (id : NodeId) (name : Text) : Option Text :=
  (doc.element? id).bind (·.attribute? name)

def children (doc : Document) (id : NodeId) : List NodeId :=
  ((doc.element? id).map Element.children).getD []

def elementChildren (doc : Document) (id : NodeId) : List NodeId :=
  (doc.children id).filter doc.isElement

def firstElementChild? (doc : Document) (id : NodeId) : Option NodeId :=
  (doc.elementChildren id).head?

def lastElementChild? (doc : Document) (id : NodeId) : Option NodeId :=
  (doc.elementChildren id).getLast?

/-- The parents of a node from the inside out, at most `depth` of them. -/
def ancestorsOfDepth (doc : Document) : Nat → NodeId → List NodeId
  | 0, _ => []
  | depth + 1, id =>
    match doc.parent? id with
    | none => []
    | some parent => parent :: doc.ancestorsOfDepth depth parent

/-- All elements around a node, from the inside out. A path up that passes no node twice has at most as
many nodes as the document. -/
def ancestors (doc : Document) (id : NodeId) : List NodeId := doc.ancestorsOfDepth doc.count id

/-- The children of the node's parent that stand before and after the node. -/
def siblings? (doc : Document) (id : NodeId) : Option (List NodeId × List NodeId) := do
  let parent ← doc.parent? id
  let all := doc.children parent
  if id ∈ all then
    some (all.takeWhile (· ≠ id), (all.dropWhile (· ≠ id)).drop 1)
  else none

def nextElement? (doc : Document) (id : NodeId) : Option NodeId :=
  (doc.siblings? id).bind fun (_, after) => after.find? doc.isElement

def previousElement? (doc : Document) (id : NodeId) : Option NodeId :=
  (doc.siblings? id).bind fun (before, _) => before.reverse.find? doc.isElement

end Document
end Errata
