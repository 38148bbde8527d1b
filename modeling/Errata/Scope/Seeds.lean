import Errata.Document.Tree
import Errata.Text.Occurrence
import Errata.Text.Word

/-!
The names that an algorithm may use without a declaration: those written as variables in the prose before
it, in the same clause. The search goes backwards and ends at the excluded annex.
-/

namespace Errata.Scope

/-- A name between underscores that is a word of its own. -/
def namePattern : Text.Pattern := fun previous t =>
  match t with
  | '_' :: rest =>
    let name := rest.takeWhile Text.isAsciiAlphanum
    let after := rest.drop name.length
    if !previous.any Text.isWord && !name.isEmpty && after.head? = some '_' &&
      !(after.drop 1).head?.any Text.isWord
    then some { lead := 1, width := name.length + 2 }
    else none
  | _ => none

/-- The names written as variables in a text. -/
def namesIn (t : Text) : List Text :=
  (Text.occurrences namePattern t).map fun place => (t.drop place).takeWhile Text.isAsciiAlphanum

def hasId (doc : Document) (node : NodeId) (id : Text) : Bool :=
  doc.attribute? node "id".toList = some id

/-- Elements beyond which the search does not go. -/
def clauseLike : List Text := ["emu-clause", "emu-annex", "emu-intro"].map String.toList

def isClauseLike (doc : Document) (node : NodeId) : Bool :=
  (doc.name? node).any clauseLike.contains

/-- The names in some nodes up to the annex, and whether the annex is among the nodes. -/
def namesInNodes (doc : Document) (annex : Text) : List NodeId → Except Fault (List Text × Bool)
  | [] => .ok ([], false)
  | node :: nodes => do
    if hasId doc node annex then return ([], true)
    let names := namesIn (← doc.textContent node)
    let (others, stopped) ← namesInNodes doc annex nodes
    return (names ++ others, stopped)

/-- The names before a node inside the elements around it, which are given from the inside out. -/
def namesBefore (doc : Document) (annex : Text) (node : NodeId) :
    List NodeId → Except Fault (List Text)
  | [] => .ok []
  | parent :: above => do
    if hasId doc parent annex then return []
    let earlier := (doc.children parent).takeWhile (· ≠ node)
    let (names, stopped) ← namesInNodes doc annex earlier.reverse
    if stopped || parent = Document.root || isClauseLike doc parent then return names
    return names ++ (← namesBefore doc annex parent above)

/-- The names that the prose before an algorithm mentions. -/
def seeds (doc : Document) (annex : Text) (algorithm : NodeId) : Except Fault (List Text) :=
  namesBefore doc annex algorithm (doc.ancestors algorithm)

end Errata.Scope
