import Errata.Document.Navigation
import Errata.Markup.Token

/-!
Reading is forgiving: an element that is still open when one around it is closed, or when the text ends,
is closed there and records no end tag, and an end tag without an element to close is dropped.
-/

namespace Errata.Markup

/-- Elements that never have content. -/
def voidNames : List Text :=
  ["area", "base", "br", "col", "embed", "hr", "img", "input", "link", "meta", "source", "track",
    "wbr"].map String.toList

/-- Elements that end where another of their name begins. -/
def selfEndingNames : List Text := ["p", "li"].map String.toList

/-- The element that a start tag begins. -/
def Tag.element (tag : Tag) (source : SourceId) (span : Span) (endTag : Option Span) : Element where
  name := tag.name
  attributes := tag.attributes
  children := []
  source := source
  startTag := span
  endTag := endTag

/-- A document being read, with the elements that are still open, the innermost first. -/
structure Reading where
  document : Document
  opened : List (NodeId × Text)

namespace Reading

/-- Where the next node belongs: in the innermost open element, or in `base`. -/
def current (r : Reading) (base : NodeId) : NodeId := (r.opened.head?.map Prod.fst).getD base

/-- Ends the innermost element if one of the given name cannot stand in it; the result is where an
element of that name belongs. -/
def makeRoom (r : Reading) (base : NodeId) (name : Text) : List (NodeId × Text) × NodeId :=
  match r.opened with
  | (id, innermost) :: outer =>
    if innermost = name && selfEndingNames.contains name then
      (outer, (r.document.parent? id).getD base)
    else (r.opened, id)
  | [] => ([], base)

/-- Takes the elements through the innermost of the given name off those that are open. -/
def closing? (name : Text) : List (NodeId × Text) → Option (NodeId × List (NodeId × Text))
  | [] => none
  | (id, innermost) :: outer => if innermost = name then some (id, outer) else closing? name outer

/-- Adds what one token stands for. -/
def add (source : SourceId) (base : NodeId) (r : Reading) : Token → Reading
  | .text span =>
    { r with document := r.document.append (r.current base) (.text source span) }
  | .comment _ => r
  | .startTag tag span =>
    let (opened, parent) := r.makeRoom base tag.name
    let id := r.document.count
    -- an element without content ends where its start tag ends
    if tag.closed || voidNames.contains tag.name then
      let element := tag.element source span (some ⟨span.stop, span.stop⟩)
      { document := r.document.append parent (.element element), opened }
    else
      let element := tag.element source span none
      { document := r.document.append parent (.element element), opened := (id, tag.name) :: opened }
  | .rawElement tag span inner endTag =>
    let (opened, parent) := r.makeRoom base tag.name
    let id := r.document.count
    let document := r.document.append parent (.element (tag.element source span endTag))
    if inner.start < inner.stop then
      { document := document.append id (.text source inner), opened }
    else { document, opened }
  | .endTag name span =>
    match closing? name r.opened with
    | some (id, opened) => { document := r.document.close id (some span), opened }
    | none => r

end Reading

/-- Reads a text that is a source of the document, and hangs what it finds under `base`. -/
def readText (doc : Document) (text : Text) (source : SourceId) (base : NodeId) : Document :=
  ((tokens (.atStart text 0)).foldl (Reading.add source base) ⟨doc, []⟩).document

/-- Reads a source of the document, and hangs what it finds under `base`. -/
def readInto (doc : Document) (source : SourceId) (base : NodeId) : Except Fault Document := do
  return readText doc (← doc.sourceText source) source base

/-- The document that a text is, without the files that it imports. -/
def read (filename : Path) (text : Text) : Document :=
  readText (.ofSource ⟨filename, text⟩) text 0 Document.root

end Errata.Markup
