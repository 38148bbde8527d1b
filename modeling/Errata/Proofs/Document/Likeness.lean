import Errata.Document.Query
import Errata.Proofs.Document.Depiction

/-!
# Documents with the same tree

Two documents may have the same tree and differ in what is written at their text nodes, and so in the
positions of all that follows. What is asked about elements has the same answers in both. So has what is
asked about the text below a node, if the texts differ only elsewhere.
-/

namespace Errata

/-! ## 1. Outlines -/

/-- An element without its positions. -/
def Element.outline (e : Element) : Element :=
  { e with source := 0, startTag := ⟨0, 0⟩, endTag := e.endTag.map fun _ => ⟨0, 0⟩ }

def Content.outline : Content → Content
  | .element e => .element e.outline
  | .text _ _ => .text 0 ⟨0, 0⟩

/-- A node without its positions. -/
def Node.outline (node : Node) : Node := { node with content := node.content.outline }

theorem Node.element?_outline (node : Node) : node.outline.element? = node.element?.map Element.outline := by
  obtain ⟨parent, content⟩ := node
  cases content with
  | element e => rfl
  | text source span => rfl

namespace Element

variable {e e' : Element}

theorem name_eq_of_outline (h : e'.outline = e.outline) : e'.name = e.name := by
  have hname : e'.outline.name = e.outline.name := by rw [h]
  exact hname

theorem attribute?_eq_of_outline (h : e'.outline = e.outline) (name : Text) :
    e'.attribute? name = e.attribute? name := by
  have hattribute : e'.outline.attribute? name = e.outline.attribute? name := by rw [h]
  exact hattribute

theorem children_eq_of_outline (h : e'.outline = e.outline) : e'.children = e.children := by
  have hchildren : e'.outline.children = e.outline.children := by rw [h]
  exact hchildren

theorem isSome_endTag_of_outline (h : e'.outline = e.outline) : e'.endTag.isSome = e.endTag.isSome := by
  have hend : e'.outline.endTag.isSome = e.outline.endTag.isSome := by rw [h]
  rwa [outline, outline, Option.isSome_map, Option.isSome_map] at hend

end Element

namespace Document

/-- The documents have the same tree. -/
def IsLike (doc other : Document) : Prop := other.nodes.map Node.outline = doc.nodes.map Node.outline

namespace IsLike

variable {doc other : Document} (h : doc.IsLike other)
include h

theorem count_eq : other.count = doc.count := by
  have hlength := congrArg List.length h
  rwa [List.length_map, List.length_map] at hlength

theorem node?_eq (id : NodeId) : (other.node? id).map Node.outline = (doc.node? id).map Node.outline := by
  have hget := congrArg (fun nodes => nodes[id]?) h
  rwa [List.getElem?_map, List.getElem?_map] at hget

theorem parent?_eq (id : NodeId) : other.parent? id = doc.parent? id := by
  have hparent := congrArg (Option.bind · Node.parent) (h.node?_eq id)
  simp only [Option.bind_map] at hparent
  exact hparent

theorem element?_eq (id : NodeId) :
    (other.element? id).map Element.outline = (doc.element? id).map Element.outline := by
  have helement := congrArg (Option.bind · Node.element?) (h.node?_eq id)
  simp only [Option.bind_map, Function.comp_def, Node.element?_outline] at helement
  rw [element?, element?, Option.map_bind, Option.map_bind]
  exact helement

theorem exists_element? {id : NodeId} {e : Element} (he : doc.element? id = some e) :
    ∃ e', other.element? id = some e' ∧ e'.outline = e.outline := by
  have heq := h.element?_eq id
  rw [he] at heq
  exact Option.map_eq_some_iff.mp heq

theorem exists_text {id : NodeId} {parent : Option NodeId} {source : SourceId} {span : Span}
    (hnode : doc.node? id = some ⟨parent, .text source span⟩) :
    ∃ source' span', other.node? id = some ⟨parent, .text source' span'⟩ := by
  have heq := h.node?_eq id
  rw [hnode] at heq
  obtain ⟨⟨parent', content⟩, hother, houtline⟩ := Option.map_eq_some_iff.mp heq
  cases content with
  | element e => cases houtline
  | text source' span' =>
    cases houtline
    exact ⟨source', span', hother⟩

theorem exists_element {id : NodeId} {parent : Option NodeId} {e : Element}
    (hnode : doc.node? id = some ⟨parent, .element e⟩) :
    ∃ e', other.node? id = some ⟨parent, .element e'⟩ ∧ e'.outline = e.outline := by
  have heq := h.node?_eq id
  rw [hnode] at heq
  obtain ⟨⟨parent', content⟩, hother, houtline⟩ := Option.map_eq_some_iff.mp heq
  cases content with
  | text source' span' => cases houtline
  | element e' =>
    obtain ⟨rfl, hcontent⟩ := Node.mk.inj houtline
    exact ⟨e', hother, Content.element.inj hcontent⟩

/-! ### Questions about elements -/

theorem name?_eq (id : NodeId) : other.name? id = doc.name? id := by
  have hname := congrArg (Option.map Element.name) (h.element?_eq id)
  simp only [Option.map_map] at hname
  exact hname

theorem attribute?_eq (id : NodeId) (name : Text) : other.attribute? id name = doc.attribute? id name := by
  have hattribute := congrArg (Option.bind · (·.attribute? name)) (h.element?_eq id)
  simp only [Option.bind_map] at hattribute
  exact hattribute

theorem children_eq (id : NodeId) : other.children id = doc.children id := by
  have hchildren := congrArg (fun e? => (Option.map Element.children e?).getD []) (h.element?_eq id)
  simp only [Option.map_map] at hchildren
  exact hchildren

theorem ancestors_eq (id : NodeId) : other.ancestors id = doc.ancestors id := by
  have hdepth : ∀ depth id, other.ancestorsOfDepth depth id = doc.ancestorsOfDepth depth id := by
    intro depth
    induction depth with
    | zero => exact fun _ => rfl
    | succ depth ih =>
      intro id
      rw [ancestorsOfDepth, ancestorsOfDepth, h.parent?_eq]
      cases doc.parent? id with
      | none => rfl
      | some parent => exact congrArg (parent :: ·) (ih parent)
  rw [ancestors, ancestors, h.count_eq, hdepth]

end IsLike

end Document

/-! ## 2. Trees -/

namespace Tree

/-- The tree of the same nodes, with what a document says of them. -/
def takenFrom (doc : Document) : Tree → Tree
  | .text id source span =>
    match doc.node? id with
    | some { content := .text source' span', .. } => .text id source' span'
    | _ => .text id source span
  | .element id e children => .element id ((doc.element? id).getD e) (takenAll doc children)
where
  takenAll (doc : Document) : List Tree → List Tree
    | [] => []
    | t :: ts => takenFrom doc t :: takenAll doc ts

variable {doc other : Document}

theorem takenAll_eq_map (doc : Document) (ts : List Tree) :
    takenFrom.takenAll doc ts = ts.map (takenFrom doc) := by
  induction ts with
  | nil => rfl
  | cons t ts ih => rw [takenFrom.takenAll, ih, List.map_cons]

theorem takenFrom_text {id : NodeId} {parent : Option NodeId} {source' : SourceId} {span' : Span}
    (hnode : doc.node? id = some ⟨parent, .text source' span'⟩) (source : SourceId) (span : Span) :
    takenFrom doc (.text id source span) = .text id source' span' := by
  rw [takenFrom, hnode]

theorem takenFrom_element {id : NodeId} {e' : Element} (he : doc.element? id = some e') (e : Element)
    (children : List Tree) :
    takenFrom doc (.element id e children) = .element id e' (children.map (takenFrom doc)) := by
  rw [takenFrom, he, takenAll_eq_map]
  rfl

theorem id_takenFrom (doc : Document) (t : Tree) : (t.takenFrom doc).id = t.id := by
  cases t with
  | text id source span =>
    rw [takenFrom]
    split
    · rfl
    · rfl
  | element id e children => rfl

theorem isElement_takenFrom (doc : Document) (t : Tree) : (t.takenFrom doc).isElement = t.isElement := by
  cases t with
  | text id source span =>
    rw [takenFrom]
    split
    · rfl
    · rfl
  | element id e children => rfl

theorem find?_isElement_takenFrom (doc : Document) (ts : List Tree) :
    (ts.map (takenFrom doc)).find? isElement = (ts.find? isElement).map (takenFrom doc) := by
  have hsame : isElement ∘ takenFrom doc = isElement := funext (isElement_takenFrom doc)
  rw [List.find?_map, hsame]

theorem isNamed_takenFrom (h : doc.IsLike other) {above : Option NodeId} {t : Tree} (ht : t.Depicts doc above)
    (name : Text) : (t.takenFrom other).isNamed name = t.isNamed name := by
  cases ht with
  | text hnode =>
    obtain ⟨source', span', hother⟩ := h.exists_text hnode
    rw [takenFrom_text hother]
    rfl
  | @element _ id e children hnode hids hchildren =>
    obtain ⟨e', he', houtline⟩ := h.exists_element? (Document.element?_eq_some_of_node? hnode)
    rw [takenFrom_element he', isNamed, isNamed]
    simp only [element?, Option.any_some, Element.name_eq_of_outline houtline]

end Tree

namespace Document

variable {doc other : Document}

theorem mapM_map_eq {α β : Type} {f f' : α → Option β} {g : β → β} {l : List α}
    (h : ∀ a ∈ l, f' a = (f a).map g) : l.mapM f' = (l.mapM f).map (List.map g) := by
  induction l with
  | nil => rfl
  | cons a l ih =>
    rw [List.mapM_cons, List.mapM_cons, h a List.mem_cons_self,
      ih fun a' ha' => h a' (List.mem_cons_of_mem a ha')]
    cases f a with
    | none => rfl
    | some b =>
      cases l.mapM f with
      | none => rfl
      | some bs => rfl

/-- The tree below a node is that of the other document, as this one tells it. -/
theorem IsLike.treeOfDepth?_eq (h : doc.IsLike other) (depth : Nat) (id : NodeId) :
    other.treeOfDepth? none depth id = (doc.treeOfDepth? none depth id).map (Tree.takenFrom other) := by
  induction depth generalizing id with
  | zero => rfl
  | succ depth ih =>
    cases hnode : doc.node? id with
    | none =>
      have hnone := h.node?_eq id
      rw [hnode, Option.map_none, Option.map_eq_none_iff] at hnone
      rw [treeOfDepth?, treeOfDepth?, hnode, hnone]
      rfl
    | some node =>
      obtain ⟨parent, content⟩ := node
      cases content with
      | text source span =>
        obtain ⟨source', span', hother⟩ := h.exists_text hnode
        rw [treeOfDepth?, treeOfDepth?, hnode, hother]
        exact congrArg some (Tree.takenFrom_text hother source span).symm
      | element e =>
        obtain ⟨e', hother, houtline⟩ := h.exists_element hnode
        have hmapM : e.children.mapM (other.treeOfDepth? none depth) =
            (e.children.mapM (doc.treeOfDepth? none depth)).map (List.map (Tree.takenFrom other)) :=
          mapM_map_eq fun child _ => ih child
        rw [treeOfDepth?, treeOfDepth?, hnode, hother]
        simp only [reduceCtorEq, if_false]
        rw [Element.children_eq_of_outline houtline, hmapM, Option.map_map, Option.map_map]
        congr 1
        funext children
        exact (Tree.takenFrom_element (element?_eq_some_of_node? hother) e children).symm

theorem IsLike.tree_eq (h : doc.IsLike other) {id : NodeId} {t : Tree} (ht : doc.tree id = .ok t) :
    other.tree id = .ok (t.takenFrom other) := by
  unfold tree treeWithout at ht ⊢
  rw [h.count_eq, h.treeOfDepth?_eq]
  split at ht
  · rename_i t' ht'
    cases ht
    rw [ht']
    rfl
  · cases ht

/-! ## 3. Text -/

/-- The texts at some spans, one after another. -/
def textAt (doc : Document) (spans : List (SourceId × Span)) : Except Fault Text :=
  match spans with
  | [] => .ok []
  | (source, span) :: spans => do
    let first ← doc.slice source span
    return first ++ (← doc.textAt spans)

theorem textOf_eq_textAt (doc : Document) (t : Tree) (excluded : Option Text) :
    doc.textOf t excluded = doc.textAt (t.texts excluded) := by
  rw [textOf, textPieces]
  induction t.texts excluded with
  | nil => rfl
  | cons x spans ih =>
    obtain ⟨source, span⟩ := x
    rw [List.mapM_cons, textAt, ← ih]
    dsimp only
    cases doc.slice source span with
    | error fault => rfl
    | ok first =>
      dsimp only [bind, Except.bind]
      generalize List.mapM (m := Except Fault) _ spans = found
      cases found with
      | error fault => rfl
      | ok pieces => rfl

theorem textAt_append (doc : Document) (spans others : List (SourceId × Span)) :
    doc.textAt (spans ++ others) = (do
      let first ← doc.textAt spans
      return first ++ (← doc.textAt others)) := by
  induction spans with
  | nil =>
    rw [List.nil_append, textAt]
    dsimp only [bind, Except.bind]
    cases doc.textAt others with
    | error fault => rfl
    | ok text => rfl
  | cons x spans ih =>
    obtain ⟨source, span⟩ := x
    rw [List.cons_append, textAt, textAt, ih]
    cases doc.slice source span with
    | error fault => rfl
    | ok first =>
      cases doc.textAt spans with
      | error fault => rfl
      | ok second =>
        cases doc.textAt others with
        | error fault => rfl
        | ok third => simp [bind, Except.bind, pure, Except.pure]

theorem textAt_textsAll_map {excluded : Option Text} {f : Tree → Tree} {ts : List Tree}
    (h : ∀ t ∈ ts, other.textAt ((f t).texts excluded) = doc.textAt (t.texts excluded)) :
    other.textAt (Tree.texts.textsAll excluded (ts.map f)) = doc.textAt (Tree.texts.textsAll excluded ts) := by
  induction ts with
  | nil => rfl
  | cons t ts ih =>
    rw [List.forall_mem_cons] at h
    rw [List.map_cons, Tree.texts.textsAll, Tree.texts.textsAll, textAt_append, textAt_append, h.1, ih h.2]

/-- The documents have the same tree, and what is written at text nodes is the same outside an element. -/
structure AgreesOutside (doc other : Document) (id : NodeId) : Prop where
  isLike : doc.IsLike other
  text_eq : ∀ node, node < doc.count → id ∉ doc.ancestors node → other.textOf? node = doc.textOf? node

theorem slice_eq_of_textOf?_eq {id : NodeId} {parent parent' : Option NodeId} {source source' : SourceId}
    {span span' : Span} (hnode : doc.node? id = some ⟨parent, .text source span⟩)
    (hother : other.node? id = some ⟨parent', .text source' span'⟩) (h : other.textOf? id = doc.textOf? id) :
    other.slice source' span' = doc.slice source span := by
  simp only [textOf?, existing, hnode, hother] at h
  dsimp only [bind, Except.bind] at h
  cases hslice : doc.slice source span with
  | error fault =>
    rw [hslice] at h
    cases hslice' : other.slice source' span' with
    | error fault' =>
      rw [hslice'] at h
      cases h
      rfl
    | ok text =>
      rw [hslice'] at h
      cases h
  | ok text =>
    rw [hslice] at h
    cases hslice' : other.slice source' span' with
    | error fault' =>
      rw [hslice'] at h
      cases h
    | ok text' =>
      rw [hslice'] at h
      cases h
      rfl

/-- The node is not in the element, and the element is not in the node. -/
def IsApart (doc : Document) (id node : NodeId) : Prop :=
  id ∉ node :: doc.ancestors node ∧ node ∉ doc.ancestors id

/-- The text below a node apart from the element is the same. -/
theorem AgreesOutside.textOf_takenFrom {id : NodeId} (h : doc.AgreesOutside other id) (hdoc : doc.IsTree)
    {t : Tree} {above : Option NodeId} (ht : t.Depicts doc above) (hapart : doc.IsApart id t.id)
    (excluded : Option Text) : other.textOf (t.takenFrom other) excluded = doc.textOf t excluded := by
  -- no node of the tree is in the element
  have houtside : ∀ node ∈ t.ids, id ∉ doc.ancestors node := by
    intro node hnode hmem
    rcases hdoc.chain (List.mem_cons_of_mem node hmem) (ht.mem_around hdoc hnode) with rfl | hin | hin
    · exact hapart.1 List.mem_cons_self
    · exact hapart.1 (List.mem_cons_of_mem _ hin)
    · exact hapart.2 hin
  clear hapart
  rw [textOf_eq_textAt, textOf_eq_textAt]
  induction ht with
  | @text above node source span hnode =>
    obtain ⟨source', span', hother⟩ := h.isLike.exists_text hnode
    have hlt : node < doc.count := (List.getElem?_eq_some_iff.mp hnode).1
    have hslice := slice_eq_of_textOf?_eq hnode hother
      (h.text_eq node hlt (houtside node List.mem_cons_self))
    rw [Tree.takenFrom_text hother, Tree.texts, Tree.texts, textAt, textAt, hslice]
    rfl
  | @element above node e children hnode hids hchildren ih =>
    obtain ⟨e', he', houtline⟩ := h.isLike.exists_element? (element?_eq_some_of_node? hnode)
    rw [Tree.takenFrom_element he', Tree.texts, Tree.texts, Element.name_eq_of_outline houtline]
    split
    · rfl
    · have hbelow : ∀ t ∈ children, ∀ node ∈ t.ids, id ∉ doc.ancestors node := by
        intro t ht node hmem
        refine houtside node (List.mem_cons_of_mem _ ?_)
        rw [Tree.idsAll_eq_flatMap]
        exact List.mem_flatMap.mpr ⟨t, ht, hmem⟩
      exact textAt_textsAll_map fun t ht => ih t ht (hbelow t ht)

theorem AgreesOutside.textContent_eq {id : NodeId} (h : doc.AgreesOutside other id) (hdoc : doc.IsTree)
    {node : Nat} (hnode : node < doc.count) (hapart : doc.IsApart id node) :
    other.textContent node = doc.textContent node := by
  obtain ⟨t, htree, hid, -⟩ := (hdoc.descendsUpward.yields_treeWithout none hnode).eq_ok
  have htree : doc.tree node = .ok t := htree
  obtain ⟨-, hdepicts⟩ := hdoc.depicts_tree htree
  rw [textContent, textContent, htree, h.isLike.tree_eq htree]
  rw [← hid] at hapart
  exact h.textOf_takenFrom hdoc hdepicts hapart none

end Document

end Errata
