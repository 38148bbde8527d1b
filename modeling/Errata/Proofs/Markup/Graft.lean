import Errata.Proofs.Markup.Spine

/-!
# Reading under a node

What a text holds is the same wherever it is read. Read under a node of a document, it is what it would be
when read alone, with the root of that document replaced by the node and the other numbers moved behind
those in use.
-/

namespace Errata

/-! ## 1. Moving nodes -/

/-- The number of a node once it hangs under `base` behind `count` other nodes. The root becomes `base`. -/
def NodeId.moved (count base : NodeId) : NodeId → NodeId
  | 0 => base
  | id + 1 => count + id

def Element.moved (count base : NodeId) (source : SourceId) (e : Element) : Element :=
  { e with children := e.children.map (NodeId.moved count base), source }

def Content.moved (count base : NodeId) (source : SourceId) : Content → Content
  | .element e => .element (e.moved count base source)
  | .text _ span => .text source span

/-- The number of the source that a node was read from. -/
def Content.source : Content → SourceId
  | .element e => e.source
  | .text source _ => source

theorem Content.source_moved (count base : NodeId) (source : SourceId) (content : Content) :
    (content.moved count base source).source = source := by
  cases content with
  | element e => rfl
  | text s span => rfl

def Node.moved (count base : NodeId) (source : SourceId) (node : Node) : Node where
  parent := node.parent.map (NodeId.moved count base)
  content := node.content.moved count base source

/-- A node without the list of its children. -/
def Node.bare (node : Node) : Node := node.mapElement fun e => { e with children := [] }

theorem Node.source_bare (node : Node) : node.bare.content.source = node.content.source := by
  obtain ⟨parent, content⟩ := node
  cases content with
  | element e => rfl
  | text s span => rfl

/-- An element with more children. -/
def Element.adopt (more : List NodeId) (e : Element) : Element := { e with children := e.children ++ more }

theorem Node.bare_adopt (more : List NodeId) (node : Node) :
    (node.mapElement (Element.adopt more)).bare = node.bare := by
  obtain ⟨parent, content⟩ := node
  cases content with
  | element e => rfl
  | text s span => rfl

theorem Node.moved_mapElement (count base : NodeId) (source : SourceId) {f g : Element → Element}
    (h : ∀ e : Element, (f e).moved count base source = g (e.moved count base source)) (node : Node) :
    (node.mapElement f).moved count base source = (node.moved count base source).mapElement g := by
  obtain ⟨parent, content⟩ := node
  cases content with
  | text s span => rfl
  | element e => exact congrArg (fun e' => Node.mk (parent.map _) (.element e')) (h e)

namespace Document

def source? (doc : Document) (id : NodeId) : Option SourceId :=
  (doc.node? id).map fun node => node.content.source

/-- What a document says of a node besides its children. -/
def bare? (doc : Document) (id : NodeId) : Option Node := (doc.node? id).map Node.bare

theorem parent?_eq_bare (doc : Document) (id : NodeId) : doc.parent? id = (doc.bare? id).bind Node.parent := by
  rw [parent?, bare?]
  cases doc.node? id with
  | none => rfl
  | some node => exact (Node.parent_mapElement _ node).symm

theorem source?_eq_bare (doc : Document) (id : NodeId) :
    doc.source? id = (doc.bare? id).map fun node => node.content.source := by
  rw [source?, bare?, Option.map_map]
  congr 1
  funext node
  exact node.source_bare.symm

theorem bind_element?_bare (doc : Document) (id : NodeId) :
    (doc.bare? id).bind Node.element? = (doc.element? id).map fun e => { e with children := [] } := by
  rw [bare?, element?]
  cases doc.node? id with
  | none => rfl
  | some node =>
    obtain ⟨parent, content⟩ := node
    cases content with
    | element e => rfl
    | text s span => rfl

/-- Hangs what stands below the root of `part` under a node of the document. -/
def graft (doc : Document) (base : NodeId) (source : SourceId) (part : Document) : Document :=
  let hung := (part.children root).map (NodeId.moved doc.count base)
  { doc with nodes := doc.nodes.modify base (Node.mapElement (Element.adopt hung)) ++
      (part.nodes.drop 1).map (Node.moved doc.count base source) }

variable {doc part : Document} {base : Nat} {source : SourceId}

theorem count_graft (doc : Document) (base : NodeId) (source : SourceId) (part : Document) :
    (doc.graft base source part).count = doc.count + (part.count - 1) := by
  simp [graft, count]

theorem node?_graft_of_lt {id : Nat} (hid : id < doc.count) :
    (doc.graft base source part).node? id =
      (doc.node? id).map fun node =>
        if base = id then
          node.mapElement (Element.adopt ((part.children root).map (NodeId.moved doc.count base)))
        else node := by
  have hlength : id < (doc.nodes.modify base
      (Node.mapElement (Element.adopt ((part.children root).map (NodeId.moved doc.count base))))).length := by
    rw [List.length_modify]
    exact hid
  rw [node?, graft, List.getElem?_append_left hlength, List.getElem?_modify]
  by_cases h : base = id
  · simp only [if_pos h]
    rfl
  · simp only [if_neg h]
    rfl

/-- Behind the nodes of the document come those of the part, its root left out. -/
theorem node?_graft_add (k : Nat) :
    (doc.graft base source part).node? (doc.count + k) =
      (part.node? (k + 1)).map (Node.moved doc.count base source) := by
  have hlength : doc.count = (doc.nodes.modify base
      (Node.mapElement (Element.adopt ((part.children root).map (NodeId.moved doc.count base))))).length := by
    rw [List.length_modify]
    rfl
  rw [node?, graft, List.getElem?_append_right (by omega), List.getElem?_map, List.getElem?_drop, ← hlength,
    Nat.add_sub_cancel_left, Nat.add_comm 1 k]
  rfl

theorem parent?_graft_add (k : Nat) :
    (doc.graft base source part).parent? (doc.count + k) =
      (part.parent? (k + 1)).map (NodeId.moved doc.count base) := by
  rw [parent?, node?_graft_add, parent?]
  cases part.node? (k + 1) with
  | none => rfl
  | some node => rfl

theorem eq_of_node?_eq {a b : Document} (hsources : a.sources = b.sources)
    (hnodes : ∀ id, a.node? id = b.node? id) : a = b := by
  obtain ⟨sources, nodes⟩ := a
  obtain ⟨sources', nodes'⟩ := b
  obtain rfl : sources = sources' := hsources
  obtain rfl : nodes = nodes' := List.ext_getElem? hnodes
  rfl

/-! ### Old nodes and new ones -/

/-- Of the old nodes only the base is changed, and only in its children. -/
theorem bare?_graft_of_lt {id : Nat} (hid : id < doc.count) :
    (doc.graft base source part).bare? id = doc.bare? id := by
  rw [bare?, bare?, node?_graft_of_lt hid, Option.map_map]
  congr 1
  funext node
  by_cases h : base = id
  · simp only [Function.comp, if_pos h]
    exact Node.bare_adopt _ node
  · simp only [Function.comp, if_neg h]

theorem bare?_graft_add (k : Nat) :
    (doc.graft base source part).bare? (doc.count + k) =
      (part.bare? (k + 1)).map (Node.moved doc.count base source) := by
  rw [bare?, bare?, node?_graft_add, Option.map_map, Option.map_map]
  congr 1
  funext node
  exact (@Node.moved_mapElement doc.count base source (fun e => { e with children := [] })
    (fun e => { e with children := [] }) (fun _ => rfl) node).symm

theorem source?_graft_add {k : Nat} (hk : k + 1 < part.count) :
    (doc.graft base source part).source? (doc.count + k) = some source := by
  have hnode : part.node? (k + 1) = some _ := List.getElem?_eq_getElem hk
  rw [source?, node?_graft_add, hnode]
  simp [Node.moved, Content.source_moved]

/-! ## 2. The operations on a part -/

theorem moved_lt_count (hbase : base < doc.count) {id : Nat} (hid : id < part.count) :
    NodeId.moved doc.count base id < (doc.graft base source part).count := by
  rw [count_graft]
  cases id with
  | zero => exact Nat.lt_add_right _ hbase
  | succ k =>
    show doc.count + k < _
    omega

theorem moved_count (doc : Document) (base : NodeId) (source : SourceId) (hpart : 0 < part.count) :
    NodeId.moved doc.count base part.count = (doc.graft base source part).count := by
  obtain ⟨n, hn⟩ := Nat.exists_eq_succ_of_ne_zero (Nat.ne_of_gt hpart)
  rw [count_graft, hn]
  rfl

theorem moved_adopted (hpart : 0 < part.count) (e : Element) :
    (part.adopted e).moved doc.count base source =
      (doc.graft base source part).adopted (e.moved doc.count base source) := by
  simp only [adopted, Element.moved, List.map_append, List.map_cons, List.map_nil,
    moved_count doc base source hpart]

/-- The number of a node of the part is one behind the document unless it is the root's. -/
theorem moved_eq_iff (hbase : base < doc.count) {id k : Nat} :
    NodeId.moved doc.count base id = doc.count + k ↔ id = k + 1 := by
  cases id with
  | zero =>
    show base = doc.count + k ↔ _
    omega
  | succ n =>
    show doc.count + n = doc.count + k ↔ _
    omega

section Append

variable {parent : Nat} (hparent : parent < part.count) {content : Content}
include hparent

theorem node?_graft_append_of_lt (hroot : part.isElement root = true)
    (hcontent : ∀ e, content = .element e → e.children = []) {id : Nat} (hid : id < doc.count) :
    ((doc.graft base source part).append (NodeId.moved doc.count base parent)
        (content.moved doc.count base source)).node? id =
      (doc.graft base source (part.append parent content)).node? id := by
  have hlt : id < (doc.graft base source part).count := by
    rw [count_graft]
    omega
  rw [node?_append_of_lt _ hlt, node?_graft_of_lt hid, node?_graft_of_lt hid, Option.map_map]
  congr 1
  funext node
  dsimp only [Function.comp]
  cases parent with
  | zero =>
    -- the new node is below the root, so it comes to hang under the base
    have hchildren : (part.append 0 content).children root = part.children root ++ [part.count] := by
      rw [children_append hparent hcontent, if_pos ⟨rfl, hroot⟩]
    rw [hchildren, List.map_append, List.map_singleton, moved_count doc base source hparent]
    by_cases h : base = id
    · rw [if_pos h, if_pos h, if_pos (show NodeId.moved doc.count base 0 = id from h)]
      obtain ⟨p, content'⟩ := node
      cases content' with
      | text s span => rfl
      | element e => simp [Node.mapElement, adopted, Element.adopt]
    · rw [if_neg h, if_neg h, if_neg (show NodeId.moved doc.count base 0 ≠ id from h)]
  | succ k =>
    have hchildren : (part.append (k + 1) content).children root = part.children root := by
      rw [children_append hparent hcontent, if_neg fun h => Nat.succ_ne_zero k h.1]
    have hne : NodeId.moved doc.count base (k + 1) ≠ id := by
      show doc.count + k ≠ id
      omega
    rw [hchildren, if_neg hne]

theorem node?_graft_append_add (hbase : base < doc.count) (k : Nat) :
    ((doc.graft base source part).append (NodeId.moved doc.count base parent)
        (content.moved doc.count base source)).node? (doc.count + k) =
      (doc.graft base source (part.append parent content)).node? (doc.count + k) := by
  have hcount := count_graft doc base source part
  have hmoved := @moved_lt_count doc part base source hbase parent hparent
  rw [node?_graft_add]
  rcases Nat.lt_trichotomy (k + 1) part.count with hlt | heq | hgt
  · rw [node?_append_of_lt _ (by omega), node?_append_of_lt _ hlt, node?_graft_add, Option.map_map,
      Option.map_map]
    congr 1
    funext node
    dsimp only [Function.comp]
    by_cases h : parent = k + 1
    · rw [if_pos ((moved_eq_iff hbase).mpr h), if_pos h]
      exact (Node.moved_mapElement _ _ _ (moved_adopted (Nat.zero_lt_of_lt hparent)) node).symm
    · rw [if_neg (fun heq => h ((moved_eq_iff hbase).mp heq)), if_neg h]
  · have hnew : doc.count + k = (doc.graft base source part).count := by omega
    rw [hnew, node?_append_count hmoved, heq, node?_append_count hparent]
    rfl
  · rw [node?_of_count_le (by rw [count_append]; omega), node?_of_count_le (by rw [count_append]; omega)]
    rfl

/-- Adding a node to the part and hanging the part are done in either order. -/
theorem graft_append (hbase : base < doc.count) (hroot : part.isElement root = true)
    (hcontent : ∀ e, content = .element e → e.children = []) :
    (doc.graft base source part).append (NodeId.moved doc.count base parent)
        (content.moved doc.count base source) =
      doc.graft base source (part.append parent content) := by
  refine eq_of_node?_eq rfl fun id => ?_
  rcases Nat.lt_or_ge id doc.count with hlt | hge
  · exact node?_graft_append_of_lt hparent hroot hcontent hlt
  · obtain ⟨k, rfl⟩ := Nat.exists_eq_add_of_le hge
    exact node?_graft_append_add hparent hbase k

end Append

theorem graft_close (hbase : base < doc.count) (id : Nat) (endTag : Option Span) :
    (doc.graft base source part).close (NodeId.moved doc.count base (id + 1)) endTag =
      doc.graft base source (part.close (id + 1) endTag) := by
  refine eq_of_node?_eq rfl fun other => ?_
  rw [node?_close]
  rcases Nat.lt_or_ge other doc.count with hlt | hge
  · have hne : NodeId.moved doc.count base (id + 1) ≠ other := by
      show doc.count + id ≠ other
      omega
    simp only [if_neg hne, Option.map_id']
    rw [node?_graft_of_lt hlt, node?_graft_of_lt hlt, children_close]
  · obtain ⟨k, rfl⟩ := Nat.exists_eq_add_of_le hge
    rw [node?_graft_add, node?_graft_add, node?_close, Option.map_map, Option.map_map]
    congr 1
    funext node
    dsimp only [Function.comp]
    by_cases h : id + 1 = k + 1
    · rw [if_pos ((moved_eq_iff hbase).mpr h), if_pos h]
      exact (@Node.moved_mapElement doc.count base source (fun e => { e with endTag })
        (fun e => { e with endTag }) (fun _ => rfl) node).symm
    · rw [if_neg (fun heq => h ((moved_eq_iff hbase).mp heq)), if_neg h]

end Document

/-! ## 3. Reading -/

namespace Markup

open Document

/-- An open element of a part, once the part hangs in a document. -/
def movedEntry (count base : NodeId) (entry : NodeId × Text) : NodeId × Text :=
  (NodeId.moved count base entry.1, entry.2)

/-- Reading under `base` has come as far as reading alone. -/
structure Reading.FollowsAlone (doc : Document) (base : Nat) (source : SourceId) (r alone : Reading) :
    Prop where
  document : r.document = doc.graft base source alone.document
  opened : r.opened = alone.opened.map (movedEntry doc.count base)
  isTree : alone.IsTree root
  /-- The root is not among the open elements. -/
  opened_pos : ∀ id : Nat, ∀ name, (id, name) ∈ alone.opened → 0 < id

namespace Reading.FollowsAlone

variable {doc : Document} {base : Nat} {source : SourceId} {r alone : Reading}

theorem current_eq (h : r.FollowsAlone doc base source alone) :
    r.current base = NodeId.moved doc.count base (alone.current root) := by
  rw [Reading.current, Reading.current, h.opened]
  cases alone.opened with
  | nil => rfl
  | cons entry outer => rfl

theorem makeRoom_eq (h : r.FollowsAlone doc base source alone) (name : Text) :
    r.makeRoom base name = ((alone.makeRoom root name).1.map (movedEntry doc.count base),
      NodeId.moved doc.count base (alone.makeRoom root name).2) := by
  have hpos := h.opened_pos
  rw [Reading.makeRoom, Reading.makeRoom, h.opened, h.document]
  cases hopened : alone.opened with
  | nil => rfl
  | cons entry outer =>
    obtain ⟨id, innermost⟩ := entry
    have hid : 0 < id := hpos id innermost (by rw [hopened]; exact List.mem_cons_self)
    obtain ⟨k, rfl⟩ := Nat.exists_eq_succ_of_ne_zero (Nat.ne_of_gt hid)
    rw [List.map_cons]
    dsimp only [movedEntry]
    split
    · -- the parent of the element that ends is moved like the element
      have hparent : (doc.graft base source alone.document).parent?
          (NodeId.moved doc.count base (k + 1)) = _ := parent?_graft_add k
      rw [hparent]
      cases alone.document.parent? (k + 1) with
      | none => rfl
      | some parent => rfl
    · rfl

/-- A node is added to both, after which corresponding elements are open. -/
theorem grow (h : r.FollowsAlone doc base source alone) (hbase : base < doc.count) {parent : Nat}
    (hparent : parent < alone.document.count) (content : Content)
    (hcontent : ∀ e, content = .element e → e.children = []) {opened : List (NodeId × Text)}
    (hopened : ∀ id : Nat, ∀ name, (id, name) ∈ opened →
      id = alone.document.count ∨ (id, name) ∈ alone.opened) :
    Reading.FollowsAlone doc base source
      ⟨r.document.append (NodeId.moved doc.count base parent) (content.moved doc.count base source),
        opened.map (movedEntry doc.count base)⟩
      ⟨alone.document.append parent content, opened⟩ := by
  obtain ⟨e, hroot, -⟩ := h.isTree.document.root
  have helement : alone.document.isElement root = true := by
    rw [isElement, element?, hroot]
    rfl
  refine ⟨?_, rfl, h.isTree.grow hparent hcontent hopened, fun id name hentry => ?_⟩
  · rw [h.document]
    exact graft_append hparent hbase helement hcontent
  · rcases hopened id name hentry with heq | hold
    · have := h.isTree.base
      rw [heq]
      exact Nat.zero_lt_of_lt this
    · exact h.opened_pos id name hold

theorem closing?_map (count base : NodeId) (name : Text) (opened : List (NodeId × Text)) :
    Reading.closing? name (opened.map (movedEntry count base)) =
      (Reading.closing? name opened).map fun found =>
        (NodeId.moved count base found.1, found.2.map (movedEntry count base)) := by
  induction opened with
  | nil => rfl
  | cons entry opened ih =>
    rw [List.map_cons, movedEntry, Reading.closing?, Reading.closing?]
    split
    · rfl
    · exact ih

theorem mem_of_closing? {name : Text} {opened outer : List (NodeId × Text)} {id : NodeId}
    (h : Reading.closing? name opened = some (id, outer)) : (id, name) ∈ opened := by
  induction opened with
  | nil => cases h
  | cons entry opened ih =>
    rw [Reading.closing?] at h
    split at h
    · rename_i hname
      cases h
      rw [← hname]
      exact List.mem_cons_self
    · exact List.mem_cons_of_mem _ (ih h)

theorem addEndTag (h : r.FollowsAlone doc base source alone) (hbase : base < doc.count) (name : Text)
    (span : Span) : (r.add source base (.endTag name span)).FollowsAlone doc base source
      (alone.add 0 root (.endTag name span)) := by
  have htree := h.isTree.add 0 (.endTag name span)
  rw [Reading.add] at htree ⊢
  rw [Reading.add, h.opened, closing?_map]
  cases hclosing : Reading.closing? name alone.opened with
  | none => exact h
  | some found =>
    obtain ⟨id, outer⟩ := found
    rw [hclosing] at htree
    have hid := h.opened_pos id name (mem_of_closing? hclosing)
    obtain ⟨k, rfl⟩ := Nat.exists_eq_succ_of_ne_zero (Nat.ne_of_gt hid)
    refine ⟨?_, rfl, htree, fun other entry hentry => ?_⟩
    · show r.document.close (NodeId.moved doc.count base (k + 1)) (some span) = _
      rw [h.document]
      exact graft_close hbase k (some span)
    · exact h.opened_pos other entry (Reading.closing?_subset hclosing hentry)

theorem addStartTag (h : r.FollowsAlone doc base source alone) (hbase : base < doc.count) (tag : Tag)
    (span : Span) : (r.add source base (.startTag tag span)).FollowsAlone doc base source
      (alone.add 0 root (.startTag tag span)) := by
  obtain ⟨hsubset, hparent⟩ := h.isTree.makeRoom tag.name
  have hchildless : ∀ (endTag : Option Span) (e : Element),
      Content.element (tag.element 0 span endTag) = .element e → e.children = [] := by
    rintro endTag e he
    cases he
    rfl
  rw [Reading.add, Reading.add, h.makeRoom_eq]
  dsimp only
  split
  · exact h.grow hbase hparent (.element (tag.element 0 span (some ⟨span.stop, span.stop⟩)))
      (hchildless _) fun _ _ hentry => .inr (hsubset hentry)
  · have hcount := moved_count doc base source (Nat.zero_lt_of_lt h.isTree.base)
    rw [← h.document] at hcount
    rw [← hcount]
    have hopened : ∀ id : Nat, ∀ name,
        (id, name) ∈ (alone.document.count, tag.name) :: (alone.makeRoom root tag.name).1 →
          id = alone.document.count ∨ (id, name) ∈ alone.opened := by
      intro id name hentry
      rcases List.mem_cons.mp hentry with heq | hentry
      · cases heq
        exact .inl rfl
      · exact .inr (hsubset hentry)
    exact h.grow hbase hparent (.element (tag.element 0 span none)) (hchildless _) hopened

theorem addRawElement (h : r.FollowsAlone doc base source alone) (hbase : base < doc.count) (tag : Tag)
    (span inner : Span) (endTag : Option Span) :
    (r.add source base (.rawElement tag span inner endTag)).FollowsAlone doc base source
      (alone.add 0 root (.rawElement tag span inner endTag)) := by
  obtain ⟨hsubset, hparent⟩ := h.isTree.makeRoom tag.name
  have hbegun := h.grow hbase hparent (.element (tag.element 0 span endTag))
    (fun e he => by cases he; rfl) fun _ _ hentry => .inr (hsubset hentry)
  rw [Reading.add, Reading.add, h.makeRoom_eq]
  dsimp only
  split
  · have hcount := moved_count doc base source (Nat.zero_lt_of_lt h.isTree.base)
    rw [← h.document] at hcount
    rw [← hcount]
    refine hbegun.grow hbase ?_ (.text 0 inner) (fun e he => by cases he)
      fun _ _ hentry => .inr hentry
    rw [count_append]
    exact Nat.lt_succ_self _
  · exact hbegun

theorem add (h : r.FollowsAlone doc base source alone) (hbase : base < doc.count) (token : Token) :
    (r.add source base token).FollowsAlone doc base source (alone.add 0 root token) := by
  cases token with
  | text span =>
    rw [Reading.add, h.current_eq, h.opened]
    exact h.grow hbase h.isTree.current_lt (.text 0 span) (fun e he => by cases he)
      fun _ _ hentry => .inr hentry
  | comment span => exact h
  | startTag tag span => exact h.addStartTag hbase tag span
  | rawElement tag span inner endTag => exact h.addRawElement hbase tag span inner endTag
  | endTag name span => exact h.addEndTag hbase name span

end Reading.FollowsAlone

theorem graft_ofSource (doc : Document) (base : NodeId) (source : SourceId) (main : Source) :
    doc.graft base source (.ofSource main) = doc := by
  refine eq_of_node?_eq rfl fun id => ?_
  rcases Nat.lt_or_ge id doc.count with hlt | hge
  · have hnone : (Document.ofSource main).children root = [] := rfl
    have hsame : ∀ node : Node, node.mapElement (Element.adopt []) = node := by
      rintro ⟨parent, content⟩
      cases content with
      | text s span => rfl
      | element e => simp [Node.mapElement, Element.adopt]
    rw [node?_graft_of_lt hlt, hnone, List.map_nil]
    simp only [hsame, ite_self, Option.map_id']
  · obtain ⟨k, rfl⟩ := Nat.exists_eq_add_of_le hge
    rw [node?_graft_add, node?_of_count_le hge]
    rfl

/-- A text that is read under a node is what it is when it is read alone. -/
theorem readText_eq_graft (doc : Document) (text : Text) (source : SourceId) {base : Nat}
    (hbase : base < doc.count) (filename : Path) :
    readText doc text source base = doc.graft base source (read filename text) := by
  suffices hall : ∀ (tokens : List Token) (r alone : Reading), r.FollowsAlone doc base source alone →
      (tokens.foldl (Reading.add source base) r).FollowsAlone doc base source
        (tokens.foldl (Reading.add 0 root) alone) by
    refine (hall _ ⟨doc, []⟩ ⟨.ofSource ⟨filename, text⟩, []⟩ ⟨?_, rfl, ?_, ?_⟩).document
    · exact (graft_ofSource doc base source _).symm
    · exact ⟨isTree_ofSource _, Nat.one_pos, fun _ _ hentry => absurd hentry List.not_mem_nil⟩
    · exact fun _ _ hentry => absurd hentry List.not_mem_nil
  intro tokens
  induction tokens with
  | nil => exact fun r alone h => h
  | cons token tokens ih => exact fun r alone h => ih _ _ (h.add hbase token)

/-- The result is the document with what stands below the root of the part hung under a node of it. -/
structure IsGraft (doc part : Document) (base : Nat) (source : SourceId) (result : Document) : Prop where
  sources : result.sources = doc.sources
  /-- Of the nodes of the part only the root is left out. -/
  count : result.count = doc.count + (part.count - 1)
  /-- Each has its old name, attributes and spans. Its number is shifted, and so are those of its parent and its
  children; where the root was its parent, the base is now. -/
  hung : ∀ id : Nat, 0 < id → id < part.count →
    result.node? (id + (doc.count - 1)) = (part.node? id).map (Node.moved doc.count base source)
  kept : ∀ id : Nat, id < doc.count → id ≠ base → result.node? id = doc.node? id
  /-- The base has the children of the root after its own, and is otherwise as it was. -/
  base : ∃ parent e, doc.node? base = some ⟨parent, .element e⟩ ∧
    result.node? base = some ⟨parent, .element
      { e with children := e.children ++ (part.children root).map (NodeId.moved doc.count base) }⟩

theorem isGraft_graft {doc part : Document} {base : Nat} {source : SourceId} {parent : Option NodeId}
    {e : Element} (hbase : doc.node? base = some ⟨parent, .element e⟩) :
    IsGraft doc part base source (doc.graft base source part) := by
  have hlt : base < doc.count := (List.getElem?_eq_some_iff.mp hbase).1
  refine ⟨rfl, count_graft doc base source part, ?_, ?_, parent, e, hbase, ?_⟩
  · intro id hpos _
    -- the shift by all nodes but one makes room for all nodes but the root
    obtain ⟨k, rfl⟩ := Nat.exists_eq_succ_of_ne_zero (Nat.ne_of_gt hpos)
    have hshift : k.succ + (doc.count - 1) = doc.count + k := by omega
    rw [hshift]
    exact node?_graft_add k
  · intro id hid hne
    have hsame : ¬ base = id := fun h => hne h.symm
    rw [node?_graft_of_lt hid]
    simp only [if_neg hsame, Option.map_id']
  · rw [node?_graft_of_lt hlt, hbase, Option.map_some, if_pos rfl]
    rfl

/-- Reading a source under an element of a document hangs there what the text of the source holds when it is
read alone. -/
theorem isGraft_readInto (doc : Document) (source : SourceId) (file : Source)
    (hsource : doc.sources[source]? = some file) (base : Nat) (hbase : doc.isElement base = true)
    (filename : Path) :
    ∃ result, readInto doc source base = .ok result ∧
      IsGraft doc (read filename file.text) base source result := by
  obtain ⟨e, he⟩ := Option.isSome_iff_exists.mp hbase
  obtain ⟨⟨parent, content⟩, hnode, helement⟩ := Option.bind_eq_some_iff.mp he
  cases content with
  | text other span => cases helement
  | element e' =>
    have hlt : base < doc.count := (List.getElem?_eq_some_iff.mp hnode).1
    refine ⟨doc.graft base source (read filename file.text), ?_, isGraft_graft hnode⟩
    rw [readInto, Document.sourceText, hsource]
    exact congrArg Except.ok (readText_eq_graft doc file.text source hlt filename)

/-- Items that end each other, an end tag that closes nothing and an element that stays open are hung into a
list that has an item already. -/
theorem isGraft_readInto_items :
    let page := (read [] "<ul><li>a</ul>".toList).addSource ⟨[], "<li>b<li>c</ul><br>d<em>".toList⟩
    page.isElement 1 = true ∧ ∃ result, readInto page 1 1 = .ok result ∧
      IsGraft page (read [] "<li>b<li>c</ul><br>d<em>".toList) 1 1 result ∧
      result.children 1 = [2, 4, 6] ∧ result.children 6 = [7, 8, 9, 10] := by
  intro page
  have hbase : page.isElement 1 = true := by decide +kernel
  have hsource : page.sources[1]? = some ⟨[], "<li>b<li>c</ul><br>d<em>".toList⟩ := by decide +kernel
  obtain ⟨result, hread, hgraft⟩ := isGraft_readInto page 1 _ hsource 1 hbase []
  have hchildren : (readInto page 1 1).toOption.map (fun d => (d.children 1, d.children 6)) =
      some ([2, 4, 6], [7, 8, 9, 10]) := by
    decide +kernel
  rw [hread] at hchildren
  obtain ⟨hlist, hitem⟩ := Prod.mk.inj (Option.some.inj hchildren)
  exact ⟨hbase, result, hread, hgraft, hlist, hitem⟩

/-! ## 4. Ways up from what was hung -/

theorem exists_parent?_read (filename : Path) (text : Text) {id : Nat} (hpos : 0 < id)
    (hid : id < (read filename text).count) : ∃ parent, (read filename text).parent? id = some parent := by
  have hdoc := isTree_read filename text
  obtain ⟨pos, hsound⟩ := sound_read filename text
  obtain ⟨t, ht, -⟩ := (hsound.yields_treeWithout none hsound.nonempty).eq_ok
  obtain ⟨hroot, hdepicts⟩ := hdoc.depicts_tree ht
  have hmem : id ∈ t.ids := by
    rw [Spine.ids_tree_read filename text ht]
    exact List.mem_range.mpr hid
  have haround := hdepicts.mem_around hdoc hmem
  rw [hroot] at haround
  cases hparent : (read filename text).parent? id with
  | some parent => exact ⟨parent, rfl⟩
  | none =>
    rw [ancestors_of_parent?_eq_none hparent] at haround
    exact absurd (List.mem_singleton.mp haround) (Nat.ne_of_lt hpos)

section Hung

variable {doc part : Document} {base : Nat} {source : SourceId}

/-- The way up from a new node comes to the base. -/
theorem base_mem_ancestors_graft (hgraft : (doc.graft base source part).IsTree) (hpart : part.IsTree)
    (hparents : ∀ id : Nat, 0 < id → id < part.count → ∃ parent, part.parent? id = some parent) {k : Nat}
    (hk : k + 1 < part.count) : base ∈ (doc.graft base source part).ancestors (doc.count + k) := by
  induction k using Nat.strong_induction_on with
  | _ k ih =>
    obtain ⟨parent, hparent⟩ := hparents (k + 1) (Nat.succ_pos k) hk
    have hlt := hpart.parent_lt hparent
    have hmoved := @parent?_graft_add doc part base source k
    rw [hparent] at hmoved
    rw [hgraft.ancestors_eq hmoved]
    -- the parent is the root, which is now the base, or a node that was added before
    cases parent with
    | zero => exact List.mem_cons_self
    | succ j =>
      exact List.mem_cons_of_mem _ (ih j (Nat.lt_of_succ_lt_succ hlt) (Nat.lt_trans hlt hk))

end Hung

end Markup
end Errata
