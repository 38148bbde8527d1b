import Errata.Proofs.Markup.Reader

/-!
# Documents that are trees

In a document that is a tree, parents have smaller numbers than their children, and an element lists the
nodes that it is the parent of, in increasing order. Adding a node and closing an element keep this, and so
does reading a text.
-/

namespace Errata

/-- The nodes are a tree below the root. -/
structure Document.IsTree (doc : Document) : Prop where
  root : ∃ e, doc.node? Document.root = some ⟨none, .element e⟩ ∧ e.name = rootName ∧ e.attributes = []
  parent_lt : ∀ {id parent : Nat}, doc.parent? id = some parent → parent < id
  increasing : ∀ id : Nat, (doc.children id).Pairwise (· < ·)
  mem_children : ∀ {id : Nat}, doc.isElement id = true →
    ∀ child : Nat, child ∈ doc.children id ↔ doc.parent? child = some id

namespace Document

/-! ## 1. Nodes after an operation -/

variable {doc : Document}

theorem node?_of_count_le {id : Nat} (h : doc.count ≤ id) : doc.node? id = none :=
  List.getElem?_eq_none h

theorem lt_count_of_parent? {id parent : Nat} (h : doc.parent? id = some parent) : id < doc.count := by
  obtain ⟨node, hnode, -⟩ := Option.bind_eq_some_iff.mp h
  exact (List.getElem?_eq_some_iff.mp hnode).1

theorem children_eq {id : Nat} {e : Element} (h : doc.element? id = some e) :
    doc.children id = e.children := by
  rw [children, h]
  rfl

theorem children_of_not_isElement {id : Nat} (h : doc.isElement id = false) : doc.children id = [] := by
  have hnone : doc.element? id = none := Option.not_isSome_iff_eq_none.mp (Bool.eq_false_iff.mp h)
  rw [children, hnone]
  rfl

/-- The parent with one more child. -/
def adopted (doc : Document) (e : Element) : Element :=
  { e with children := e.children ++ [doc.count] }

theorem node?_append_of_lt {parent id : Nat} (content : Content) (hid : id < doc.count) :
    (doc.append parent content).node? id =
      (doc.node? id).map fun node => if parent = id then node.mapElement doc.adopted else node := by
  rw [node?, append, List.getElem?_modify, List.getElem?_append_left hid]
  by_cases h : parent = id
  · simp only [if_pos h]
    rfl
  · simp only [if_neg h]
    rfl

section Append

variable {parent : Nat} (hparent : parent < doc.count) (content : Content)
include hparent

theorem node?_append_count :
    (doc.append parent content).node? doc.count = some ⟨some parent, content⟩ := by
  have hne : ¬ parent = doc.count := by omega
  rw [node?, append, List.getElem?_modify]
  simp only [if_neg hne]
  simp [count]

theorem parent?_append (id : Nat) :
    (doc.append parent content).parent? id =
      if id = doc.count then some parent else doc.parent? id := by
  rw [parent?, parent?]
  rcases Nat.lt_trichotomy id doc.count with hlt | rfl | hgt
  · rw [node?_append_of_lt content hlt, if_neg (by omega)]
    cases doc.node? id with
    | none => rfl
    | some node =>
      show (if parent = id then node.mapElement doc.adopted else node).parent = node.parent
      split
      · exact Node.parent_mapElement _ node
      · rfl
  · rw [node?_append_count hparent, if_pos rfl]
    rfl
  · rw [node?_of_count_le (by rw [count_append]; omega), node?_of_count_le (by omega),
      if_neg (by omega)]

theorem element?_append (id : Nat) :
    (doc.append parent content).element? id =
      if id = doc.count then Node.element? ⟨some parent, content⟩
      else (doc.element? id).map fun e => if parent = id then doc.adopted e else e := by
  rw [element?, element?]
  rcases Nat.lt_trichotomy id doc.count with hlt | rfl | hgt
  · rw [node?_append_of_lt content hlt, if_neg (by omega)]
    cases doc.node? id with
    | none => rfl
    | some node =>
      obtain ⟨p, content'⟩ := node
      by_cases h : parent = id
      · simp only [Option.map_some, if_pos h, Option.bind_some]
        cases content' with
        | element e => rfl
        | text source span => rfl
      · simp [h]
  · rw [node?_append_count hparent, if_pos rfl]
    rfl
  · rw [node?_of_count_le (by rw [count_append]; omega), node?_of_count_le (by omega),
      if_neg (by omega)]
    rfl

end Append

theorem node?_close (doc : Document) (closed : NodeId) (endTag : Option Span) (id : Nat) :
    (doc.close closed endTag).node? id =
      (doc.node? id).map fun node =>
        if closed = id then node.mapElement fun e => { e with endTag } else node := by
  rw [node?, close, List.getElem?_modify]
  by_cases h : closed = id
  · simp only [if_pos h]
    rfl
  · simp only [if_neg h]
    rfl

theorem parent?_close (doc : Document) (closed : NodeId) (endTag : Option Span) (id : Nat) :
    (doc.close closed endTag).parent? id = doc.parent? id := by
  rw [parent?, parent?, node?_close]
  cases doc.node? id with
  | none => rfl
  | some node =>
    show (if closed = id then node.mapElement _ else node).parent = node.parent
    split
    · exact Node.parent_mapElement _ node
    · rfl

theorem element?_close (doc : Document) (closed : NodeId) (endTag : Option Span) (id : Nat) :
    (doc.close closed endTag).element? id =
      (doc.element? id).map fun e => if closed = id then { e with endTag } else e := by
  rw [element?, element?, node?_close]
  cases doc.node? id with
  | none => rfl
  | some node =>
    obtain ⟨p, content⟩ := node
    by_cases h : closed = id
    · simp only [Option.map_some, if_pos h, Option.bind_some]
      cases content with
      | element e => rfl
      | text source span => rfl
    · simp [h]

theorem children_close (doc : Document) (closed : NodeId) (endTag : Option Span) (id : Nat) :
    (doc.close closed endTag).children id = doc.children id := by
  rw [children, children, element?_close]
  cases doc.element? id with
  | none => rfl
  | some e =>
    by_cases hid : closed = id
    · simp [hid]
    · simp [hid]

/-! ## 2. What the operations keep -/

theorem isTree_ofSource (source : Source) : (ofSource source).IsTree where
  root := ⟨_, rfl, rfl, rfl⟩
  parent_lt := by
    intro id parent h
    cases id with
    | zero => cases h
    | succ id => cases h
  increasing := by
    intro id
    cases id with
    | zero => exact .nil
    | succ id => exact .nil
  mem_children := by
    intro id hid child
    have hnone : (ofSource source).parent? child = none := by
      cases child with
      | zero => rfl
      | succ child => rfl
    have hnil : (ofSource source).children id = [] := by
      cases id with
      | zero => rfl
      | succ id => rfl
    rw [hnone, hnil]
    simp

theorem IsTree.addSource (h : doc.IsTree) (source : Source) : (doc.addSource source).IsTree :=
  ⟨h.root, h.parent_lt, h.increasing, h.mem_children⟩

section Append

variable {parent : Nat} (hparent : parent < doc.count) {content : Content}
include hparent

theorem isElement_append_of_ne {id : Nat} (hid : id ≠ doc.count) :
    (doc.append parent content).isElement id = doc.isElement id := by
  rw [isElement, element?_append hparent, if_neg hid, Option.isSome_map]
  rfl

/-- Only the parent has one more child, and the new node has none yet. -/
theorem children_append (hcontent : ∀ e, content = .element e → e.children = []) (id : Nat) :
    (doc.append parent content).children id =
      if parent = id ∧ doc.isElement id = true then doc.children id ++ [doc.count]
      else doc.children id := by
  rw [children, element?_append hparent]
  by_cases hid : id = doc.count
  · rw [if_pos hid, if_neg (by omega), children, element?, node?_of_count_le (by omega)]
    cases content with
    | element e => exact hcontent e rfl
    | text source span => rfl
  · rw [if_neg hid, children, isElement]
    cases doc.element? id with
    | none => simp
    | some e =>
      by_cases hp : parent = id
      · simp [hp, adopted]
      · simp [hp]

end Append

theorem IsTree.lt_count_of_mem_children (h : doc.IsTree) {id child : Nat}
    (hchild : child ∈ doc.children id) : child < doc.count := by
  cases hid : doc.isElement id with
  | true => exact lt_count_of_parent? ((h.mem_children hid child).mp hchild)
  | false =>
    rw [children_of_not_isElement hid] at hchild
    exact absurd hchild List.not_mem_nil

theorem IsTree.root_append (h : doc.IsTree) (parent : Nat) (content : Content) :
    ∃ e, (doc.append parent content).node? Document.root = some ⟨none, .element e⟩ ∧
      e.name = rootName ∧ e.attributes = [] := by
  obtain ⟨e, hnode, hname, hattributes⟩ := h.root
  have hroot : (0 : Nat) < doc.count := (List.getElem?_eq_some_iff.mp hnode).1
  have hnode' := @node?_append_of_lt doc parent 0 content hroot
  rw [show doc.node? 0 = some ⟨none, .element e⟩ from hnode, Option.map_some] at hnode'
  by_cases hp : parent = 0
  · rw [if_pos hp] at hnode'
    exact ⟨doc.adopted e, hnode', hname, hattributes⟩
  · rw [if_neg hp] at hnode'
    exact ⟨e, hnode', hname, hattributes⟩

/-- A node is added as the last child of its parent. -/
theorem IsTree.append (h : doc.IsTree) {parent : Nat} (hparent : parent < doc.count)
    {content : Content} (hcontent : ∀ e, content = .element e → e.children = []) :
    (doc.append parent content).IsTree := by
  have hchildren := children_append hparent hcontent
  refine ⟨h.root_append parent content, ?_, ?_, ?_⟩
  · intro id p hp
    rw [parent?_append hparent] at hp
    split at hp
    · cases hp
      omega
    · exact h.parent_lt hp
  · intro id
    rw [hchildren]
    split
    · refine List.pairwise_append.mpr ⟨h.increasing id, List.pairwise_singleton _ _, ?_⟩
      intro child hchild new hmem
      rw [List.mem_singleton.mp hmem]
      exact h.lt_count_of_mem_children hchild
    · exact h.increasing id
  · intro id hid child
    rw [hchildren, parent?_append hparent]
    by_cases hnew : id = doc.count
    · -- nothing is below the new node
      have hnone : doc.children id = [] := by
        rw [children, element?, node?_of_count_le (by omega)]
        rfl
      have hfar : doc.parent? child ≠ some id := by
        intro hchild
        have := h.parent_lt hchild
        have := lt_count_of_parent? hchild
        omega
      rw [if_neg (by omega), hnone]
      refine ⟨fun hmem => absurd hmem List.not_mem_nil, fun hchild => ?_⟩
      split at hchild
      · cases hchild
        omega
      · exact absurd hchild hfar
    · rw [isElement_append_of_ne hparent hnew] at hid
      by_cases hcount : child = doc.count
      · -- the new node is a child of its parent alone
        have hnot : child ∉ doc.children id := by
          intro hmem
          have := h.lt_count_of_mem_children hmem
          omega
        rw [if_pos hcount, Option.some.injEq]
        by_cases hp : parent = id
        · rw [if_pos ⟨hp, hid⟩, hcount]
          simp [hp]
        · rw [if_neg (fun hboth => hp hboth.1)]
          exact ⟨fun hmem => absurd hmem hnot, fun heq => absurd heq hp⟩
      · rw [if_neg hcount, ← h.mem_children hid child]
        split
        · simp [hcount]
        · rfl

theorem IsTree.close (h : doc.IsTree) (closed : NodeId) (endTag : Option Span) :
    (doc.close closed endTag).IsTree := by
  have hchildren := doc.children_close closed endTag
  refine ⟨?_, ?_, ?_, ?_⟩
  · obtain ⟨e, hnode, hname, hattributes⟩ := h.root
    have hnode' := doc.node?_close closed endTag Document.root
    rw [hnode, Option.map_some] at hnode'
    by_cases hid : closed = Document.root
    · rw [if_pos hid] at hnode'
      exact ⟨_, hnode', hname, hattributes⟩
    · rw [if_neg hid] at hnode'
      exact ⟨e, hnode', hname, hattributes⟩
  · intro id parent hparent
    rw [parent?_close] at hparent
    exact h.parent_lt hparent
  · intro id
    rw [hchildren]
    exact h.increasing id
  · intro id hid child
    rw [isElement, element?_close, Option.isSome_map] at hid
    rw [hchildren, parent?_close]
    exact h.mem_children hid child

/-! ## 3. Ways up and along -/

theorem IsTree.parent?_root (h : doc.IsTree) : doc.parent? Document.root = none := by
  obtain ⟨e, hnode, -⟩ := h.root
  rw [parent?, hnode]
  rfl

/-- On the way up the numbers fall, so there is no more to see after as many steps as the number says. -/
theorem IsTree.ancestorsOfDepth_congr (h : doc.IsTree) {depth depth' id : Nat} (hle : id ≤ depth)
    (hle' : id ≤ depth') : doc.ancestorsOfDepth depth id = doc.ancestorsOfDepth depth' id := by
  have hroot : ∀ n, doc.ancestorsOfDepth n 0 = [] := by
    intro n
    cases n with
    | zero => rfl
    | succ n =>
      rw [ancestorsOfDepth, show doc.parent? 0 = none from h.parent?_root]
  induction depth generalizing depth' id with
  | zero =>
    have hzero : id = 0 := by omega
    rw [hzero, hroot, hroot]
  | succ depth ih =>
    cases depth' with
    | zero =>
      have hzero : id = 0 := by omega
      rw [hzero, hroot, hroot]
    | succ depth' =>
      rw [ancestorsOfDepth, ancestorsOfDepth]
      cases hparent : doc.parent? id with
      | none => rfl
      | some parent =>
        have hlt := h.parent_lt hparent
        have hbelow : ∀ {n : Nat}, id ≤ n + 1 → parent ≤ n := fun hn =>
          Nat.le_of_lt_succ (Nat.lt_of_lt_of_le hlt hn)
        dsimp only
        rw [ih (hbelow hle) (hbelow hle')]

theorem IsTree.ancestors_eq (h : doc.IsTree) {id parent : Nat} (hparent : doc.parent? id = some parent) :
    doc.ancestors id = parent :: doc.ancestors parent := by
  have hid := lt_count_of_parent? hparent
  have hlt := h.parent_lt hparent
  obtain ⟨n, hn⟩ : ∃ n, doc.count = n + 1 := ⟨doc.count - 1, by omega⟩
  rw [ancestors, ancestors, hn, ancestorsOfDepth, hparent]
  dsimp only
  have hle : parent ≤ n := by omega
  rw [h.ancestorsOfDepth_congr hle (Nat.le_succ_of_le hle)]

theorem IsTree.ancestors_root (h : doc.IsTree) : doc.ancestors Document.root = [] := by
  show doc.ancestorsOfDepth doc.count 0 = doc.ancestorsOfDepth 0 0
  exact h.ancestorsOfDepth_congr (Nat.zero_le _) (Nat.le_refl _)

theorem ancestors_of_parent?_eq_none {id : Nat} (h : doc.parent? id = none) :
    doc.ancestors id = [] := by
  rw [ancestors]
  cases doc.count with
  | zero => rfl
  | succ n => rw [ancestorsOfDepth, h]

/-- Where two trees have the same parents, they have the same ways up. -/
theorem IsTree.ancestors_congr (h : doc.IsTree) {other : Document} (hother : other.IsTree) {n : Nat}
    (hparent : ∀ id : Nat, id < n → other.parent? id = doc.parent? id) {id : Nat} (hid : id < n) :
    other.ancestors id = doc.ancestors id := by
  induction id using Nat.strong_induction_on with
  | _ id ih =>
    have hsame := hparent id hid
    cases hp : doc.parent? id with
    | none =>
      rw [hp] at hsame
      rw [ancestors_of_parent?_eq_none hp, ancestors_of_parent?_eq_none hsame]
    | some parent =>
      have hlt := h.parent_lt hp
      rw [hp] at hsame
      rw [h.ancestors_eq hp, hother.ancestors_eq hsame, ih parent hlt (Nat.lt_trans hlt hid)]

theorem IsTree.ancestors_subset (h : doc.IsTree) {id a : Nat} (ha : a ∈ doc.ancestors id) :
    doc.ancestors a ⊆ doc.ancestors id := by
  induction id using Nat.strong_induction_on with
  | _ id ih =>
    cases hparent : doc.parent? id with
    | none =>
      rw [ancestors_of_parent?_eq_none hparent] at ha
      exact absurd ha List.not_mem_nil
    | some parent =>
      rw [h.ancestors_eq hparent] at ha ⊢
      rcases List.mem_cons.mp ha with rfl | ha
      · exact List.subset_cons_self _ _
      · exact List.subset_cons_of_subset _ (ih parent (h.parent_lt hparent) ha)

/-- The parent of a node on the way up is further up. -/
theorem IsTree.parent_mem_ancestors (h : doc.IsTree) {id a parent : Nat}
    (ha : a ∈ id :: doc.ancestors id) (hparent : doc.parent? a = some parent) :
    parent ∈ doc.ancestors id := by
  have hup : parent ∈ doc.ancestors a := by
    rw [h.ancestors_eq hparent]
    exact List.mem_cons_self
  rcases List.mem_cons.mp ha with rfl | ha
  · exact hup
  · exact h.ancestors_subset ha hup

theorem IsTree.lt_of_mem_ancestors (h : doc.IsTree) {id a : Nat} (ha : a ∈ doc.ancestors id) :
    a < id := by
  induction id using Nat.strong_induction_on with
  | _ id ih =>
    cases hparent : doc.parent? id with
    | none =>
      rw [ancestors_of_parent?_eq_none hparent] at ha
      exact absurd ha List.not_mem_nil
    | some parent =>
      have hlt := h.parent_lt hparent
      rw [h.ancestors_eq hparent] at ha
      rcases List.mem_cons.mp ha with rfl | ha
      · exact hlt
      · exact Nat.lt_trans (ih parent hlt ha) hlt

/-- Two nodes around a third are one around the other. -/
theorem IsTree.chain (hdoc : doc.IsTree) {id a b : Nat} (ha : a ∈ id :: doc.ancestors id)
    (hb : b ∈ id :: doc.ancestors id) : a = b ∨ a ∈ doc.ancestors b ∨ b ∈ doc.ancestors a := by
  induction id using Nat.strong_induction_on with
  | _ id ih =>
    rcases List.mem_cons.mp ha with rfl | ha'
    · rcases List.mem_cons.mp hb with rfl | hb'
      · exact .inl rfl
      · exact .inr (.inr hb')
    · rcases List.mem_cons.mp hb with rfl | hb'
      · exact .inr (.inl ha')
      · cases hparent : doc.parent? id with
        | none =>
          rw [ancestors_of_parent?_eq_none hparent] at ha'
          exact absurd ha' List.not_mem_nil
        | some parent =>
          rw [hdoc.ancestors_eq hparent] at ha' hb'
          exact ih parent (hdoc.parent_lt hparent) ha' hb'

/-- A node and those around it are on one way up, on which no two have the same parent. -/
theorem IsTree.eq_of_parent?_eq (h : doc.IsTree) {id a b parent : Nat}
    (ha : a ∈ id :: doc.ancestors id) (hb : b ∈ id :: doc.ancestors id)
    (hpa : doc.parent? a = some parent) (hpb : doc.parent? b = some parent) : a = b := by
  -- a node that is around another with this parent is the parent, or around it
  have hfar : ∀ {x y : Nat}, doc.parent? x = some parent → doc.parent? y = some parent →
      x ∉ doc.ancestors y := by
    intro x y hx hy hmem
    have hlt := h.parent_lt hx
    rw [h.ancestors_eq hy] at hmem
    rcases List.mem_cons.mp hmem with rfl | hmem
    · omega
    · have := h.lt_of_mem_ancestors hmem
      omega
  induction id using Nat.strong_induction_on with
  | _ id ih =>
    rcases List.mem_cons.mp ha with rfl | ha'
    · rcases List.mem_cons.mp hb with rfl | hb'
      · rfl
      · exact absurd hb' (hfar hpb hpa)
    · rcases List.mem_cons.mp hb with rfl | hb'
      · exact absurd ha' (hfar hpa hpb)
      · cases hparent : doc.parent? id with
        | none =>
          rw [ancestors_of_parent?_eq_none hparent] at ha'
          exact absurd ha' List.not_mem_nil
        | some next =>
          rw [h.ancestors_eq hparent] at ha' hb'
          exact ih next (h.parent_lt hparent) ha' hb'

/-- The siblings of a node are the children before and after it. -/
theorem IsTree.siblings?_eq (h : doc.IsTree) {id parent : Nat} {before after : List NodeId}
    (hparent : doc.parent? id = some parent) (hchildren : doc.children parent = before ++ id :: after) :
    doc.siblings? id = some (before, after) := by
  have hbefore : ∀ sibling ∈ before, decide (sibling ≠ id) = true := by
    have hincreasing := h.increasing parent
    rw [hchildren] at hincreasing
    intro sibling hsibling
    have hlt := (List.pairwise_append.mp hincreasing).2.2 sibling hsibling id List.mem_cons_self
    exact decide_eq_true (Nat.ne_of_lt hlt)
  rw [siblings?, hparent]
  dsimp only [bind, Option.bind]
  rw [hchildren, if_pos (List.mem_append_right _ List.mem_cons_self),
    List.takeWhile_append_of_pos hbefore, List.takeWhile_cons_of_neg (by simp), List.append_nil,
    List.dropWhile_append_of_pos hbefore, List.dropWhile_cons_of_neg (by simp)]
  rfl

theorem IsTree.nextElement?_eq (h : doc.IsTree) {id parent : Nat} {before after : List NodeId}
    (hparent : doc.parent? id = some parent) (hchildren : doc.children parent = before ++ id :: after) :
    doc.nextElement? id = after.find? doc.isElement := by
  rw [nextElement?, h.siblings?_eq hparent hchildren]
  rfl

end Document

/-! ## 4. Reading -/

namespace Markup

/-- A reading under `base` of a document that is a tree. -/
structure Reading.IsTree (base : Nat) (r : Reading) : Prop where
  document : r.document.IsTree
  base : base < r.document.count
  opened : ∀ id : Nat, ∀ name, (id, name) ∈ r.opened → id < r.document.count

namespace Reading

variable {base : Nat} {r : Reading}

theorem IsTree.current_lt (h : r.IsTree base) : r.current base < r.document.count := by
  unfold current
  cases hopened : r.opened with
  | nil => exact h.base
  | cons entry outer => exact h.opened entry.1 entry.2 (by rw [hopened]; exact List.mem_cons_self)

theorem IsTree.makeRoom (h : r.IsTree base) (name : Text) :
    (r.makeRoom base name).1 ⊆ r.opened ∧ (r.makeRoom base name).2 < r.document.count := by
  unfold Reading.makeRoom
  split
  · rename_i id innermost outer hopened
    have hid : id < r.document.count :=
      h.opened id innermost (by rw [hopened]; exact List.mem_cons_self)
    split
    · refine ⟨by rw [hopened]; exact List.subset_cons_self _ _, ?_⟩
      cases hparent : r.document.parent? id with
      | none => exact h.base
      | some parent => exact Nat.lt_trans (h.document.parent_lt hparent) hid
    · exact ⟨fun _ hx => hx, hid⟩
  · exact ⟨List.nil_subset _, h.base⟩

/-- A node is added, after which the given elements are open. -/
theorem IsTree.grow (h : r.IsTree base) {parent : Nat} (hparent : parent < r.document.count)
    {content : Content} (hcontent : ∀ e, content = .element e → e.children = [])
    {opened : List (NodeId × Text)}
    (hopened : ∀ id : Nat, ∀ name, (id, name) ∈ opened →
      id = r.document.count ∨ (id, name) ∈ r.opened) :
    Reading.IsTree base ⟨r.document.append parent content, opened⟩ := by
  refine ⟨h.document.append hparent hcontent, ?_, fun id name hentry => ?_⟩
  · rw [Document.count_append]
    exact Nat.lt_succ_of_lt h.base
  · rw [Document.count_append]
    rcases hopened id name hentry with heq | hold
    · omega
    · exact Nat.lt_succ_of_lt (h.opened id name hold)

theorem IsTree.add (h : r.IsTree base) (source : SourceId) (token : Token) :
    (r.add source base token).IsTree base := by
  cases token with
  | text span =>
    refine h.grow h.current_lt ?_ fun _ _ hentry => .inr hentry
    rintro e hcontent
    cases hcontent
  | comment span => exact h
  | startTag tag span =>
    obtain ⟨hsubset, hparent⟩ := h.makeRoom tag.name
    unfold Reading.add
    dsimp only
    split
    · refine h.grow hparent ?_ fun _ _ hentry => .inr (hsubset hentry)
      rintro e hcontent
      cases hcontent
      rfl
    · refine h.grow hparent ?_ fun id name hentry => ?_
      · rintro e hcontent
        cases hcontent
        rfl
      · rcases List.mem_cons.mp hentry with heq | hentry
        · cases heq
          exact .inl rfl
        · exact .inr (hsubset hentry)
  | rawElement tag span inner endTag =>
    obtain ⟨hsubset, hparent⟩ := h.makeRoom tag.name
    have hbegun : Reading.IsTree base ⟨r.document.append (r.makeRoom base tag.name).2
        (.element (tag.element source span endTag)), (r.makeRoom base tag.name).1⟩ := by
      refine h.grow hparent ?_ fun _ _ hentry => .inr (hsubset hentry)
      rintro e hcontent
      cases hcontent
      rfl
    unfold Reading.add
    dsimp only
    split
    · refine hbegun.grow ?_ ?_ fun _ _ hentry => .inr hentry
      · rw [Document.count_append]
        exact Nat.lt_succ_self _
      · rintro e hcontent
        cases hcontent
    · exact hbegun
  | endTag name span =>
    unfold Reading.add
    dsimp only
    split
    · rename_i id opened hclosing
      refine ⟨h.document.close id (some span), ?_, fun other entry hentry => ?_⟩
      · rw [Document.count_close]
        exact h.base
      · rw [Document.count_close]
        exact h.opened other entry (closing?_subset hclosing hentry)
    · exact h

end Reading

theorem isTree_readText {doc : Document} (h : doc.IsTree) (text : Text) (source : SourceId) {base : Nat}
    (hbase : base < doc.count) : (readText doc text source base).IsTree := by
  suffices hall : ∀ (tokens : List Token) (r : Reading), r.IsTree base →
      (tokens.foldl (Reading.add source base) r).IsTree base by
    exact (hall _ ⟨doc, []⟩ ⟨h, hbase, fun _ _ hentry => absurd hentry List.not_mem_nil⟩).document
  intro tokens
  induction tokens with
  | nil => exact fun r hr => hr
  | cons token tokens ih => exact fun r hr => ih _ (hr.add source token)

theorem isTree_read (filename : Path) (text : Text) : (read filename text).IsTree :=
  isTree_readText (Document.isTree_ofSource _) text 0 Nat.one_pos

end Markup

end Errata
