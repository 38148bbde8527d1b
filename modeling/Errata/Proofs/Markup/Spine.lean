import Errata.Proofs.Document.Depiction

/-!
# The tree that a reading builds

A reading changes a document only where it has come to: below the innermost open element, and at the open
elements themselves. So the tree of the document can be kept as those elements, each with the trees that are
complete below it, and every token does something simple to them.
-/

namespace Errata

/-! ## 1. Changing one element of a tree -/

namespace Tree

/-- Changes the element of the given number and puts trees behind its children. -/
def adjust (target : NodeId) (f : Element → Element) (extra : List Tree) : Tree → Tree
  | .text id source span => .text id source span
  | .element id e children =>
    if target = id then .element id (f e) (adjustAll target f extra children ++ extra)
    else .element id e (adjustAll target f extra children)
where
  adjustAll (target : NodeId) (f : Element → Element) (extra : List Tree) : List Tree → List Tree
    | [] => []
    | t :: ts => adjust target f extra t :: adjustAll target f extra ts

variable {target : NodeId} {f : Element → Element} {extra : List Tree}

theorem adjustAll_eq_map (ts : List Tree) :
    adjust.adjustAll target f extra ts = ts.map (adjust target f extra) := by
  induction ts with
  | nil => rfl
  | cons t ts ih => rw [adjust.adjustAll, ih, List.map_cons]

theorem id_adjust (t : Tree) : (t.adjust target f extra).id = t.id := by
  cases t with
  | text => rfl
  | element id e children =>
    rw [adjust]
    split
    · rfl
    · rfl

theorem map_id_adjustAll (ts : List Tree) :
    (adjust.adjustAll target f extra ts).map Tree.id = ts.map Tree.id := by
  rw [adjustAll_eq_map, List.map_map]
  exact List.map_congr_left fun t _ => id_adjust t

mutual

theorem adjust_of_not_mem : ∀ {t : Tree}, target ∉ t.ids → t.adjust target f extra = t
  | .text .., _ => rfl
  | .element id e children, h => by
    rw [ids, List.mem_cons, not_or] at h
    rw [adjust, if_neg h.1, adjustAll_of_not_mem h.2]

theorem adjustAll_of_not_mem : ∀ {ts : List Tree}, target ∉ ids.idsAll ts →
    adjust.adjustAll target f extra ts = ts
  | [], _ => rfl
  | t :: ts, h => by
    rw [ids.idsAll, List.mem_append, not_or] at h
    rw [adjust.adjustAll, adjust_of_not_mem h.1, adjustAll_of_not_mem h.2]

end

/-- A tree and a document are changed alike. -/
theorem Depicts.adjust {doc doc' : Document} {parent : Option NodeId} {t : Tree}
    (h : t.Depicts doc parent)
    (hnode : ∀ id node, doc.node? id = some node →
      doc'.node? id = some (if target = id then node.mapElement f else node))
    (hchildren : ∀ e : Element, (f e).children = e.children ++ extra.map Tree.id)
    (hextra : ∀ t ∈ extra, t.Depicts doc' (some target)) :
    (t.adjust target f extra).Depicts doc' parent := by
  induction h with
  | @text parent id source span hid =>
    refine .text ?_
    rw [hnode id _ hid]
    split
    · rfl
    · rfl
  | @element parent id e children hid hids hbelow ih =>
    have hall : ∀ t ∈ adjust.adjustAll target f extra children, t.Depicts doc' (some id) := by
      rw [adjustAll_eq_map, List.forall_mem_map]
      exact ih
    have hid' := hnode id _ hid
    -- only the changed element gets new children, in the tree as in the document
    rw [Tree.adjust]
    by_cases heq : target = id
    · rw [if_pos heq] at hid' ⊢
      refine .element hid' ?_ (List.forall_mem_append.mpr ⟨hall, ?_⟩)
      · rw [List.map_append, map_id_adjustAll, hids, hchildren]
      · rw [← heq]
        exact hextra
    · rw [if_neg heq] at hid' ⊢
      refine .element hid' ?_ hall
      rw [map_id_adjustAll, hids]

end Tree

/-! ## 2. Open elements -/

namespace Markup

/-- An open element with the trees that are complete below it. -/
structure Frame where
  id : NodeId
  element : Element
  done : List Tree

namespace Frame

def entry (f : Frame) : NodeId × Text := (f.id, f.element.name)

def tree (f : Frame) : Tree :=
  .element f.id { f.element with children := f.done.map Tree.id } f.done

def hang (f : Frame) (t : Tree) : Frame := { f with done := f.done ++ [t] }

def close (f : Frame) (endTag : Span) : Frame :=
  { f with element := { f.element with endTag := some endTag } }

end Frame

/-- The tree of an element with raw text. -/
def rawTree (id : NodeId) (e : Element) (inner : Span) : Tree :=
  if inner.start < inner.stop then (Frame.hang ⟨id, e, []⟩ (.text (id + 1) 0 inner)).tree
  else Frame.tree ⟨id, e, []⟩

/-- The open elements, of which the outermost is the root. -/
structure Spine where
  innermost : Frame
  outer : List Frame

namespace Spine

/-- The tree of which `t` is the last part, with the given elements around it. -/
def plug : List Frame → Tree → Tree
  | [], t => t
  | f :: outer, t => plug outer (f.hang t).tree

def tree (s : Spine) : Tree := plug s.outer s.innermost.tree

def hang (s : Spine) (t : Tree) : Spine := { s with innermost := s.innermost.hang t }

def enter (s : Spine) (f : Frame) : Spine := ⟨f, s.innermost :: s.outer⟩

/-- Ends the innermost element; the root never ends. -/
def leave (s : Spine) : Spine :=
  match s.outer with
  | [] => s
  | f :: outer => ⟨f.hang s.innermost.tree, outer⟩

def close (s : Spine) (endTag : Span) : Spine := { s with innermost := s.innermost.close endTag }

def makeRoom (s : Spine) (name : Text) : Spine :=
  if s.innermost.element.name = name && selfEndingNames.contains name then s.leave else s

/-- Ends the elements inside the innermost one of the given name. -/
def unwind? (name : Text) : Frame → List Frame → Option Spine
  | _, [] => none
  | f, g :: outer =>
    if f.element.name = name then some ⟨f, g :: outer⟩ else unwind? name (g.hang f.tree) outer

/-- What one token does when there are `count` nodes. -/
def add (count : Nat) (s : Spine) : Token → Spine
  | .text span => s.hang (.text count 0 span)
  | .comment _ => s
  | .startTag tag span =>
    if tag.closed || voidNames.contains tag.name then
      (s.makeRoom tag.name).hang (.element count (tag.element 0 span (some ⟨span.stop, span.stop⟩)) [])
    else (s.makeRoom tag.name).enter ⟨count, tag.element 0 span none, []⟩
  | .rawElement tag span inner endTag =>
    (s.makeRoom tag.name).hang (rawTree count (tag.element 0 span endTag) inner)
  | .endTag name span =>
    match unwind? name s.innermost s.outer with
    | some unwound => (unwound.close span).leave
    | none => s

theorem tree_leave (s : Spine) : s.leave.tree = s.tree := by
  unfold leave
  split
  · rfl
  · rename_i f outer houter
    rw [tree, tree, houter]
    rfl

theorem tree_makeRoom (s : Spine) (name : Text) : (s.makeRoom name).tree = s.tree := by
  unfold makeRoom
  split
  · exact s.tree_leave
  · rfl

theorem ids_plug (outer : List Frame) (t : Tree) : (plug outer t).ids =
    (outer.reverse.flatMap fun f => f.id :: Tree.ids.idsAll f.done) ++ t.ids := by
  induction outer generalizing t with
  | nil => rfl
  | cons f outer ih =>
    rw [plug, ih, List.reverse_cons, List.flatMap_append, List.append_assoc, Frame.tree, Tree.ids,
      Frame.hang, Tree.idsAll_eq_flatMap, List.flatMap_append]
    simp [Tree.idsAll_eq_flatMap]

/-- What is changed inside the innermost element is changed nowhere else. -/
theorem adjust_plug {target : NodeId} {f : Element → Element} {extra : List Tree} {outer : List Frame}
    (houter : ∀ g ∈ outer, target ∉ g.tree.ids) (t : Tree) :
    (plug outer t).adjust target f extra = plug outer (t.adjust target f extra) := by
  induction outer generalizing t with
  | nil => rfl
  | cons g outer ih =>
    obtain ⟨hg, houter⟩ := List.forall_mem_cons.mp houter
    rw [plug, ih houter, plug]
    congr 1
    rw [Frame.tree, Tree.ids, List.mem_cons, not_or] at hg
    have hdone : Tree.adjust.adjustAll target f extra g.done = g.done := Tree.adjustAll_of_not_mem hg.2
    rw [Tree.adjustAll_eq_map] at hdone
    rw [Frame.tree, Tree.adjust, if_neg (show ¬ target = (g.hang t).id from hg.1),
      Tree.adjustAll_eq_map]
    simp [Frame.tree, Frame.hang, hdone, Tree.id_adjust]

theorem depicts_of_plug {doc : Document} {outer : List Frame} {t : Tree} {parent : Option NodeId}
    (h : (plug outer t).Depicts doc parent) :
    t.Depicts doc ((outer.head?.map Frame.id).or parent) := by
  induction outer generalizing t with
  | nil => exact h
  | cons f outer ih =>
    cases ih h with
    | element hnode hids hchildren =>
      exact hchildren t (List.mem_append_right _ List.mem_cons_self)

/-! ## 3. Readings -/

/-- The open elements, with what is complete below them, are those of the reading. -/
structure Shows (r : Reading) (s : Spine) : Prop where
  document : r.document.IsTree
  depicts : s.tree.Depicts r.document none
  entries : (s.innermost :: s.outer).map Frame.entry =
    r.opened ++ [(Document.root, Document.rootName)]

variable {r : Reading} {s : Spine}

theorem Shows.current_eq (h : s.Shows r) : r.current Document.root = s.innermost.id := by
  have hentries := h.entries
  rw [Reading.current]
  cases hopened : r.opened with
  | nil =>
    rw [hopened] at hentries
    exact (congrArg Prod.fst (List.cons.inj hentries).1).symm
  | cons entry opened =>
    rw [hopened] at hentries
    exact (congrArg Prod.fst (List.cons.inj hentries).1).symm

theorem id_plug {f : Frame} {outer : List Frame} {opened : List (NodeId × Text)}
    (h : (f :: outer).map Frame.entry = opened ++ [(Document.root, Document.rootName)]) :
    (plug outer f.tree).id = Document.root := by
  induction outer generalizing f opened with
  | nil =>
    have hlast := congrArg List.getLast? h
    rw [List.getLast?_concat] at hlast
    exact congrArg Prod.fst (Option.some.inj hlast)
  | cons g outer ih =>
    cases opened with
    | nil =>
      have hlength := congrArg List.length h
      simp at hlength
    | cons entry opened => exact ih (f := g.hang f.tree) (List.cons.inj h).2

theorem Shows.innermost_lt (h : s.Shows r) : s.innermost.id < r.document.count := by
  cases depicts_of_plug h.depicts with
  | element hnode => exact (List.getElem?_eq_some_iff.mp hnode).1

theorem Shows.nodup (h : s.Shows r) :
    (∀ g ∈ s.outer, s.innermost.id ∉ g.tree.ids) ∧ s.innermost.id ∉ Tree.ids.idsAll s.innermost.done := by
  have hnodup := h.depicts.nodup_ids h.document
  rw [tree, ids_plug, List.nodup_append] at hnodup
  obtain ⟨-, hinner, hapart⟩ := hnodup
  refine ⟨fun g hg hmem => ?_, (List.nodup_cons.mp hinner).1⟩
  exact hapart s.innermost.id (List.mem_flatMap.mpr ⟨g, List.mem_reverse.mpr hg, hmem⟩)
    s.innermost.id List.mem_cons_self rfl

theorem Shows.tree_hang (h : s.Shows r) (t : Tree) : (s.hang t).tree =
    s.tree.adjust s.innermost.id (fun e => { e with children := e.children ++ [t.id] }) [t] := by
  obtain ⟨houter, hdone⟩ := h.nodup
  rw [tree, tree, adjust_plug houter, Frame.tree, Frame.tree, Tree.adjust, if_pos rfl,
    Tree.adjustAll_of_not_mem hdone]
  simp [hang, Frame.hang]

theorem Shows.tree_close (h : s.Shows r) (endTag : Span) : (s.close endTag).tree =
    s.tree.adjust s.innermost.id (fun e => { e with endTag := some endTag }) [] := by
  obtain ⟨houter, hdone⟩ := h.nodup
  rw [tree, tree, adjust_plug houter, Frame.tree, Frame.tree, Tree.adjust, if_pos rfl,
    Tree.adjustAll_of_not_mem hdone]
  simp [close, Frame.close]

/-- A node that is added to the document hangs from the innermost element. -/
theorem Shows.grow (h : s.Shows r) {content : Content} {t : Tree}
    (hcontent : ∀ e, content = .element e → e.children = []) (hid : t.id = r.document.count)
    (ht : ∀ doc : Document, doc.node? r.document.count = some ⟨some s.innermost.id, content⟩ →
      t.Depicts doc (some s.innermost.id)) :
    (s.hang t).Shows ⟨r.document.append s.innermost.id content, r.opened⟩ := by
  have hlt := h.innermost_lt
  refine ⟨h.document.append hlt hcontent, ?_, h.entries⟩
  rw [h.tree_hang]
  refine h.depicts.adjust (fun id node hnode => ?_) (fun e => rfl) ?_
  · rw [Document.node?_append_of_lt content (List.getElem?_eq_some_iff.mp hnode).1, hnode, hid]
    rfl
  · rw [List.forall_mem_singleton]
    exact ht _ (Document.node?_append_count hlt content)

theorem Shows.growText (h : s.Shows r) (span : Span) :
    (s.hang (.text r.document.count 0 span)).Shows
      ⟨r.document.append s.innermost.id (.text 0 span), r.opened⟩ := by
  refine h.grow ?_ rfl fun doc hnode => .text hnode
  rintro e hcontent
  cases hcontent

theorem Shows.growElement (h : s.Shows r) {e : Element} (he : e.children = []) :
    (s.hang (.element r.document.count e [])).Shows
      ⟨r.document.append s.innermost.id (.element e), r.opened⟩ := by
  refine h.grow ?_ rfl fun doc hnode => .element hnode he.symm (List.forall_mem_nil _)
  rintro e' hcontent
  cases hcontent
  exact he

theorem Shows.enter {doc : Document} {opened : List (NodeId × Text)} {f : Frame}
    (h : (s.hang f.tree).Shows ⟨doc, opened⟩) : (s.enter f).Shows ⟨doc, f.entry :: opened⟩ :=
  ⟨h.document, h.depicts, congrArg (f.entry :: ·) h.entries⟩

theorem Shows.leave {doc : Document} {entry : NodeId × Text} {opened : List (NodeId × Text)}
    (h : s.Shows ⟨doc, entry :: opened⟩) : s.leave.Shows ⟨doc, opened⟩ := by
  refine ⟨h.document, ?_, ?_⟩
  · rw [tree_leave]
    exact h.depicts
  · have hentries := (List.cons.inj h.entries).2
    unfold Spine.leave
    split
    · rename_i houter
      rw [houter] at hentries
      exact absurd hentries.symm (List.append_ne_nil_of_right_ne_nil _ (List.cons_ne_nil _ _))
    · rename_i f outer houter
      rw [houter] at hentries
      exact hentries

/-- The parent of an element that is ended is the open element around it. -/
theorem Shows.makeRoom (h : s.Shows r) (name : Text) :
    (s.makeRoom name).Shows ⟨r.document, (r.makeRoom Document.root name).1⟩ ∧
      (s.makeRoom name).innermost.id = (r.makeRoom Document.root name).2 := by
  have hentries := h.entries
  unfold Spine.makeRoom Reading.makeRoom
  cases hopened : r.opened with
  | nil =>
    rw [hopened] at hentries
    obtain ⟨hroot, houter⟩ := List.cons.inj hentries
    have hleave : s.leave = s := by
      rw [Spine.leave, List.map_eq_nil_iff.mp houter]
    rw [hleave, ite_self]
    exact ⟨⟨h.document, h.depicts, hentries⟩, congrArg Prod.fst hroot⟩
  | cons entry opened =>
    obtain ⟨id, innermost⟩ := entry
    rw [hopened] at hentries
    obtain ⟨hentry, houter⟩ := List.cons.inj hentries
    cases hentry
    dsimp only
    have hshows : s.Shows ⟨r.document, s.innermost.entry :: opened⟩ := ⟨h.document, h.depicts, hentries⟩
    split
    · refine ⟨hshows.leave, ?_⟩
      have hparent := (depicts_of_plug h.depicts).parent?_eq
      cases hcases : s.outer with
      | nil =>
        rw [hcases] at houter
        exact absurd houter.symm (List.append_ne_nil_of_right_ne_nil _ (List.cons_ne_nil _ _))
      | cons f outer =>
        rw [hcases] at hparent
        have hparent' : r.document.parent? s.innermost.id = some f.id := hparent
        rw [hparent', Spine.leave, hcases]
        rfl
    · exact ⟨hshows, rfl⟩

/-! ### End tags -/

theorem Shows.unwind {name : Text} {f : Frame} {outer : List Frame} {doc : Document}
    {opened opened' : List (NodeId × Text)} {id : NodeId} (h : Shows ⟨doc, opened⟩ ⟨f, outer⟩)
    (hclosing : Reading.closing? name opened = some (id, opened')) :
    ∃ unwound, unwind? name f outer = some unwound ∧ unwound.innermost.id = id ∧
      unwound.Shows ⟨doc, unwound.innermost.entry :: opened'⟩ := by
  induction outer generalizing f opened with
  | nil =>
    -- only the root is open
    have hlength := congrArg List.length h.entries
    have hopened : opened = [] := by
      cases opened with
      | nil => rfl
      | cons entry opened => simp at hlength
    rw [hopened] at hclosing
    cases hclosing
  | cons g outer ih =>
    cases opened with
    | nil => cases hclosing
    | cons entry opened =>
      -- elements and entries are passed in step until the name is found
      obtain ⟨hentry, -⟩ := List.cons.inj h.entries
      rw [← hentry] at h hclosing
      rw [unwind?]
      rw [Frame.entry, Reading.closing?] at hclosing
      split at hclosing
      · rename_i hname
        cases hclosing
        rw [if_pos hname]
        exact ⟨_, rfl, rfl, h⟩
      · rename_i hname
        rw [if_neg hname]
        exact ih h.leave hclosing

theorem Shows.unwind_eq_none {name : Text} {f : Frame} {outer : List Frame} {doc : Document}
    {opened : List (NodeId × Text)} (h : Shows ⟨doc, opened⟩ ⟨f, outer⟩)
    (hclosing : Reading.closing? name opened = none) : unwind? name f outer = none := by
  induction outer generalizing f opened with
  | nil => rfl
  | cons g outer ih =>
    cases opened with
    | nil =>
      have hlength := congrArg List.length h.entries
      simp at hlength
    | cons entry opened =>
      obtain ⟨hentry, -⟩ := List.cons.inj h.entries
      rw [← hentry] at h hclosing
      rw [Frame.entry, Reading.closing?] at hclosing
      split at hclosing
      · cases hclosing
      · rename_i hname
        rw [unwind?, if_neg hname]
        exact ih h.leave hclosing

theorem Shows.close (h : s.Shows r) (endTag : Span) :
    (s.close endTag).Shows ⟨r.document.close s.innermost.id (some endTag), r.opened⟩ := by
  refine ⟨h.document.close _ _, ?_, h.entries⟩
  rw [h.tree_close]
  refine h.depicts.adjust (fun id node hnode => ?_) (fun e => (List.append_nil _).symm)
    (List.forall_mem_nil _)
  rw [Document.node?_close, hnode]
  rfl

/-! ### Tokens -/

theorem Shows.add (h : s.Shows r) (token : Token) :
    (s.add r.document.count token).Shows (r.add 0 Document.root token) := by
  cases token with
  | text span =>
    rw [Reading.add, h.current_eq]
    exact h.growText span
  | comment span => exact h
  | startTag tag span =>
    obtain ⟨hroom, hparent⟩ := h.makeRoom tag.name
    unfold Reading.add Spine.add
    dsimp only
    rw [← hparent]
    split
    · exact hroom.growElement rfl
    · exact Shows.enter (f := ⟨r.document.count, tag.element 0 span none, []⟩) (hroom.growElement rfl)
  | rawElement tag span inner endTag =>
    obtain ⟨hroom, hparent⟩ := h.makeRoom tag.name
    have hraw := hroom.growElement (e := tag.element 0 span endTag) rfl
    unfold Reading.add Spine.add rawTree
    dsimp only
    rw [← hparent]
    split
    · -- the text hangs from the new element before that is ended
      have hentered := Shows.enter (f := ⟨r.document.count, tag.element 0 span endTag, []⟩) hraw
      have htext := hentered.growText inner
      rw [Document.count_append] at htext
      exact htext.leave
    · exact hraw
  | endTag name span =>
    unfold Reading.add Spine.add
    dsimp only
    cases hclosing : Reading.closing? name r.opened with
    | none =>
      rw [h.unwind_eq_none hclosing]
      exact h
    | some found =>
      obtain ⟨id, opened⟩ := found
      obtain ⟨unwound, hunwound, rfl, hshows⟩ := h.unwind hclosing
      rw [hunwound]
      exact (hshows.close span).leave

/-- Before the first token only the root is open. -/
def start (text : Text) : Spine where
  innermost := {
    id := Document.root
    element := {
      name := Document.rootName
      attributes := []
      children := []
      source := 0
      startTag := ⟨0, 0⟩
      endTag := some ⟨text.size, text.size⟩ }
    done := [] }
  outer := []

theorem shows_start (filename : Path) (text : Text) :
    (start text).Shows ⟨.ofSource ⟨filename, text⟩, []⟩ :=
  ⟨Document.isTree_ofSource _, .element rfl rfl (List.forall_mem_nil _), rfl⟩

/-! ## 4. Whole texts -/

/-- What every token keeps holds of the tree that was read. -/
theorem exists_tree_read {I : Spine → Document → Prop} (filename : Path) (text : Text)
    (hstart : I (start text) (.ofSource ⟨filename, text⟩))
    (hadd : ∀ token ∈ tokens (.atStart text 0), ∀ (s : Spine) (r : Reading), s.Shows r → I s r.document →
      I (s.add r.document.count token) (r.add 0 Document.root token).document) :
    ∃ s : Spine, (read filename text).tree Document.root = .ok s.tree ∧ I s (read filename text) := by
  have hrun : ∀ (ts : List Token), ts ⊆ tokens (.atStart text 0) → ∀ (s : Spine) (r : Reading), s.Shows r →
      I s r.document → ∃ s' : Spine, s'.Shows (ts.foldl (Reading.add 0 Document.root) r) ∧
        I s' (ts.foldl (Reading.add 0 Document.root) r).document := by
    intro ts
    induction ts with
    | nil => exact fun _ s r hshows hI => ⟨s, hshows, hI⟩
    | cons token ts ih =>
      intro hsubset s r hshows hI
      obtain ⟨htoken, hsubset⟩ := List.cons_subset.mp hsubset
      exact ih hsubset _ _ (hshows.add token) (hadd token htoken s r hshows hI)
  obtain ⟨s, hshows, hI⟩ := hrun _ (List.Subset.refl _) _ _ (shows_start filename text) hstart
  obtain ⟨pos, hsound⟩ := sound_read filename text
  obtain ⟨t, ht, -⟩ := (hsound.yields_treeWithout none hsound.nonempty).eq_ok
  -- the tree of the document is the one that the spine has kept
  obtain ⟨hid, hdepicts⟩ := (isTree_read filename text).depicts_tree ht
  have heq : t = s.tree := hdepicts.eq_of_id_eq hshows.depicts (hid.trans (id_plug hshows.entries).symm)
  refine ⟨s, ?_, hI⟩
  rw [← heq]
  exact ht

/-! ### The order of the nodes -/

theorem ids_hang (s : Spine) (t : Tree) : (s.hang t).tree.ids = s.tree.ids ++ t.ids := by
  rw [tree, tree, ids_plug, ids_plug]
  simp [hang, Frame.hang, Frame.tree, Tree.ids, Tree.idsAll_eq_flatMap]

theorem ids_close (s : Spine) (endTag : Span) : (s.close endTag).tree.ids = s.tree.ids := by
  rw [tree, tree, ids_plug, ids_plug]
  rfl

theorem tree_unwind? {name : Text} {f : Frame} {outer : List Frame} {unwound : Spine}
    (h : unwind? name f outer = some unwound) : unwound.tree = plug outer f.tree := by
  induction outer generalizing f with
  | nil => cases h
  | cons g outer ih =>
    rw [unwind?] at h
    split at h
    · cases h
      rfl
    · exact ih h

/-- The nodes are numbered in the order of the tree. -/
def IsNumbered (s : Spine) (doc : Document) : Prop := s.tree.ids = List.range doc.count

theorem IsNumbered.grow {doc : Document} (h : s.IsNumbered doc) {t : Tree} (ht : t.ids = [doc.count])
    (parent : NodeId) (content : Content) : (s.hang t).IsNumbered (doc.append parent content) := by
  rw [IsNumbered, ids_hang, h, ht, Document.count_append, List.range_succ]

theorem IsNumbered.makeRoom {doc : Document} (h : s.IsNumbered doc) (name : Text) :
    (s.makeRoom name).IsNumbered doc := by
  rw [IsNumbered, tree_makeRoom]
  exact h

theorem IsNumbered.add (hshows : s.Shows r) (h : s.IsNumbered r.document) (token : Token) :
    (s.add r.document.count token).IsNumbered (r.add 0 Document.root token).document := by
  cases token with
  | text span => exact h.grow rfl _ _
  | comment span => exact h
  | startTag tag span =>
    unfold Reading.add Spine.add
    dsimp only
    split
    · exact (h.makeRoom tag.name).grow rfl _ _
    · -- an element that is entered hangs in the tree as well
      exact (h.makeRoom tag.name).grow (t := Frame.tree ⟨r.document.count, tag.element 0 span none, []⟩) rfl _ _
  | rawElement tag span inner endTag =>
    have hroom := h.makeRoom tag.name
    unfold Reading.add Spine.add rawTree
    dsimp only
    split
    · rw [IsNumbered, ids_hang, hroom, Document.count_append, Document.count_append, List.range_succ,
        List.range_succ, List.append_assoc]
      rfl
    · exact hroom.grow rfl _ _
  | endTag name span =>
    unfold Reading.add Spine.add
    dsimp only
    cases hclosing : Reading.closing? name r.opened with
    | none =>
      rw [hshows.unwind_eq_none hclosing]
      exact h
    | some found =>
      obtain ⟨id, opened⟩ := found
      obtain ⟨unwound, hunwound, -, -⟩ := hshows.unwind hclosing
      rw [hunwound]
      show (unwound.close span).leave.tree.ids = List.range (r.document.close id (some span)).count
      rw [tree_leave, ids_close, tree_unwind? hunwound, Document.count_close]
      exact h

/-- In a document that was read from a text, the nodes are numbered in the order of the tree. -/
theorem ids_tree_read (filename : Path) (text : Text) {t : Tree}
    (ht : (read filename text).tree Document.root = .ok t) :
    t.ids = List.range (read filename text).count := by
  obtain ⟨s, hs, hnumbered⟩ := exists_tree_read (I := IsNumbered) filename text rfl
    fun token _ s r hshows h => h.add hshows token
  rw [hs] at ht
  cases ht
  exact hnumbered

end Spine

end Markup

end Errata
