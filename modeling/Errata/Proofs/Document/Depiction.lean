import Errata.Proofs.Document.Tree
import Errata.Proofs.Document.WellFormed
import Mathlib.Data.List.Nodup

/-!
# Trees and the documents they are taken from

The tree below a node of a document that is a tree shows every node below it, once and under its parent. So
what stands around a node can be told from the document as well as from the tree.
-/

namespace Errata

namespace Tree

/-- The numbers of the nodes of a tree, each before those below it. -/
def ids : Tree → List NodeId
  | .text id .. => [id]
  | .element id _ children => id :: idsAll children
where
  idsAll : List Tree → List NodeId
    | [] => []
    | t :: ts => ids t ++ idsAll ts

theorem idsAll_eq_flatMap (ts : List Tree) : ids.idsAll ts = ts.flatMap ids := by
  induction ts with
  | nil => rfl
  | cons t ts ih => rw [ids.idsAll, ih, List.flatMap_cons]

/-- The tree shows all that the document has below a node with the given parent. -/
inductive Depicts (doc : Document) : Option NodeId → Tree → Prop
  | text {parent : Option NodeId} {id : NodeId} {source : SourceId} {span : Span}
      (hnode : doc.node? id = some ⟨parent, .text source span⟩) :
      Depicts doc parent (.text id source span)
  | element {parent : Option NodeId} {id : NodeId} {e : Element} {children : List Tree}
      (hnode : doc.node? id = some ⟨parent, .element e⟩) (hids : children.map Tree.id = e.children)
      (hchildren : ∀ t ∈ children, Depicts doc (some id) t) :
      Depicts doc parent (.element id e children)

/-! ## 1. The tree below a node -/

theorem map_id_of_mapM {f : NodeId → Option Tree} (hf : ∀ id t, f id = some t → t.id = id)
    {ids : List NodeId} {ts : List Tree} (h : ids.mapM f = some ts) : ts.map Tree.id = ids := by
  induction ids generalizing ts with
  | nil =>
    cases h
    rfl
  | cons id ids ih =>
    simp only [List.mapM_cons, Option.bind_eq_bind, Option.bind_eq_some_iff] at h
    obtain ⟨t, ht, ts', hts, heq⟩ := h
    cases heq
    rw [List.map_cons, hf id t ht, ih hts]

end Tree

namespace Document

variable {doc : Document}

theorem element?_eq_some_of_node? {id : NodeId} {parent : Option NodeId} {e : Element}
    (h : doc.node? id = some ⟨parent, .element e⟩) : doc.element? id = some e := by
  rw [element?, h]
  rfl

theorem IsTree.descendsUpward (h : doc.IsTree) : doc.DescendsUpward := by
  intro id e he child hchild
  rw [← children_eq he] at hchild
  have hparent := (h.mem_children (Option.isSome_of_eq_some he) child).mp hchild
  exact ⟨h.parent_lt hparent, lt_count_of_parent? hparent⟩

theorem IsTree.depicts (hdoc : doc.IsTree) {depth : Nat} {id : NodeId} {t : Tree}
    (h : doc.treeOfDepth? none depth id = some t) : t.Depicts doc (doc.parent? id) := by
  induction depth generalizing id t with
  | zero => cases h
  | succ depth ih =>
    rw [treeOfDepth?] at h
    split at h
    · cases h
    · rename_i parent source span hnode
      cases h
      rw [parent?, hnode]
      exact .text hnode
    · rename_i parent e hnode
      rw [if_neg (by simp)] at h
      obtain ⟨children, hmap, rfl⟩ := Option.map_eq_some_iff.mp h
      have helement := element?_eq_some_of_node? hnode
      have hid : doc.isElement id = true := Option.isSome_of_eq_some helement
      rw [parent?, hnode]
      refine .element hnode ?_ fun t ht => ?_
      · exact Tree.map_id_of_mapM (fun child t ht => (shows_of_treeOfDepth? ht).1) hmap
      · obtain ⟨child, hchild, hdepth⟩ := mem_of_mapM_eq_some hmap t ht
        have hbelow := ih hdepth
        rw [← children_eq helement] at hchild
        rw [(hdoc.mem_children hid child).mp hchild] at hbelow
        exact hbelow

theorem IsTree.depicts_tree (hdoc : doc.IsTree) {id : NodeId} {t : Tree} (h : doc.tree id = .ok t) :
    t.id = id ∧ t.Depicts doc (doc.parent? id) := by
  rw [tree, treeWithout] at h
  split at h
  · rename_i t' hdepth
    cases h
    exact ⟨(shows_of_treeOfDepth? hdepth).1, hdoc.depicts hdepth⟩
  · cases h

end Document

/-! ## 2. What stands around a node -/

namespace Tree

variable {doc : Document} {parent : Option NodeId} {t : Tree}

theorem Depicts.parent?_eq (h : t.Depicts doc parent) : doc.parent? t.id = parent := by
  cases h with
  | text hnode =>
    rw [Document.parent?, id, hnode]
    rfl
  | element hnode =>
    rw [Document.parent?, id, hnode]
    rfl

theorem Depicts.element?_eq (h : t.Depicts doc parent) : doc.element? t.id = t.element? := by
  cases h with
  | text hnode =>
    rw [Document.element?, id, hnode]
    rfl
  | element hnode =>
    rw [Document.element?, id, hnode]
    rfl

theorem Depicts.isElement_eq (h : t.Depicts doc parent) : t.isElement = doc.isElement t.id := by
  rw [isElement, Document.isElement, h.element?_eq]

theorem Depicts.isNamed_eq (h : t.Depicts doc parent) (name : Text) :
    t.isNamed name = doc.isNamed t.id name := by
  rw [isNamed, Document.isNamed, Document.name?, h.element?_eq]
  cases t.element? with
  | none => simp
  | some e => simp

/-- Every node of a tree is its root or has the root around it. -/
theorem Depicts.mem_around (h : t.Depicts doc parent) (hdoc : doc.IsTree) {x : NodeId}
    (hx : x ∈ t.ids) : t.id ∈ x :: doc.ancestors x := by
  induction h with
  | text hnode =>
    rw [List.mem_singleton.mp hx]
    exact List.mem_cons_self
  | @element parent id e children hnode hids hchildren ih =>
    rcases List.mem_cons.mp hx with rfl | hx
    · exact List.mem_cons_self
    · rw [idsAll_eq_flatMap] at hx
      obtain ⟨child, hchild, hx⟩ := List.mem_flatMap.mp hx
      exact List.mem_cons_of_mem _
        (hdoc.parent_mem_ancestors (ih child hchild hx) (hchildren child hchild).parent?_eq)

theorem Depicts.mem_ancestors {id : NodeId} {e : Element} {children : List Tree}
    (h : Depicts doc parent (.element id e children)) (hdoc : doc.IsTree) {x : NodeId}
    (hx : x ∈ ids.idsAll children) : id ∈ doc.ancestors x := by
  cases h with
  | element hnode hids hchildren =>
    rw [idsAll_eq_flatMap] at hx
    obtain ⟨child, hchild, hx⟩ := List.mem_flatMap.mp hx
    have hbelow := hchildren child hchild
    exact hdoc.parent_mem_ancestors (hbelow.mem_around hdoc hx) hbelow.parent?_eq

theorem Depicts.nodup_ids (h : t.Depicts doc parent) (hdoc : doc.IsTree) : t.ids.Nodup := by
  induction h with
  | text hnode => exact List.nodup_singleton _
  | @element parent id e children hnode hids hchildren ih =>
    rw [ids]
    refine List.nodup_cons.mpr ⟨fun hmem => ?_, ?_⟩
    · have hself := (Depicts.element hnode hids hchildren).mem_ancestors hdoc hmem
      exact Nat.lt_irrefl _ (hdoc.lt_of_mem_ancestors hself)
    · -- two children that share a node would be on one way up, with one parent
      rw [idsAll_eq_flatMap, List.nodup_flatMap]
      refine ⟨ih, ?_⟩
      have hincreasing := hdoc.increasing id
      rw [Document.children_eq (Document.element?_eq_some_of_node? hnode), ← hids,
        List.pairwise_map] at hincreasing
      refine hincreasing.imp_of_mem fun {a b} ha hb hlt x hxa hxb => ?_
      have heq := hdoc.eq_of_parent?_eq ((hchildren a ha).mem_around hdoc hxa)
        ((hchildren b hb).mem_around hdoc hxb) (hchildren a ha).parent?_eq (hchildren b hb).parent?_eq
      exact Nat.ne_of_lt hlt heq

theorem eq_of_map_id_eq {ts us : List Tree} (hids : ts.map Tree.id = us.map Tree.id)
    (h : ∀ t ∈ ts, ∀ u ∈ us, t.id = u.id → t = u) : ts = us := by
  induction ts generalizing us with
  | nil => exact (List.map_eq_nil_iff.mp hids.symm).symm
  | cons t ts ih =>
    cases us with
    | nil => cases hids
    | cons u us =>
      obtain ⟨hid, hids⟩ := List.cons.inj hids
      rw [h t List.mem_cons_self u List.mem_cons_self hid]
      rw [ih hids fun t ht u hu => h t (List.mem_cons_of_mem _ ht) u (List.mem_cons_of_mem _ hu)]

/-- A document has one tree below a node. -/
theorem Depicts.eq_of_id_eq {parent' : Option NodeId} {u : Tree} (ht : t.Depicts doc parent)
    (hu : u.Depicts doc parent') (hid : t.id = u.id) : t = u := by
  induction ht generalizing parent' u with
  | @text parent id source span hnode =>
    cases hu with
    | @text _ id' _ _ hnode' =>
      obtain rfl : id = id' := hid
      rw [hnode] at hnode'
      cases hnode'
      rfl
    | @element _ id' _ _ hnode' =>
      obtain rfl : id = id' := hid
      rw [hnode] at hnode'
      cases hnode'
  | @element parent id e children hnode hids hchildren ih =>
    cases hu with
    | @text _ id' _ _ hnode' =>
      obtain rfl : id = id' := hid
      rw [hnode] at hnode'
      cases hnode'
    | @element _ id' _ children' hnode' hids' hchildren' =>
      obtain rfl : id = id' := hid
      rw [hnode] at hnode'
      cases hnode'
      rw [eq_of_map_id_eq (hids.trans hids'.symm) fun t ht u hu => ih t ht (hchildren' u hu)]

theorem Depicts.tree_eq (h : t.Depicts doc parent) (hdoc : doc.IsTree) : doc.tree t.id = .ok t := by
  have hlt : t.id < doc.count := by
    cases h with
    | text hnode => exact (List.getElem?_eq_some_iff.mp hnode).1
    | element hnode => exact (List.getElem?_eq_some_iff.mp hnode).1
  obtain ⟨t', ht', hid, -⟩ := (hdoc.descendsUpward.yields_treeWithout none hlt).eq_ok
  have htree : doc.tree t.id = .ok t' := ht'
  rw [htree, (hdoc.depicts_tree htree).2.eq_of_id_eq h hid]

end Tree

end Errata
