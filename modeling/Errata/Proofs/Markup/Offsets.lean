import Errata.Proofs.Markup.Lossless

/-!
# Where the text below a node comes from

The text below a node, without what stands inside elements of some name, is put together from text nodes. Each
of its bytes is a byte of the source, and since the text nodes follow each other in the source as they do in the
tree, the offsets of these bytes increase.
-/

namespace Errata

open Text

/-! ## 1. Bytes -/

namespace Text

/-- The UTF-8 form of a text. -/
def bytes (t : Text) : List UInt8 := t.flatMap String.utf8EncodeChar

theorem length_bytes (t : Text) : t.bytes.length = t.size := by
  induction t with
  | nil => rfl
  | cons c t ih =>
    rw [bytes, List.flatMap_cons, List.length_append, String.length_utf8EncodeChar, size_cons]
    exact congrArg (c.utf8Size + ·) ih

theorem bytes_append (s t : Text) : bytes (s ++ t) = s.bytes ++ t.bytes := List.flatMap_append

/-- The bytes of a piece are those of the text from where the piece is written. -/
theorem Holds.getElem?_bytes {t piece : Text} {offset index : Nat} (h : t.Holds offset piece)
    (hindex : index < piece.size) : t.bytes[offset + index]? = piece.bytes[index]? := by
  obtain ⟨before, after, rfl, rfl⟩ := h
  have hlength : index < piece.bytes.length := by rwa [length_bytes]
  rw [bytes_append, bytes_append, List.append_assoc, ← length_bytes before, List.getElem?_append_right (by omega),
    Nat.add_sub_cancel_left, List.getElem?_append_left hlength]

end Text

/-! ## 2. Pieces of the source -/

namespace Document

section Pieces

variable {text : Text} {pieces : List (Span × Text)}

theorem bytes_flatMap_cons (span : Span) (part : Text) (pieces : List (Span × Text)) :
    Text.bytes (((span, part) :: pieces).flatMap Prod.snd) =
      part.bytes ++ Text.bytes (pieces.flatMap Prod.snd) :=
  bytes_append _ _

/-- A byte of the joined pieces is a byte of one of the pieces, and stands in the text where that piece does. -/
theorem exists_pieceOffset? (h : ∀ p ∈ pieces, IsPiece text p) {index : Nat}
    (hindex : index < Text.size (pieces.flatMap Prod.snd)) :
    ∃ offset, pieceOffset? pieces index = some offset ∧
      text.bytes[offset]? = (Text.bytes (pieces.flatMap Prod.snd))[index]? ∧
      ∃ p ∈ pieces, p.1.start ≤ offset ∧ offset < p.1.stop := by
  induction pieces generalizing index with
  | nil => exact absurd hindex (Nat.not_lt_zero _)
  | cons piece pieces ih =>
    obtain ⟨span, part⟩ := piece
    obtain ⟨⟨hholds, hstop⟩, hpieces⟩ := List.forall_mem_cons.mp h
    rw [size_flatMap_cons] at hindex
    rw [bytes_flatMap_cons, pieceOffset?]
    by_cases hinside : index < part.size
    · have hlength : index < part.bytes.length := by rwa [length_bytes]
      rw [if_pos hinside, List.getElem?_append_left hlength]
      refine ⟨span.start + index, rfl, hholds.getElem?_bytes hinside, _, List.mem_cons_self, ?_, ?_⟩
      · exact Nat.le_add_right _ _
      · show span.start + index < span.stop
        have hsize : span.start + part.size = span.stop := hstop
        omega
    · have hlater : index - part.size < Text.size (pieces.flatMap Prod.snd) := by omega
      obtain ⟨offset, hoffset, hbyte, p, hp, hbounds⟩ := ih hpieces hlater
      rw [if_neg hinside, hoffset, List.getElem?_append_right (by rw [length_bytes]; omega), length_bytes]
      exact ⟨offset, rfl, hbyte, p, List.mem_cons_of_mem _ hp, hbounds⟩

theorem pieceOffset?_lt (h : ∀ p ∈ pieces, IsPiece text p)
    (hordered : pieces.Pairwise fun p q => p.1.stop ≤ q.1.start) {i j a b : Nat} (hij : i < j)
    (hj : j < Text.size (pieces.flatMap Prod.snd)) (ha : pieceOffset? pieces i = some a)
    (hb : pieceOffset? pieces j = some b) : a < b := by
  induction pieces generalizing i j with
  | nil => exact absurd hj (Nat.not_lt_zero _)
  | cons piece pieces ih =>
    obtain ⟨span, part⟩ := piece
    obtain ⟨⟨-, hstop⟩, hpieces⟩ := List.forall_mem_cons.mp h
    obtain ⟨hfirst, hordered⟩ := List.pairwise_cons.mp hordered
    have hsize : span.start + part.size = span.stop := hstop
    rw [size_flatMap_cons] at hj
    rw [pieceOffset?] at ha hb
    by_cases hjinside : j < part.size
    · rw [if_pos hjinside] at hb
      rw [if_pos (by omega)] at ha
      cases ha
      cases hb
      omega
    · have hlater : j - part.size < Text.size (pieces.flatMap Prod.snd) := by omega
      obtain ⟨offset, hoffset, -, p, hp, hstart, -⟩ := exists_pieceOffset? hpieces hlater
      rw [if_neg hjinside, hoffset] at hb
      cases hb
      by_cases hiinside : i < part.size
      · -- the second offset is in a later piece
        rw [if_pos hiinside] at ha
        cases ha
        have hle : span.stop ≤ p.1.start := hfirst p hp
        omega
      · have hbefore : i - part.size < Text.size (pieces.flatMap Prod.snd) := by omega
        obtain ⟨offset', hoffset', -⟩ := exists_pieceOffset? hpieces hbefore
        rw [if_neg hiinside, hoffset'] at ha
        cases ha
        exact ih hpieces hordered (by omega) hlater hoffset' hoffset

/-- Every byte of a piece is a byte of the joined pieces. -/
theorem exists_index_of_mem (h : ∀ p ∈ pieces, IsPiece text p) {p : Span × Text} (hp : p ∈ pieces) {offset : Nat}
    (hstart : p.1.start ≤ offset) (hstop : offset < p.1.stop) :
    ∃ index < Text.size (pieces.flatMap Prod.snd), pieceOffset? pieces index = some offset := by
  induction pieces with
  | nil => exact absurd hp List.not_mem_nil
  | cons piece pieces ih =>
    obtain ⟨span, part⟩ := piece
    obtain ⟨⟨-, hsize⟩, hpieces⟩ := List.forall_mem_cons.mp h
    rw [size_flatMap_cons]
    rcases List.mem_cons.mp hp with rfl | hp
    · have hsize' : span.start + part.size = span.stop := hsize
      have hinside : offset - span.start < part.size := by
        simp only at hstart hstop
        omega
      refine ⟨offset - span.start, by omega, ?_⟩
      rw [pieceOffset?, if_pos hinside, Nat.add_sub_cancel' hstart]
    · obtain ⟨index, hindex, hoffset⟩ := ih hpieces hp
      refine ⟨part.size + index, by omega, ?_⟩
      rw [pieceOffset?, if_neg (by omega), Nat.add_sub_cancel_left, hoffset]
      rfl

theorem pieceOffset?_of_size_le {index : Nat} (h : Text.size (pieces.flatMap Prod.snd) ≤ index) :
    pieceOffset? pieces index = pieces.getLast?.map fun p => p.1.stop := by
  induction pieces generalizing index with
  | nil => rfl
  | cons piece pieces ih =>
    obtain ⟨span, part⟩ := piece
    rw [size_flatMap_cons] at h
    rw [pieceOffset?, if_neg (by omega), ih (by omega)]
    cases pieces with
    | nil => rfl
    | cons next pieces =>
      rw [List.getLast?_cons_cons, List.getLast?_cons]
      rfl

end Pieces

end Document

/-! ## 3. Text nodes of a tree -/

namespace Tree

/-- The text nodes of a tree from left to right, without those inside elements of the excluded name. -/
def shown (excluded : Text) : Tree → List (NodeId × SourceId × Span)
  | .text id source span => [(id, source, span)]
  | .element _ e children => if e.name = excluded then [] else shownAll excluded children
where
  shownAll (excluded : Text) : List Tree → List (NodeId × SourceId × Span)
    | [] => []
    | t :: ts => shown excluded t ++ shownAll excluded ts

theorem shownAll_eq_flatMap (excluded : Text) (ts : List Tree) :
    shown.shownAll excluded ts = ts.flatMap (shown excluded) := by
  induction ts with
  | nil => rfl
  | cons t ts ih => rw [shown.shownAll, ih, List.flatMap_cons]

mutual

theorem map_snd_shown (excluded : Text) : ∀ t : Tree, (t.shown excluded).map Prod.snd = t.texts (some excluded)
  | .text .. => rfl
  | .element _ e children => by
    rw [shown, texts]
    by_cases hname : e.name = excluded
    · rw [if_pos hname, if_pos (congrArg some hname.symm)]
      rfl
    · rw [if_neg hname, if_neg fun heq => hname (Option.some.inj heq).symm]
      exact map_snd_shownAll excluded children

theorem map_snd_shownAll (excluded : Text) : ∀ ts : List Tree,
    (shown.shownAll excluded ts).map Prod.snd = texts.textsAll (some excluded) ts
  | [] => rfl
  | t :: ts => by
    rw [shown.shownAll, texts.textsAll, List.map_append, map_snd_shown excluded t, map_snd_shownAll excluded ts]

end

mutual

theorem map_fst_shown_sublist (excluded : Text) : ∀ t : Tree, ((t.shown excluded).map Prod.fst).Sublist t.ids
  | .text .. => .refl _
  | .element id e children => by
    rw [shown, ids]
    split
    · exact List.nil_sublist _
    · exact (map_fst_shownAll_sublist excluded children).cons id

theorem map_fst_shownAll_sublist (excluded : Text) : ∀ ts : List Tree,
    ((shown.shownAll excluded ts).map Prod.fst).Sublist (ids.idsAll ts)
  | [] => .refl _
  | t :: ts => by
    rw [shown.shownAll, ids.idsAll, List.map_append]
    exact (map_fst_shown_sublist excluded t).append (map_fst_shownAll_sublist excluded ts)

end

/-- A text node as a piece of its source. -/
def textPiece (x : NodeId × SourceId × Span) : Piece := ⟨x.2.1, x.2.2, none⟩

mutual

theorem map_textPiece_shown_sublist (excluded : Text) : ∀ t : Tree,
    ((t.shown excluded).map textPiece).Sublist t.pieces
  | .text .. => .refl _
  | .element id e children => by
    rw [shown, pieces]
    split
    · exact List.nil_sublist _
    · exact ((map_textPiece_shownAll_sublist excluded children).trans (List.sublist_append_left _ _)).cons _

theorem map_textPiece_shownAll_sublist (excluded : Text) : ∀ ts : List Tree,
    ((shown.shownAll excluded ts).map textPiece).Sublist (pieces.piecesAll ts)
  | [] => .refl _
  | t :: ts => by
    rw [shown.shownAll, pieces.piecesAll, List.map_append]
    exact (map_textPiece_shown_sublist excluded t).append (map_textPiece_shownAll_sublist excluded ts)

end

end Tree

/-- A text node below `id`, or `id` itself, that is not inside an element of the excluded name. Elements around
`id` do not count. -/
structure Document.IsTextWithin (doc : Document) (id : NodeId) (excluded : Text) (x : NodeId) (source : SourceId)
    (span : Span) : Prop where
  node : ∃ parent, doc.node? x = some ⟨parent, .text source span⟩
  below : id ∈ x :: doc.ancestors x
  outside : ∀ y ∈ doc.ancestors x, id ∈ y :: doc.ancestors y → doc.isNamed y excluded = false

namespace Tree

variable {doc : Document} {parent : Option NodeId} {t : Tree}

theorem isNamed_eq_false_iff {id : NodeId} {e : Element} (he : doc.element? id = some e) (name : Text) :
    doc.isNamed id name = false ↔ e.name ≠ name := by
  rw [Document.isNamed, Document.name?, he]
  simp

theorem not_mem_of_mem_ancestors (hdoc : doc.IsTree) {id y : Nat} (hy : y ∈ doc.ancestors id) :
    id ∉ y :: doc.ancestors y := by
  have hlt := hdoc.lt_of_mem_ancestors hy
  intro hid
  rcases List.mem_cons.mp hid with rfl | hid
  · omega
  · have := hdoc.lt_of_mem_ancestors hid
    omega

/-- What is below a child is below its parent, and what is between is the same but for the parent. -/
theorem isTextWithin_child_iff (hdoc : doc.IsTree) {id child x : Nat} {e : Element} {excluded : Text}
    {source : SourceId} {span : Span} (he : doc.element? id = some e) (hchild : doc.parent? child = some id)
    (hx : child ∈ x :: doc.ancestors x) :
    doc.IsTextWithin id excluded x source span ↔
      e.name ≠ excluded ∧ doc.IsTextWithin child excluded x source span := by
  have habove : id ∈ doc.ancestors x := hdoc.parent_mem_ancestors hx hchild
  constructor
  · intro h
    have hid : id ∈ id :: doc.ancestors id := List.mem_cons_self
    refine ⟨(isNamed_eq_false_iff he excluded).mp (h.outside id habove hid), h.node, hx, fun y hy hbelow => ?_⟩
    exact h.outside y hy (List.mem_cons_of_mem _ (hdoc.parent_mem_ancestors hbelow hchild))
  · rintro ⟨hname, h⟩
    refine ⟨h.node, List.mem_cons_of_mem _ habove, fun y hy hbelow => ?_⟩
    -- a node around `x` that has `id` around it is `id`, or has the child around it
    rcases hdoc.chain (List.mem_cons_of_mem _ hy) hx with rfl | hy' | hy'
    · exact h.outside y hy List.mem_cons_self
    · rw [hdoc.ancestors_eq hchild] at hy'
      rcases List.mem_cons.mp hy' with rfl | hy'
      · exact (isNamed_eq_false_iff he excluded).mpr hname
      · exact absurd hbelow (not_mem_of_mem_ancestors hdoc hy')
    · exact h.outside y hy (List.mem_cons_of_mem _ hy')

theorem Depicts.mem_shown_iff (h : t.Depicts doc parent) (hdoc : doc.IsTree) {excluded : Text} {x : NodeId}
    {source : SourceId} {span : Span} :
    (x, source, span) ∈ t.shown excluded ↔ x ∈ t.ids ∧ doc.IsTextWithin t.id excluded x source span := by
  induction h with
  | @text parent id source' span' hnode =>
    rw [shown, ids, List.mem_singleton, List.mem_singleton]
    constructor
    · rintro ⟨⟩
      refine ⟨rfl, ⟨parent, hnode⟩, List.mem_cons_self, fun y hy hbelow => ?_⟩
      exact absurd hbelow (not_mem_of_mem_ancestors hdoc hy)
    · rintro ⟨rfl, ⟨parent', hnode'⟩, -, -⟩
      rw [hnode] at hnode'
      cases hnode'
      rfl
  | @element parent id e children hnode hids hchildren ih =>
    have he := Document.element?_eq_some_of_node? hnode
    rw [shown, ids, shownAll_eq_flatMap, idsAll_eq_flatMap]
    constructor
    · intro hmem
      split at hmem
      · exact absurd hmem List.not_mem_nil
      · rename_i hname
        obtain ⟨child, hchild, hmem⟩ := List.mem_flatMap.mp hmem
        obtain ⟨hx, hwithin⟩ := (ih child hchild).mp hmem
        have hdepicts := hchildren child hchild
        refine ⟨List.mem_cons_of_mem _ (List.mem_flatMap.mpr ⟨child, hchild, hx⟩), ?_⟩
        exact (isTextWithin_child_iff hdoc he hdepicts.parent?_eq (hdepicts.mem_around hdoc hx)).mpr ⟨hname, hwithin⟩
    · rintro ⟨hx, hwithin⟩
      rcases List.mem_cons.mp hx with rfl | hx
      · obtain ⟨parent', hnode'⟩ := hwithin.node
        rw [hnode] at hnode'
        cases hnode'
      · obtain ⟨child, hchild, hx⟩ := List.mem_flatMap.mp hx
        have hdepicts := hchildren child hchild
        obtain ⟨hname, hwithin⟩ :=
          (isTextWithin_child_iff hdoc he hdepicts.parent?_eq (hdepicts.mem_around hdoc hx)).mp hwithin
        rw [if_neg hname]
        exact List.mem_flatMap.mpr ⟨child, hchild, (ih child hchild).mpr ⟨hx, hwithin⟩⟩

theorem mem_around_trans (hdoc : doc.IsTree) {a b x : Nat} (hab : a ∈ b :: doc.ancestors b)
    (hbx : b ∈ x :: doc.ancestors x) : a ∈ x :: doc.ancestors x := by
  rcases List.mem_cons.mp hbx with rfl | hbx
  · exact hab
  · rcases List.mem_cons.mp hab with rfl | hab
    · exact List.mem_cons_of_mem _ hbx
    · exact List.mem_cons_of_mem _ (hdoc.ancestors_subset hbx hab)

theorem piecesAll_eq_flatMap (ts : List Tree) : pieces.piecesAll ts = ts.flatMap pieces := by
  induction ts with
  | nil => rfl
  | cons t ts ih => rw [pieces.piecesAll, ih, List.flatMap_cons]

theorem sublist_flatMap_of_mem {α β : Type} {f : α → List β} {l : List α} {a : α} (h : a ∈ l) :
    (f a).Sublist (l.flatMap f) := by
  rw [List.flatMap_def]
  exact List.sublist_flatten_of_mem (List.mem_map_of_mem h)

/-- The tree below a node of a tree: its nodes and pieces keep their order, and it has all that is below. -/
theorem Depicts.exists_subtree (h : t.Depicts doc parent) (hdoc : doc.IsTree) {id : Nat} (hid : id ∈ t.ids) :
    ∃ (sub : Tree) (above : Option NodeId), sub.Depicts doc above ∧ sub.id = id ∧ sub.ids.Sublist t.ids ∧
      sub.pieces.Sublist t.pieces ∧ ∀ x ∈ t.ids, id ∈ x :: doc.ancestors x → x ∈ sub.ids := by
  induction h with
  | @text parent root source span hnode =>
    have hroot : id = root := List.mem_singleton.mp hid
    exact ⟨_, parent, .text hnode, hroot.symm, .refl _, .refl _, fun x hx _ => hx⟩
  | @element parent root e children hnode hids hchildren ih =>
    rcases List.mem_cons.mp hid with rfl | hbelow
    · exact ⟨_, parent, .element hnode hids hchildren, rfl, .refl _, .refl _, fun x hx _ => hx⟩
    · have habove := (Depicts.element hnode hids hchildren).mem_ancestors hdoc hbelow
      rw [idsAll_eq_flatMap] at hbelow
      obtain ⟨child, hchild, hbelow⟩ := List.mem_flatMap.mp hbelow
      have hdepicts := hchildren child hchild
      obtain ⟨sub, above, hsub, hsubid, hsubids, hpieces, hall⟩ := ih child hchild hbelow
      refine ⟨sub, above, hsub, hsubid, ?_, ?_, fun x hx hidx => ?_⟩
      · rw [ids, idsAll_eq_flatMap]
        exact (hsubids.trans (sublist_flatMap_of_mem hchild)).cons root
      · rw [pieces, piecesAll_eq_flatMap]
        exact ((hpieces.trans (sublist_flatMap_of_mem hchild)).trans (List.sublist_append_left _ _)).cons _
      · rw [ids, idsAll_eq_flatMap] at hx
        rcases List.mem_cons.mp hx with rfl | hx
        · exact absurd hidx (not_mem_of_mem_ancestors hdoc habove)
        · -- the child that has `x` is on the way up from `x`, as is the one that has `id`
          obtain ⟨other, hother, hx⟩ := List.mem_flatMap.mp hx
          have hotherx := (hchildren other hother).mem_around hdoc hx
          have hchildx := mem_around_trans hdoc (hdepicts.mem_around hdoc hbelow) hidx
          have hsame := hdoc.eq_of_parent?_eq hotherx hchildx (hchildren other hother).parent?_eq hdepicts.parent?_eq
          rw [(hchildren other hother).eq_of_id_eq hdepicts hsame] at hx
          exact hall x hx hidx

end Tree

/-! ## 4. The text below a node -/

namespace Document

variable {doc : Document}

theorem exists_mapM_texts {f g : NodeId → Option Tree} {excluded : Option Text}
    (hfg : ∀ id t, f id = some t → ∃ u, g id = some u ∧ u.texts excluded = t.texts excluded)
    {children : List NodeId} {ts : List Tree} (h : children.mapM f = some ts) :
    ∃ us, children.mapM g = some us ∧ Tree.texts.textsAll excluded us = Tree.texts.textsAll excluded ts := by
  induction children generalizing ts with
  | nil =>
    cases h
    exact ⟨[], rfl, rfl⟩
  | cons id children ih =>
    simp only [List.mapM_cons, Option.bind_eq_bind, Option.bind_eq_some_iff] at h
    obtain ⟨t, ht, ts, hts, heq⟩ := h
    cases heq
    obtain ⟨u, hu, htexts⟩ := hfg id t ht
    obtain ⟨us, hus, hall⟩ := ih hts
    refine ⟨u :: us, ?_, ?_⟩
    · rw [List.mapM_cons, hu, hus]
      rfl
    · rw [Tree.texts.textsAll, Tree.texts.textsAll, htexts, hall]

/-- Leaving out what stands below elements of the excluded name leaves out none of the text that counts. -/
theorem exists_treeOfDepth? {excluded : Text} {depth : Nat} {id : NodeId} {t : Tree}
    (h : doc.treeOfDepth? none depth id = some t) :
    ∃ u, doc.treeOfDepth? (some excluded) depth id = some u ∧ u.texts (some excluded) = t.texts (some excluded) := by
  induction depth generalizing id t with
  | zero => cases h
  | succ depth ih =>
    rw [treeOfDepth?] at h ⊢
    split at h
    · cases h
    · cases h
      exact ⟨_, rfl, rfl⟩
    · rename_i parent e hnode
      rw [if_neg (by simp)] at h
      obtain ⟨children, hmap, rfl⟩ := Option.map_eq_some_iff.mp h
      by_cases hname : some excluded = some e.name
      · refine ⟨.element id e [], if_pos hname, ?_⟩
        rw [Tree.texts, Tree.texts, if_pos hname, if_pos hname]
      · obtain ⟨us, hus, htexts⟩ := exists_mapM_texts (fun child t ht => ih ht) hmap
        refine ⟨.element id e us, ?_, ?_⟩
        · simp only [if_neg hname, hus, Option.map_some]
        · rw [Tree.texts, Tree.texts, if_neg hname, if_neg hname, htexts]

theorem map_fst_textPieces {t : Tree} {excluded : Option Text} {pieces : List (Span × Text)}
    (h : doc.textPieces t excluded = .ok pieces) : pieces.map Prod.fst = (t.texts excluded).map Prod.snd := by
  unfold textPieces at h
  generalize t.texts excluded = texts at h
  induction texts generalizing pieces with
  | nil =>
    cases h
    rfl
  | cons x texts ih =>
    rw [List.mapM_cons] at h
    obtain ⟨piece, hpiece, h⟩ := bind_eq_ok_iff.mp h
    obtain ⟨others, hothers, h⟩ := bind_eq_ok_iff.mp h
    obtain ⟨part, -, hpart⟩ := bind_eq_ok_iff.mp hpiece
    cases hpart
    cases h
    rw [List.map_cons, List.map_cons, ih hothers]

/-- The text below a node and positions in it are told from the same pieces, one for each text node of a tree. -/
theorem Sound.exists_textPieces {text : Text} {pos : Nat} (hdoc : doc.Sound text pos) {id : NodeId} {excluded : Text}
    {t : Tree} (ht : doc.treeOfDepth? none doc.count id = some t) :
    ∃ pieces : List (Span × Text), (∀ p ∈ pieces, IsPiece text p) ∧
      pieces.map Prod.fst = (t.shown excluded).map (fun x => x.2.2) ∧
      doc.textExcluding id excluded = .ok (pieces.flatMap Prod.snd) ∧
      ∀ index, doc.textOffset? id excluded index = .ok (pieceOffset? pieces index) := by
  obtain ⟨u, hu, htexts⟩ := @exists_treeOfDepth? doc excluded doc.count id t ht
  have htree : doc.treeWithout (some excluded) id = .ok u := by rw [treeWithout, hu]
  obtain ⟨pieces, hpieces, hall⟩ :=
    (hdoc.yields_textPieces (shows_of_treeOfDepth? hu).2 (some excluded)).eq_ok
  refine ⟨pieces, hall, ?_, textExcluding_eq htree hpieces, textOffset?_eq htree hpieces⟩
  rw [map_fst_textPieces hpieces, htexts, ← Tree.map_snd_shown, List.map_map]
  rfl

theorem treeOfDepth?_of_tree {id : NodeId} {t : Tree} (h : doc.tree id = .ok t) :
    doc.treeOfDepth? none doc.count id = some t := by
  rw [tree, treeWithout] at h
  split at h
  · rename_i u hu
    cases h
    exact hu
  · cases h

/-- Where the text below a node ends: behind the last text node that counts. -/
def IsLastStop (doc : Document) (id : NodeId) (excluded : Text) : Option Nat → Prop
  | none => ∀ x source span, ¬ doc.IsTextWithin id excluded x source span
  | some stop => ∃ x source span, doc.IsTextWithin id excluded x source span ∧ span.stop = stop ∧
      ∀ y source' span', doc.IsTextWithin id excluded y source' span' → y = x ∨ y < x ∧ span'.stop ≤ span.start

/-- The bytes of `content`, which is the text below a node, are found in `text` at the offsets. -/
structure IsFoundAt (doc : Document) (text : Text) (id : NodeId) (excluded content : Text) (offset : Nat → Nat) :
    Prop where
  found : ∀ index < content.size, doc.textOffset? id excluded index = .ok (some (offset index))
  byte : ∀ index < content.size, ∃ b, content.bytes[index]? = some b ∧ text.bytes[offset index]? = some b
  increasing : ∀ i j, i < j → j < content.size → offset i < offset j
  covers : ∀ o, (∃ index < content.size, offset index = o) ↔
    ∃ x source span, doc.IsTextWithin id excluded x source span ∧ span.start ≤ o ∧ o < span.stop
  past : ∀ index, content.size ≤ index →
    ∃ stop, doc.textOffset? id excluded index = .ok stop ∧ doc.IsLastStop id excluded stop

section Shown

variable {id : NodeId} {excluded : Text} {shown : List (NodeId × SourceId × Span)}

theorem isLastStop_getLast? (hshown : ∀ x source span, (x, source, span) ∈ shown ↔
      doc.IsTextWithin id excluded x source span)
    (hordered : shown.Pairwise fun a b => a.1 < b.1 ∧ a.2.2.stop ≤ b.2.2.start) :
    doc.IsLastStop id excluded (shown.getLast?.map fun x => x.2.2.stop) := by
  rcases List.eq_nil_or_concat shown with rfl | ⟨before, last, rfl⟩
  · intro x source span hwithin
    exact absurd ((hshown x source span).mpr hwithin) List.not_mem_nil
  · obtain ⟨x, source, span⟩ := last
    rw [List.concat_eq_append] at hshown hordered ⊢
    rw [List.getLast?_concat]
    refine ⟨x, source, span, (hshown x source span).mp (List.mem_append_right _ List.mem_cons_self), rfl, ?_⟩
    intro y source' span' hwithin
    rcases List.mem_append.mp ((hshown y source' span').mpr hwithin) with hbefore | hlast
    · exact .inr ((List.pairwise_append.mp hordered).2.2 _ hbefore _ List.mem_cons_self)
    · cases List.mem_singleton.mp hlast
      exact .inl rfl

/-- The pieces stand where the text nodes do. -/
theorem exists_piece_iff {pieces : List (Span × Text)}
    (hshown : ∀ x source span, (x, source, span) ∈ shown ↔ doc.IsTextWithin id excluded x source span)
    (hspans : pieces.map Prod.fst = shown.map fun x => x.2.2) (span : Span) :
    (∃ p ∈ pieces, p.1 = span) ↔ ∃ x source, doc.IsTextWithin id excluded x source span := by
  rw [← List.mem_map, hspans, List.mem_map]
  constructor
  · rintro ⟨⟨x, source, _⟩, hx, rfl⟩
    exact ⟨x, source, (hshown x source _).mp hx⟩
  · rintro ⟨x, source, hwithin⟩
    exact ⟨(x, source, span), (hshown x source span).mpr hwithin, rfl⟩

theorem isFoundAt_of_pieces {text : Text} {pieces : List (Span × Text)}
    (hshown : ∀ x source span, (x, source, span) ∈ shown ↔ doc.IsTextWithin id excluded x source span)
    (hordered : shown.Pairwise fun a b => a.1 < b.1 ∧ a.2.2.stop ≤ b.2.2.start)
    (hpieces : ∀ p ∈ pieces, IsPiece text p) (hspans : pieces.map Prod.fst = shown.map fun x => x.2.2)
    (hoffset : ∀ index, doc.textOffset? id excluded index = .ok (pieceOffset? pieces index)) :
    doc.IsFoundAt text id excluded (pieces.flatMap Prod.snd) fun index => (pieceOffset? pieces index).getD 0 := by
  have hplaces : pieces.Pairwise fun p q => p.1.stop ≤ q.1.start := by
    have hshownPlaces : (shown.map fun x => x.2.2).Pairwise fun a b => a.stop ≤ b.start :=
      List.pairwise_map.mpr (hordered.imp fun h => h.2)
    rw [← hspans] at hshownPlaces
    exact List.pairwise_map.mp hshownPlaces
  refine ⟨fun index hindex => ?_, fun index hindex => ?_, fun i j hij hj => ?_, fun o => ⟨?_, ?_⟩, fun index hindex => ?_⟩
  · obtain ⟨offset, hfound, -⟩ := exists_pieceOffset? hpieces hindex
    rw [hoffset, hfound]
    rfl
  · obtain ⟨offset, hfound, hbyte, -⟩ := exists_pieceOffset? hpieces hindex
    have hlength : index < (Text.bytes (pieces.flatMap Prod.snd)).length := by rwa [length_bytes]
    rw [hfound, Option.getD_some, hbyte]
    exact ⟨_, List.getElem?_eq_getElem hlength, List.getElem?_eq_getElem hlength⟩
  · obtain ⟨a, ha, -⟩ := exists_pieceOffset? hpieces (Nat.lt_trans hij hj)
    obtain ⟨b, hb, -⟩ := exists_pieceOffset? hpieces hj
    rw [ha, hb]
    exact pieceOffset?_lt hpieces hplaces hij hj ha hb
  · rintro ⟨index, hindex, rfl⟩
    obtain ⟨offset, hfound, -, p, hp, hbounds⟩ := exists_pieceOffset? hpieces hindex
    obtain ⟨x, source, hwithin⟩ := (exists_piece_iff hshown hspans p.1).mp ⟨p, hp, rfl⟩
    rw [hfound]
    exact ⟨x, source, p.1, hwithin, hbounds⟩
  · rintro ⟨x, source, span, hwithin, hstart, hstop⟩
    obtain ⟨p, hp, rfl⟩ := (exists_piece_iff hshown hspans span).mpr ⟨x, source, hwithin⟩
    obtain ⟨index, hindex, hfound⟩ := exists_index_of_mem hpieces hp hstart hstop
    exact ⟨index, hindex, by rw [hfound]; rfl⟩
  · refine ⟨shown.getLast?.map fun x => x.2.2.stop, ?_, isLastStop_getLast? hshown hordered⟩
    have hlast : (pieces.getLast?.map fun p => p.1.stop) = shown.getLast?.map fun x => x.2.2.stop := by
      have hspan := congrArg (fun spans => spans.getLast?.map Span.stop) hspans
      simp only [List.getLast?_map, Option.map_map] at hspan
      exact hspan
    rw [hoffset, pieceOffset?_of_size_le hindex, hlast]

end Shown

end Document

namespace Markup

theorem areOrdered_pieces_read (filename : Path) (text : Text) {t : Tree}
    (ht : (read filename text).tree Document.root = .ok t) : AreOrdered text 0 text.size t.pieces := by
  have hstart : (Cursor.atStart text 0).At text := ⟨[], rfl, rfl⟩
  obtain ⟨s, hviews, hshows⟩ :=
    (Spine.views_start text).addTokens (Spine.shows_start filename text) hstart
  obtain ⟨hid, hdepicts⟩ := (isTree_read filename text).depicts_tree ht
  rw [hdepicts.eq_of_id_eq hshows.depicts (hid.trans (Spine.id_plug hshows.entries).symm)]
  exact hviews.view.pieces

/-- The text nodes below a node of a document that was read, in the order of their numbers and of their places. -/
theorem exists_shown_read (filename : Path) (text : Text) {id : Nat} (hid : id < (read filename text).count)
    (excluded : Text) :
    ∃ t, (read filename text).treeOfDepth? none (read filename text).count id = some t ∧
      (t.shown excluded).Pairwise (fun a b => a.1 < b.1 ∧ a.2.2.stop ≤ b.2.2.start) ∧
      ∀ x source span, (x, source, span) ∈ t.shown excluded ↔
        (read filename text).IsTextWithin id excluded x source span := by
  have hdoc := isTree_read filename text
  obtain ⟨pos, hsound⟩ := sound_read filename text
  obtain ⟨whole, hwhole, -⟩ := (hsound.yields_treeWithout none hsound.nonempty).eq_ok
  have hids := Spine.ids_tree_read filename text hwhole
  have hpieces := areOrdered_pieces_read filename text hwhole
  -- every node is in the tree of the root, so the tree below `id` is a part of it
  have hmem : ∀ {x : Nat}, x < (read filename text).count → x ∈ whole.ids := by
    intro x hx
    rw [hids]
    exact List.mem_range.mpr hx
  obtain ⟨t, above, ht, rfl, htids, htpieces, hall⟩ :=
    (hdoc.depicts_tree hwhole).2.exists_subtree hdoc (hmem hid)
  refine ⟨t, Document.treeOfDepth?_of_tree (ht.tree_eq hdoc), ?_, fun x source span => ?_⟩
  · have hnumbers : (t.shown excluded).Pairwise fun a b => a.1 < b.1 := by
      have hsublist := (Tree.map_fst_shown_sublist excluded t).trans htids
      rw [hids] at hsublist
      exact List.pairwise_map.mp (List.pairwise_lt_range.sublist hsublist)
    have hplaces : (t.shown excluded).Pairwise fun a b => a.2.2.stop ≤ b.2.2.start := by
      have hsublist := (Tree.map_textPiece_shown_sublist excluded t).trans htpieces
      exact List.pairwise_map.mp (hpieces.pairwise.sublist hsublist)
    exact hnumbers.and hplaces
  · rw [ht.mem_shown_iff hdoc]
    refine ⟨fun h => h.2, fun h => ⟨?_, h⟩⟩
    obtain ⟨parent, hnode⟩ := h.node
    exact hall x (hmem (List.getElem?_eq_some_iff.mp hnode).1) h.below

/-- In a document that was read from a text, the text below a node is found in that text byte by byte, at
increasing offsets, and past its end is the end of the last text node in it. -/
theorem isFoundAt_read (filename : Path) (text : Text) (id : Nat) (excluded : Text)
    (hid : id < (read filename text).count) :
    ∃ content offset, (read filename text).textExcluding id excluded = .ok content ∧
      (read filename text).IsFoundAt text id excluded content offset := by
  obtain ⟨pos, hsound⟩ := sound_read filename text
  obtain ⟨t, ht, hordered, hshown⟩ := exists_shown_read filename text hid excluded
  obtain ⟨pieces, hpieces, hspans, hcontent, hoffset⟩ := @Document.Sound.exists_textPieces _ _ _ hsound _ excluded _ ht
  exact ⟨_, _, hcontent, Document.isFoundAt_of_pieces hshown hordered hpieces hspans hoffset⟩

/-- A header with a deleted part, and a character of two bytes before it. -/
theorem isFoundAt_read_deleted :
    let text : Text := "<div>é<h1>Foo<del>B<i>a</i>r</del> ( _x_ )</h1><p>b</p></div>".toList
    3 < (read [] text).count ∧ (read [] text).textExcluding 3 "del".toList = .ok "Foo ( _x_ )".toList ∧
      (read [] text).textOffset? 3 "del".toList 4 = .ok (some 36) ∧
      ∃ content offset, (read [] text).textExcluding 3 "del".toList = .ok content ∧
        (read [] text).IsFoundAt text 3 "del".toList content offset := by
  intro text
  have hid : 3 < (read [] text).count := by decide +kernel
  exact ⟨hid, by decide +kernel, by decide +kernel, isFoundAt_read [] text 3 "del".toList hid⟩

end Markup

end Errata
