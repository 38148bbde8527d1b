import Errata.Document.Tree
import Errata.Proofs.Except
import Errata.Proofs.Markup.Reader

/-!
# Trees of a document that was read from a text

The tree below a node of such a document is always there, and its text is put together from pieces that
are written in the text where they say. So is the markup between the tags of an element.
-/

namespace Errata

open Text

/-! ## 1. Trees -/

/-- The tree shows the document below a node. -/
inductive Tree.Shows (doc : Document) : Tree → Prop
  | text {id : NodeId} {source : SourceId} {span : Span} {parent : Option NodeId}
      (hnode : doc.node? id = some ⟨parent, .text source span⟩) : Shows doc (.text id source span)
  | element {id : NodeId} {e : Element} {children : List Tree} (helement : doc.element? id = some e)
      (hids : ∀ t ∈ children, t.id ∈ e.children) (hchildren : ∀ t ∈ children, Shows doc t) :
      Shows doc (.element id e children)

namespace Document

variable {doc : Document} {text : Text} {pos : Nat}

theorem mem_of_mapM_eq_some {α β : Type} {f : α → Option β} {l : List α} {bs : List β}
    (h : l.mapM f = some bs) : ∀ b ∈ bs, ∃ a ∈ l, f a = some b := by
  induction l generalizing bs with
  | nil =>
    cases h
    exact List.forall_mem_nil _
  | cons a l ih =>
    simp only [List.mapM_cons, Option.bind_eq_bind, Option.bind_eq_some_iff] at h
    obtain ⟨b, hb, bs', hbs, heq⟩ := h
    cases heq
    rintro b' hb'
    rcases List.mem_cons.mp hb' with rfl | hb'
    · exact ⟨a, List.mem_cons_self, hb⟩
    · obtain ⟨a', ha', hfa⟩ := ih hbs b' hb'
      exact ⟨a', List.mem_cons_of_mem a ha', hfa⟩

theorem isSome_mapM {α β : Type} {f : α → Option β} {l : List α} (h : ∀ a ∈ l, (f a).isSome) :
    (l.mapM f).isSome := by
  induction l with
  | nil => rfl
  | cons a l ih =>
    obtain ⟨b, hb⟩ := Option.isSome_iff_exists.mp (h a List.mem_cons_self)
    obtain ⟨bs, hbs⟩ := Option.isSome_iff_exists.mp (ih fun x hx => h x (List.mem_cons_of_mem a hx))
    rw [List.mapM_cons, hb, hbs]
    rfl

theorem shows_of_treeOfDepth? {excluded : Option Text} {depth : Nat} {id : NodeId} {t : Tree}
    (h : doc.treeOfDepth? excluded depth id = some t) : t.id = id ∧ t.Shows doc := by
  induction depth generalizing id t with
  | zero => cases h
  | succ depth ih =>
    rw [treeOfDepth?] at h
    split at h
    · cases h
    · rename_i parent source span hnode
      cases h
      exact ⟨rfl, .text hnode⟩
    · rename_i parent e hnode
      have helement : doc.element? id = some e := by
        rw [element?, hnode]
        rfl
      split at h
      · cases h
        exact ⟨rfl, .element helement (List.forall_mem_nil _) (List.forall_mem_nil _)⟩
      · obtain ⟨children, hmap, rfl⟩ := Option.map_eq_some_iff.mp h
        have hchildren := mem_of_mapM_eq_some hmap
        refine ⟨rfl, .element helement (fun t ht => ?_) fun t ht => ?_⟩
        · obtain ⟨child, hchild, hdepth⟩ := hchildren t ht
          rw [(ih hdepth).1]
          exact hchild
        · obtain ⟨child, -, hdepth⟩ := hchildren t ht
          exact (ih hdepth).2

/-- Children have higher numbers. -/
def DescendsUpward (doc : Document) : Prop :=
  ∀ (id : Nat) e, doc.element? id = some e → ∀ child : Nat, child ∈ e.children → id < child ∧ child < doc.count

/-- A path down is no longer than the numbers that are left. -/
theorem DescendsUpward.isSome_treeOfDepth? (hdoc : doc.DescendsUpward) (excluded : Option Text)
    {depth id : Nat} (hid : id < doc.count) (hdepth : doc.count ≤ id + depth) :
    (doc.treeOfDepth? excluded depth id).isSome := by
  induction depth generalizing id with
  | zero => omega
  | succ depth ih =>
    rw [treeOfDepth?]
    split
    · rename_i hnone
      exact absurd (List.getElem?_eq_none_iff.mp hnone) (Nat.not_le_of_lt hid)
    · rfl
    · rename_i parent e hnode
      split
      · rfl
      · -- a child's number is higher, so one less step down is left and enough
        rw [Option.isSome_map]
        apply isSome_mapM
        rintro child hchild
        have helement : doc.element? id = some e := by
          rw [element?, hnode]
          rfl
        have := hdoc id e helement child hchild
        exact ih this.2 (by omega)

theorem DescendsUpward.yields_treeWithout (hdoc : doc.DescendsUpward) (excluded : Option Text) {id : Nat}
    (hid : id < doc.count) :
    Yields (fun t => t.id = id ∧ t.Shows doc) (doc.treeWithout excluded id) := by
  obtain ⟨t, ht⟩ := Option.isSome_iff_exists.mp
    (hdoc.isSome_treeOfDepth? excluded hid (Nat.le_add_left doc.count id))
  rw [treeWithout, ht]
  exact shows_of_treeOfDepth? ht

theorem Sound.element (hdoc : doc.Sound text pos) {id : Nat} {e : Element}
    (h : doc.element? id = some e) :
    id < doc.count ∧ e.source = 0 ∧
      (∀ child : Nat, child ∈ e.children → id < child ∧ child < doc.count) ∧
      (id ≠ 0 → e.Sound text pos) := by
  obtain ⟨node, hnode, helement⟩ := Option.bind_eq_some_iff.mp h
  refine ⟨(List.getElem?_eq_some_iff.mp hnode).1, ?_⟩
  have hsound := hdoc.content id node hnode
  unfold Node.element? at helement
  split at helement
  · rename_i e' he'
    cases helement
    rw [he'] at hsound
    exact hsound
  · cases helement

theorem Sound.descendsUpward (hdoc : doc.Sound text pos) : doc.DescendsUpward :=
  fun _ _ he => (hdoc.element he).2.2.1

theorem Sound.yields_treeWithout (hdoc : doc.Sound text pos) (excluded : Option Text) {id : Nat}
    (hid : id < doc.count) :
    Yields (fun t => t.id = id ∧ t.Shows doc) (doc.treeWithout excluded id) :=
  hdoc.descendsUpward.yields_treeWithout excluded hid

/-! ## 2. Text -/

/-- The piece is written at the span in the text. -/
def IsPiece (text : Text) (piece : Span × Text) : Prop :=
  text.Holds piece.1.start piece.2 ∧ piece.1.start + piece.2.size = piece.1.stop

theorem mem_textsAll {excluded : Option Text} {ts : List Tree} {x : SourceId × Span} :
    x ∈ Tree.texts.textsAll excluded ts ↔ ∃ t ∈ ts, x ∈ t.texts excluded := by
  induction ts with
  | nil => simp [Tree.texts.textsAll]
  | cons t ts ih => simp [Tree.texts.textsAll, ih]

/-- The text of a tree is that of text nodes of the document. -/
theorem exists_node?_of_mem_texts {t : Tree} (ht : t.Shows doc) {excluded : Option Text}
    {source : SourceId} {span : Span} (h : (source, span) ∈ t.texts excluded) :
    ∃ (id : NodeId) (parent : Option NodeId), doc.node? id = some ⟨parent, .text source span⟩ := by
  induction ht with
  | @text id source' span' parent hnode =>
    rw [Tree.texts, List.mem_singleton] at h
    cases h
    exact ⟨id, parent, hnode⟩
  | @element id e children _ _ _ ih =>
    rw [Tree.texts] at h
    split at h
    · exact absurd h List.not_mem_nil
    · obtain ⟨t, ht, hmem⟩ := mem_textsAll.mp h
      exact ih t ht hmem

theorem Sound.texts (hdoc : doc.Sound text pos) {t : Tree} (ht : t.Shows doc)
    {excluded : Option Text} {source : SourceId} {span : Span}
    (h : (source, span) ∈ t.texts excluded) :
    source = 0 ∧ ∃ piece, IsPiece text (span, piece) := by
  obtain ⟨id, parent, hnode⟩ := exists_node?_of_mem_texts ht h
  exact hdoc.content id _ hnode

theorem Sound.sourceText (hdoc : doc.Sound text pos) : doc.sourceText 0 = .ok text := by
  obtain ⟨filename, hsources⟩ := hdoc.source
  rw [Document.sourceText, hsources]
  rfl

theorem slice_of_isPiece {source : SourceId} {file : Source} (hfile : doc.sources[source]? = some file)
    {span : Span} {piece : Text} (h : IsPiece file.text (span, piece)) :
    doc.slice source span = .ok piece := by
  have hslice : file.text.slice? span.start span.stop = some piece := by
    have hstop : span.start + piece.size = span.stop := h.2
    rw [← hstop]
    exact slice?_of_holds h.1
  rw [Document.slice, Document.sourceText, hfile]
  dsimp only [bind, Except.bind]
  rw [hslice]

theorem Sound.slice (hdoc : doc.Sound text pos) {span : Span} {piece : Text}
    (h : IsPiece text (span, piece)) : doc.slice 0 span = .ok piece := by
  obtain ⟨filename, hsources⟩ := hdoc.source
  have hfile : doc.sources[0]? = some ⟨filename, text⟩ := by
    rw [hsources]
    rfl
  exact slice_of_isPiece hfile h

theorem Sound.yields_textPieces (hdoc : doc.Sound text pos) {t : Tree} (ht : t.Shows doc)
    (excluded : Option Text) :
    Yields (fun pieces => ∀ p ∈ pieces, IsPiece text p) (doc.textPieces t excluded) := by
  apply Ends.mapM
  rintro ⟨source, span⟩ hmem
  obtain ⟨rfl, piece, hpiece⟩ := hdoc.texts ht hmem
  dsimp only
  rw [hdoc.slice hpiece]
  exact hpiece

theorem Sound.yields_textOf (hdoc : doc.Sound text pos) {t : Tree} (ht : t.Shows doc)
    (excluded : Option Text) : Yields (fun _ => True) (doc.textOf t excluded) :=
  (hdoc.yields_textPieces ht excluded).bind fun _ _ => trivial

theorem Sound.yields_textContent (hdoc : doc.Sound text pos) {id : Nat} (hid : id < doc.count) :
    Yields (fun _ => True) (doc.textContent id) :=
  (hdoc.yields_treeWithout none hid).bind fun _ ht => hdoc.yields_textOf ht.2 none

section Excluding

variable {id : NodeId} {excluded : Text} {t : Tree} {pieces : List (Span × Text)}
  (htree : doc.treeWithout (some excluded) id = .ok t) (hpieces : doc.textPieces t (some excluded) = .ok pieces)
include htree hpieces

theorem textExcluding_eq : doc.textExcluding id excluded = .ok (pieces.flatMap Prod.snd) := by
  rw [textExcluding, htree]
  show doc.textPieces t (some excluded) >>= _ = _
  rw [hpieces]
  rfl

theorem textOffset?_eq (index : Nat) : doc.textOffset? id excluded index = .ok (pieceOffset? pieces index) := by
  rw [textOffset?, htree]
  show doc.textPieces t (some excluded) >>= _ = _
  rw [hpieces]
  rfl

end Excluding

/-- Text without elements of some name and positions in it are told from the same pieces. -/
theorem Sound.textExcluding (hdoc : doc.Sound text pos) {id : Nat} (hid : id < doc.count)
    (excluded : Text) :
    ∃ pieces : List (Span × Text), (∀ p ∈ pieces, IsPiece text p) ∧
      doc.textExcluding id excluded = .ok (pieces.flatMap Prod.snd) ∧
      ∀ index, doc.textOffset? id excluded index = .ok (pieceOffset? pieces index) := by
  obtain ⟨t, htree, -, ht⟩ := (hdoc.yields_treeWithout (some excluded) hid).eq_ok
  obtain ⟨pieces, hpieces, hall⟩ := (hdoc.yields_textPieces ht (some excluded)).eq_ok
  exact ⟨pieces, hall, textExcluding_eq htree hpieces, textOffset?_eq htree hpieces⟩

theorem size_flatMap_cons (span : Span) (part : Text) (pieces : List (Span × Text)) :
    Text.size (((span, part) :: pieces).flatMap Prod.snd) = part.size + Text.size (pieces.flatMap Prod.snd) :=
  size_append _ _

/-- A position before the end of the joined pieces is one of the text, with a character after it. -/
theorem isShown_pieceOffset? {pieces : List (Span × Text)} (h : ∀ p ∈ pieces, IsPiece text p)
    {index : Nat} (hindex : Text.IsPosition (pieces.flatMap Prod.snd) index)
    (hlt : index < Text.size (pieces.flatMap Prod.snd)) :
    ∃ offset, pieceOffset? pieces index = some offset ∧ text.IsShown offset := by
  induction pieces generalizing index with
  | nil => simp at hlt
  | cons piece pieces ih =>
    obtain ⟨span, part⟩ := piece
    have hpart := h _ List.mem_cons_self
    have hsplit : Text.IsPosition (part ++ pieces.flatMap Prod.snd) index := hindex
    have hsize := size_flatMap_cons span part pieces
    -- the position is in the first piece or, less the size of that piece, in the others
    rw [pieceOffset?]
    split
    · rename_i hinside
      have hposition := hsplit.of_append.1 (Nat.le_of_lt hinside)
      exact ⟨_, rfl, hpart.1.isShown_of_lt hposition hinside⟩
    · rename_i houtside
      have hnext := hsplit.of_append.2 (Nat.le_of_not_lt houtside)
      obtain ⟨offset, hoffset, hshown⟩ := ih (fun p hp => h p (List.mem_cons_of_mem _ hp)) hnext
        (by omega)
      rw [hoffset]
      exact ⟨offset, rfl, hshown⟩

/-! ## 3. Elements -/

/-- All positions of the markup between the tags of an element are shown: at its end stands the end tag. -/
theorem Sound.yields_inner (hdoc : doc.Sound text pos) {id : Nat} (hid : id ≠ 0) {e : Element}
    (h : doc.element? id = some e) :
    Yields (fun found => ∀ base part, found = some (base, part) → text.ShowsPart base part)
      (doc.inner e) := by
  obtain ⟨-, hsource, -, hsound⟩ := hdoc.element h
  obtain ⟨-, hstop, -, hinner⟩ := hsound hid
  rw [inner, hsource, hdoc.sourceText]
  dsimp only [bind, Except.bind]
  split
  · exact fun _ _ hfound => nomatch hfound
  · rename_i endTag hend
    obtain ⟨hle, hshown⟩ := hinner endTag hend
    obtain ⟨part, hpart, hsize⟩ := holds_of_isPosition hstop hshown.isPosition hle
    rw [← hsize, slice?_of_holds hpart]
    rintro base part' hfound
    cases hfound
    intro p hp
    -- only the end of the part needs the end tag, the other positions have a character after them
    rcases Nat.lt_or_eq_of_le hp.le_size with hlt | rfl
    · exact hpart.isShown_of_lt hp hlt
    · rw [hsize]
      exact hshown

end Document

end Errata
