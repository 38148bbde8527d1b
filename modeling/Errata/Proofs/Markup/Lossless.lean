import Errata.Proofs.Document.Traversal
import Errata.Proofs.Markup.Lexeme
import Errata.Proofs.Markup.Spine

/-!
# Reading loses no text

The tags and text nodes of a document that was read from a text stand in the text one after another, in the
order of the tree. What they leave out are comments, declarations and end tags with nothing to close.
-/

namespace Errata

open Text

/-! ## 1. Views of a text -/

namespace Markup

/-- A part of the text that the tree does not show: a comment, a declaration, or an end tag where no element
of its name is open. -/
inductive IsPassedOver (text : Text) (t : Tree) (span : Span) : Prop
  | comment {piece after : Text} (hcuts : span.Cuts text piece after) (hcomment : IsComment piece after)
  | endTag {name piece after : Text} (hcuts : span.Cuts text piece after) (hend : IsEndTag name piece)
      (hopen : name ∉ Tree.openAt span.start t text.size)

/-- None of the pieces has anything of the span. -/
def IsApart (ps : List Piece) (span : Span) : Prop :=
  ∀ p ∈ ps, p.span.stop ≤ span.start ∨ span.stop ≤ p.span.start

/-- The tree shows the text: its pieces are pieces of the text in increasing order, and whatever no piece has
is passed over. -/
structure IsView (text : Text) (t : Tree) : Prop where
  source : ∀ p ∈ t.pieces, p.source = 0
  bounds : ∀ p ∈ t.pieces, p.span.start ≤ p.span.stop ∧ text.IsPosition p.span.start ∧
    text.IsPosition p.span.stop
  ordered : t.pieces.Pairwise fun p q => p.span.stop ≤ q.span.start
  ends : ∀ p ∈ t.pieces, ∀ name, p.ends = some name →
    ∃ piece after, p.span.Cuts text piece after ∧ BeginsEndTag name piece
  rest : ∀ i < text.size, (∀ p ∈ t.pieces, ¬ (p.span.start ≤ i ∧ i < p.span.stop)) →
    ∃ span : Span, span.start ≤ i ∧ i < span.stop ∧ IsApart t.pieces span ∧ IsPassedOver text t span

/-- A piece of the text between `a` and `b`. -/
structure IsBetween (text : Text) (a b : Nat) (p : Piece) : Prop where
  source : p.source = 0
  start_le : a ≤ p.span.start
  le : p.span.start ≤ p.span.stop
  le_stop : p.span.stop ≤ b
  start : text.IsPosition p.span.start
  stop : text.IsPosition p.span.stop
  ends : ∀ name, p.ends = some name →
    ∃ piece after, p.span.Cuts text piece after ∧ BeginsEndTag name piece

/-- Pieces of the text between `a` and `b` in increasing order. -/
structure AreOrdered (text : Text) (a b : Nat) (ps : List Piece) : Prop where
  isBetween : ∀ p ∈ ps, IsBetween text a b p
  pairwise : ps.Pairwise fun p q => p.span.stop ≤ q.span.start

/-- One of the pieces has the byte. -/
def HasByte (ps : List Piece) (i : Nat) : Prop := ∃ p ∈ ps, p.span.start ≤ i ∧ i < p.span.stop

/-- The pieces are all of the text between `a` and `b`. -/
structure AreAll (text : Text) (a b : Nat) (ps : List Piece) : Prop where
  areOrdered : AreOrdered text a b ps
  hasByte : ∀ i, a ≤ i → i < b → HasByte ps i

section Pieces

variable {text : Text} {a b c : Nat} {ps qs : List Piece}

theorem AreOrdered.append (hp : AreOrdered text a b ps) (hq : AreOrdered text b c qs) (hab : a ≤ b)
    (hbc : b ≤ c) : AreOrdered text a c (ps ++ qs) := by
  refine ⟨List.forall_mem_append.mpr ⟨fun p hmem => ?_, fun q hmem => ?_⟩, ?_⟩
  · have h := hp.isBetween p hmem
    exact { h with le_stop := Nat.le_trans h.le_stop hbc }
  · have h := hq.isBetween q hmem
    exact { h with start_le := Nat.le_trans hab h.start_le }
  · refine List.pairwise_append.mpr ⟨hp.pairwise, hq.pairwise, fun p hmem q hmem' => ?_⟩
    exact Nat.le_trans (hp.isBetween p hmem).le_stop (hq.isBetween q hmem').start_le

theorem AreAll.append (hp : AreAll text a b ps) (hq : AreAll text b c qs) (hab : a ≤ b) (hbc : b ≤ c) :
    AreAll text a c (ps ++ qs) := by
  refine ⟨hp.areOrdered.append hq.areOrdered hab hbc, fun i hle hlt => ?_⟩
  rcases Nat.lt_or_ge i b with hi | hi
  · obtain ⟨p, hmem, hp⟩ := hp.hasByte i hle hi
    exact ⟨p, List.mem_append_left _ hmem, hp⟩
  · obtain ⟨q, hmem, hq⟩ := hq.hasByte i hi hlt
    exact ⟨q, List.mem_append_right _ hmem, hq⟩

theorem areAll_nil (text : Text) (a : Nat) : AreAll text a a [] :=
  ⟨⟨List.forall_mem_nil _, .nil⟩, fun _ hle hlt => absurd hlt (Nat.not_lt.mpr hle)⟩

theorem areAll_of_span (ha : text.IsPosition a) (hb : text.IsPosition b) (hab : a ≤ b) {ends : Option Text}
    (hends : ∀ name, ends = some name →
      ∃ piece after, Span.Cuts ⟨a, b⟩ text piece after ∧ BeginsEndTag name piece) :
    AreAll text a b [⟨0, ⟨a, b⟩, ends⟩] := by
  refine ⟨⟨?_, List.pairwise_singleton _ _⟩, fun i hle hlt => ⟨_, List.mem_cons_self, hle, hlt⟩⟩
  rw [List.forall_mem_singleton]
  exact ⟨rfl, Nat.le_refl _, hab, Nat.le_refl _, ha, hb, hends⟩

theorem areAll_singleton (ha : text.IsPosition a) (hb : text.IsPosition b) (hab : a ≤ b) :
    AreAll text a b [⟨0, ⟨a, b⟩, none⟩] :=
  areAll_of_span ha hb hab fun _ hname => nomatch hname

theorem areAll_endTag (ha : text.IsPosition a) (hb : text.IsPosition b) (hab : a ≤ b)
    {name piece after : Text} (hcuts : Span.Cuts ⟨a, b⟩ text piece after) (hend : BeginsEndTag name piece) :
    AreAll text a b [⟨0, ⟨a, b⟩, some name⟩] := by
  refine areAll_of_span ha hb hab ?_
  rintro name hname
  cases hname
  exact ⟨piece, after, hcuts, hend⟩

end Pieces

/-- The tree shows the text as far as `pos`. -/
structure IsViewTo (text : Text) (pos : Nat) (t : Tree) : Prop where
  pieces : AreOrdered text 0 pos t.pieces
  rest : ∀ i < pos, HasByte t.pieces i ∨ ∃ span : Span, span.start ≤ i ∧ i < span.stop ∧
    span.stop ≤ pos ∧ IsApart t.pieces span ∧ IsPassedOver text t span

namespace IsViewTo

variable {text : Text} {pos : Nat} {t : Tree}

theorem isView (h : IsViewTo text text.size t) : IsView text t where
  source p hp := (h.pieces.isBetween p hp).source
  bounds p hp := ⟨(h.pieces.isBetween p hp).le, (h.pieces.isBetween p hp).start, (h.pieces.isBetween p hp).stop⟩
  ordered := h.pieces.pairwise
  ends p hp := (h.pieces.isBetween p hp).ends
  rest i hi hno := by
    rcases h.rest i hi with ⟨p, hp, hbyte⟩ | ⟨span, hstart, hstop, -, hpassed⟩
    · exact absurd hbyte (hno p hp)
    · exact ⟨span, hstart, hstop, hpassed⟩

/-- A tree that shows more text, in which nothing that was closed is open again. -/
theorem grow (h : IsViewTo text pos t) {stop : Nat} {t' : Tree} {new : List Piece} (hle : pos ≤ stop)
    (hpieces : t'.pieces = t.pieces ++ new) (hnew : AreAll text pos stop new)
    (hopen : ∀ p < pos, Tree.openAt p t' text.size ⊆ Tree.openAt p t text.size) :
    IsViewTo text stop t' := by
  refine ⟨?_, fun i hi => ?_⟩
  · rw [hpieces]
    exact h.pieces.append hnew.areOrdered (Nat.zero_le _) hle
  · rw [hpieces]
    rcases Nat.lt_or_ge i pos with hlt | hge
    · rcases h.rest i hlt with ⟨p, hmem, hbyte⟩ | ⟨span, hstart, hstop, hbefore, hapart, hpassed⟩
      · exact .inl ⟨p, List.mem_append_left _ hmem, hbyte⟩
      · -- what was passed over stays so: the new pieces begin behind it, and nothing is opened there
        refine .inr ⟨span, hstart, hstop, Nat.le_trans hbefore hle, ?_, ?_⟩
        · refine List.forall_mem_append.mpr ⟨hapart, fun p hp => .inr ?_⟩
          exact Nat.le_trans hbefore (hnew.areOrdered.isBetween p hp).start_le
        · cases hpassed with
          | comment hcuts hcomment => exact .comment hcuts hcomment
          | endTag hcuts hend hclosed =>
            exact .endTag hcuts hend fun hmem => hclosed (hopen _ (by omega) hmem)
    · obtain ⟨p, hmem, hbyte⟩ := hnew.hasByte i hge hi
      exact .inl ⟨p, List.mem_append_right _ hmem, hbyte⟩

/-- The same tree after something that it does not show. -/
theorem passOver (h : IsViewTo text pos t) {stop : Nat} (hle : pos ≤ stop)
    (hpassed : IsPassedOver text t ⟨pos, stop⟩) : IsViewTo text stop t := by
  refine ⟨⟨fun p hp => ?_, h.pieces.pairwise⟩, fun i hi => ?_⟩
  · have hpiece := h.pieces.isBetween p hp
    exact { hpiece with le_stop := Nat.le_trans hpiece.le_stop hle }
  · rcases Nat.lt_or_ge i pos with hlt | hge
    · rcases h.rest i hlt with hbyte | ⟨span, hstart, hstop, hbefore, hrest⟩
      · exact .inl hbyte
      · exact .inr ⟨span, hstart, hstop, Nat.le_trans hbefore hle, hrest⟩
    · refine .inr ⟨_, hge, hi, Nat.le_refl _, fun p hp => .inl ?_, hpassed⟩
      exact (h.pieces.isBetween p hp).le_stop

end IsViewTo

/-! ## 2. Open elements -/

namespace Frame

/-- The start tag and what is complete behind it have begun. -/
structure IsBegun (pos : Nat) (f : Frame) : Prop where
  start : f.element.startTag.start ≤ pos
  done : ∀ t ∈ f.done, t.IsBegun pos

/-- What the element shows before its next child. -/
def pieces (f : Frame) : List Piece :=
  ⟨f.element.source, f.element.startTag, none⟩ :: Tree.pieces.piecesAll f.done

variable {pos : Nat} {f : Frame}

theorem IsBegun.mono (h : f.IsBegun pos) {stop : Nat} (hle : pos ≤ stop) : f.IsBegun stop :=
  ⟨Nat.le_trans h.start hle, fun t ht => (h.done t ht).mono hle⟩

theorem IsBegun.hang (h : f.IsBegun pos) {t : Tree} (ht : t.IsBegun pos) : (f.hang t).IsBegun pos := by
  refine ⟨h.start, List.forall_mem_append.mpr ⟨h.done, ?_⟩⟩
  rw [List.forall_mem_singleton]
  exact ht

theorem pieces_tree (f : Frame) : f.tree.pieces = f.pieces ++ f.element.endPieces := rfl

theorem pieces_hang (f : Frame) (t : Tree) : (f.hang t).pieces = f.pieces ++ t.pieces := by
  show _ :: Tree.pieces.piecesAll (f.done ++ [t]) = _
  rw [Tree.piecesAll_append, Tree.piecesAll_singleton]
  rfl

theorem IsBegun.tree_close (h : f.IsBegun pos) {endTag : Span} (hend : endTag.start ≤ pos) :
    (f.close endTag).tree.IsBegun pos := by
  refine ⟨h.start, ?_⟩
  rintro e he span hspan
  cases he
  cases hspan
  exact hend

theorem isEnded_close (f : Frame) (endTag : Span) : (f.close endTag).tree.IsEnded := by
  rintro e he hnone
  cases he
  cases hnone

theorem openAt_tree (f : Frame) (p stop : Nat) : Tree.openAt p f.tree stop =
    if f.element.startTag.stop ≤ p ∧ p < f.element.contentStop stop then
      f.element.name :: Tree.openAt.openAll p f.done (f.element.contentStop stop)
    else [] := by
  rw [tree, Tree.openAt]
  rfl

end Frame

namespace Spine

/-- Of the open elements only the root, which is the outermost, has an end tag: the empty one at the end of
the text. -/
def AreOpen (text : Text) (pos : Nat) : Frame → List Frame → Prop
  | f, [] => f.IsBegun pos ∧ f.element.endTag = some ⟨text.size, text.size⟩
  | f, g :: outer => f.IsBegun pos ∧ f.element.endTag = none ∧ AreOpen text pos g outer

/-- The frame shows no end tag, and its content goes on to the end of the text. -/
structure IsUnending (text : Text) (pos : Nat) (f : Frame) : Prop where
  isBegun : f.IsBegun pos
  endPieces : f.element.endPieces = []
  contentStop : f.element.contentStop text.size = text.size

namespace IsUnending

variable {text : Text} {pos : Nat} {f : Frame}

theorem openAt_tree (h : IsUnending text pos f) (p : Nat) : Tree.openAt p f.tree text.size =
    if f.element.startTag.stop ≤ p ∧ p < text.size then
      f.element.name :: Tree.openAt.openAll p f.done text.size
    else [] := by
  rw [Frame.openAt_tree, h.contentStop]

theorem openAt_hang (h : IsUnending text pos f) (p : Nat) (t : Tree) :
    Tree.openAt p (f.hang t).tree text.size =
      if f.element.startTag.stop ≤ p ∧ p < text.size then
        f.element.name :: (Tree.openAt.openAll p f.done t.start ++ Tree.openAt p t text.size)
      else [] := by
  have hstop : (f.hang t).element.contentStop text.size = text.size := h.contentStop
  rw [Frame.openAt_tree, hstop, ← Tree.openAll_append]
  rfl

end IsUnending

section Open

variable {text : Text} {pos : Nat} {f : Frame} {outer : List Frame}

theorem AreOpen.isUnending (h : AreOpen text pos f outer) : ∀ g ∈ f :: outer, IsUnending text pos g := by
  induction outer generalizing f with
  | nil =>
    obtain ⟨hbegun, hend⟩ := h
    rw [List.forall_mem_singleton]
    refine ⟨hbegun, ?_, ?_⟩
    · rw [Element.endPieces, hend]
      exact if_neg (Nat.lt_irrefl _)
    · rw [Element.contentStop, hend]
      rfl
  | cons g outer ih =>
    obtain ⟨hbegun, hend, houter⟩ := h
    refine List.forall_mem_cons.mpr ⟨⟨hbegun, ?_, ?_⟩, ih houter⟩
    · rw [Element.endPieces, hend]
    · rw [Element.contentStop, hend]
      rfl

theorem AreOpen.mono (h : AreOpen text pos f outer) {stop : Nat} (hle : pos ≤ stop) :
    AreOpen text stop f outer := by
  induction outer generalizing f with
  | nil => exact ⟨h.1.mono hle, h.2⟩
  | cons g outer ih => exact ⟨h.1.mono hle, h.2.1, ih h.2.2⟩

theorem AreOpen.hang (h : AreOpen text pos f outer) {t : Tree} (ht : t.IsBegun pos) :
    AreOpen text pos (f.hang t) outer := by
  cases outer with
  | nil => exact ⟨h.1.hang ht, h.2⟩
  | cons g outer => exact ⟨h.1.hang ht, h.2⟩

theorem AreOpen.leave {s : Spine} (h : AreOpen text pos s.innermost s.outer) :
    AreOpen text pos s.leave.innermost s.leave.outer := by
  unfold Spine.leave
  split
  · exact h
  · rename_i g outer houter
    rw [houter] at h
    obtain ⟨hbegun, hend, houter⟩ := h
    refine houter.hang ⟨hbegun.start, ?_⟩
    rintro e he span hspan
    cases he
    rw [show s.innermost.element.endTag = some span from hspan] at hend
    cases hend

theorem AreOpen.makeRoom {s : Spine} (h : AreOpen text pos s.innermost s.outer) (name : Text) :
    AreOpen text pos (s.makeRoom name).innermost (s.makeRoom name).outer := by
  unfold Spine.makeRoom
  split
  · exact h.leave
  · exact h

theorem AreOpen.unwind {name : Text} {s : Spine} (h : AreOpen text pos f outer)
    (hunwind : unwind? name f outer = some s) :
    AreOpen text pos s.innermost s.outer ∧ s.tree = plug outer f.tree ∧ s.innermost.element.name = name ∧
      s.outer ≠ [] := by
  induction outer generalizing f with
  | nil => cases hunwind
  | cons g outer ih =>
    rw [unwind?] at hunwind
    split at hunwind
    · rename_i hname
      cases hunwind
      exact ⟨h, rfl, hname, List.cons_ne_nil _ _⟩
    · exact ih (AreOpen.leave (s := ⟨f, g :: outer⟩) h) hunwind

end Open

/-! ## 3. What the spine shows -/

section Shown

variable {text : Text} {pos : Nat} {outer : List Frame}

theorem pieces_plug (h : ∀ g ∈ outer, IsUnending text pos g) (t : Tree) :
    (plug outer t).pieces = outer.reverse.flatMap Frame.pieces ++ t.pieces := by
  induction outer generalizing t with
  | nil => rfl
  | cons g outer ih =>
    obtain ⟨hg, houter⟩ := List.forall_mem_cons.mp h
    have hend : (g.hang t).element.endPieces = [] := hg.endPieces
    rw [plug, ih houter, Frame.pieces_tree, hend, List.append_nil, Frame.pieces_hang, List.reverse_cons,
      List.flatMap_append, List.flatMap_singleton, List.append_assoc]

theorem pieces_hang {s : Spine} (h : AreOpen text pos s.innermost s.outer) (t : Tree) :
    (s.hang t).tree.pieces = s.tree.pieces ++ t.pieces := by
  obtain ⟨hinner, houter⟩ := List.forall_mem_cons.mp h.isUnending
  have hend : (s.innermost.hang t).element.endPieces = [] := hinner.endPieces
  show (plug s.outer (s.innermost.hang t).tree).pieces = _
  rw [pieces_plug houter, tree, pieces_plug houter, Frame.pieces_tree, hend, Frame.pieces_hang,
    Frame.pieces_tree, hinner.endPieces]
  simp only [List.append_nil, List.append_assoc]

theorem pieces_close {s : Spine} (h : AreOpen text pos s.innermost s.outer) (endTag : Span) :
    (s.close endTag).tree.pieces = s.tree.pieces ++ (s.innermost.close endTag).element.endPieces := by
  obtain ⟨hinner, houter⟩ := List.forall_mem_cons.mp h.isUnending
  show (plug s.outer (s.innermost.close endTag).tree).pieces = _
  rw [pieces_plug houter, tree, pieces_plug houter, Frame.pieces_tree, Frame.pieces_tree, hinner.endPieces,
    List.append_nil, List.append_assoc]
  rfl

theorem source_innermost {s : Spine} (h : AreOpen text pos s.innermost s.outer)
    (hview : IsViewTo text pos s.tree) : s.innermost.element.source = 0 := by
  have hmem : ⟨s.innermost.element.source, s.innermost.element.startTag, none⟩ ∈ s.tree.pieces := by
    rw [tree, pieces_plug (List.forall_mem_cons.mp h.isUnending).2]
    exact List.mem_append_right _ List.mem_cons_self
  exact (hview.pieces.isBetween _ hmem).source

/-- If the last part of a tree has less open, so has the tree. -/
theorem openAt_plug_subset (h : ∀ g ∈ outer, IsUnending text pos g) {p : Nat} {t t' : Tree}
    (hstart : t'.start = t.start) (hopen : Tree.openAt p t' text.size ⊆ Tree.openAt p t text.size) :
    Tree.openAt p (plug outer t') text.size ⊆ Tree.openAt p (plug outer t) text.size := by
  induction outer generalizing t t' with
  | nil => exact hopen
  | cons g outer ih =>
    obtain ⟨hg, houter⟩ := List.forall_mem_cons.mp h
    refine ih houter rfl ?_
    rw [hg.openAt_hang, hg.openAt_hang, hstart]
    by_cases hp : g.element.startTag.stop ≤ p ∧ p < text.size
    · rw [if_pos hp, if_pos hp]
      refine List.cons_subset_cons _ (List.append_subset.mpr ⟨List.subset_append_left _ _, ?_⟩)
      exact fun _ hname => List.mem_append_right _ (hopen hname)
    · rw [if_neg hp]
      exact List.nil_subset _

/-- A new tree ends what stands before it, and nothing in it is open before it begins. -/
theorem openAt_hang_subset {s : Spine} (h : AreOpen text pos s.innermost s.outer) {t : Tree} {p : Nat}
    (hstart : t.start ≤ text.size) (ht : ∀ e, t.element? = some e → p < e.startTag.stop) :
    Tree.openAt p (s.hang t).tree text.size ⊆ Tree.openAt p s.tree text.size := by
  obtain ⟨hinner, houter⟩ := List.forall_mem_cons.mp h.isUnending
  refine openAt_plug_subset houter rfl ?_
  show Tree.openAt p (s.innermost.hang t).tree _ ⊆ _
  rw [hinner.openAt_hang, hinner.openAt_tree, Tree.openAt_of_lt ht, List.append_nil]
  by_cases hp : s.innermost.element.startTag.stop ≤ p ∧ p < text.size
  · rw [if_pos hp, if_pos hp]
    exact List.cons_subset_cons _ (Tree.openAll_subset p _ hstart)
  · rw [if_neg hp]
    exact List.nil_subset _

theorem openAt_close_subset {s : Spine} (h : AreOpen text pos s.innermost s.outer) {endTag : Span}
    (hle : endTag.start ≤ text.size) (p : Nat) :
    Tree.openAt p (s.close endTag).tree text.size ⊆ Tree.openAt p s.tree text.size := by
  obtain ⟨hinner, houter⟩ := List.forall_mem_cons.mp h.isUnending
  refine openAt_plug_subset houter rfl ?_
  have hstop : (s.innermost.close endTag).element.contentStop text.size = endTag.start := rfl
  show Tree.openAt p (s.innermost.close endTag).tree _ ⊆ _
  rw [Frame.openAt_tree, hinner.openAt_tree, hstop]
  split
  · rename_i hp
    rw [if_pos ⟨hp.1, Nat.lt_of_lt_of_le hp.2 hle⟩]
    exact List.cons_subset_cons _ (Tree.openAll_subset p _ hle)
  · exact List.nil_subset _

/-- At the position that has been come to, only what lies on the way to the last part is open. -/
theorem openAt_plug_subset_names (h : ∀ g ∈ outer, IsUnending text pos g) {t : Tree}
    (hstart : t.start ≤ pos) : Tree.openAt pos (plug outer t) text.size ⊆
      outer.map (fun g => g.element.name) ++ Tree.openAt pos t text.size := by
  induction outer generalizing t with
  | nil => exact List.Subset.refl _
  | cons g outer ih =>
    obtain ⟨hg, houter⟩ := List.forall_mem_cons.mp h
    have hone : Tree.openAt pos (g.hang t).tree text.size ⊆
        g.element.name :: Tree.openAt pos t text.size := by
      rw [hg.openAt_hang, Tree.openAll_eq_nil hg.isBegun.done hstart, List.nil_append]
      split
      · exact List.Subset.refl _
      · exact List.nil_subset _
    intro name hname
    have hbelow := ih houter (show (g.hang t).tree.start ≤ pos from hg.isBegun.start) hname
    rw [List.map_cons, List.cons_append, List.mem_cons, List.mem_append]
    rcases List.mem_append.mp hbelow with hmem | hmem
    · exact .inr (.inl hmem)
    · rcases List.mem_cons.mp (hone hmem) with heq | hmem
      · exact .inl heq
      · exact .inr (.inr hmem)

theorem openAt_subset_names {s : Spine} (h : AreOpen text pos s.innermost s.outer)
    (hlast : ∀ t, s.innermost.done.getLast? = some t → t.IsEnded) :
    Tree.openAt pos s.tree text.size ⊆ (s.innermost :: s.outer).map fun f => f.element.name := by
  obtain ⟨hinner, houter⟩ := List.forall_mem_cons.mp h.isUnending
  -- each complete tree is ended by the next one, and the last one has an end of its own
  have hnone : Tree.openAt.openAll pos s.innermost.done text.size = [] := by
    rcases List.eq_nil_or_concat s.innermost.done with hnil | ⟨init, last, hdone⟩
    · rw [hnil]
      rfl
    · have hbegun := hinner.isBegun.done
      rw [hdone, List.concat_eq_append] at hbegun hlast ⊢
      obtain ⟨hinit, hlastBegun⟩ := List.forall_mem_append.mp hbegun
      have hend := hlastBegun last List.mem_cons_self
      rw [Tree.openAll_append, Tree.openAll_eq_nil hinit hend.start,
        hend.openAt_eq_nil (.inr (hlast last List.getLast?_concat))]
      rfl
  intro name hname
  have hmem := openAt_plug_subset_names houter
    (show s.innermost.tree.start ≤ pos from hinner.isBegun.start) hname
  rw [hinner.openAt_tree, hnone] at hmem
  rw [List.map_cons, List.mem_cons]
  rcases List.mem_append.mp hmem with hmem | hmem
  · exact .inr hmem
  · split at hmem
    · exact .inl (List.mem_singleton.mp hmem)
    · exact absurd hmem List.not_mem_nil

end Shown

/-! ## 4. Tokens -/

/-- The spine of a reading that has come to `pos`. Before the end of the text, what is complete below the
innermost element is ended too. -/
structure Views (text : Text) (pos : Nat) (s : Spine) : Prop where
  areOpen : AreOpen text pos s.innermost s.outer
  last : pos < text.size → ∀ t, s.innermost.done.getLast? = some t → t.IsEnded
  view : IsViewTo text pos s.tree

section Tokens

variable {text : Text} {pos stop : Nat} {s : Spine}

/-- A tree for all of the text from one position to the next. -/
structure Continues (text : Text) (pos stop : Nat) (t : Tree) : Prop where
  start : t.start = pos
  startTag : ∀ e, t.element? = some e → pos ≤ e.startTag.stop
  pieces : AreAll text pos stop t.pieces

theorem Continues.view_hang {t : Tree} (ht : Continues text pos stop t)
    (h : AreOpen text pos s.innermost s.outer) (hview : IsViewTo text pos s.tree) (hle : pos ≤ stop)
    (hsize : pos ≤ text.size) : IsViewTo text stop (s.hang t).tree := by
  refine hview.grow hle (pieces_hang h t) ht.pieces fun p hp => openAt_hang_subset h ?_ fun e he => ?_
  · rw [ht.start]
    exact hsize
  · exact Nat.lt_of_lt_of_le hp (ht.startTag e he)

theorem Continues.views_hang {t : Tree} (ht : Continues text pos stop t)
    (h : AreOpen text pos s.innermost s.outer) (hview : IsViewTo text pos s.tree) (hle : pos ≤ stop)
    (hsize : pos ≤ text.size)
    (hend : ∀ e, t.element? = some e → ∀ span, e.endTag = some span → span.start ≤ stop)
    (hended : stop < text.size → t.IsEnded) : (s.hang t).Views text stop := by
  have hbegun : t.IsBegun stop := by
    refine ⟨?_, hend⟩
    rw [ht.start]
    exact hle
  refine ⟨(h.mono hle).hang hbegun, fun hlt last hlast => ?_, ht.view_hang h hview hle hsize⟩
  rw [hang, Frame.hang, List.getLast?_concat] at hlast
  cases hlast
  exact hended hlt

/-- An element whose start tag is the whole token. -/
theorem continues_startTag (hpos : text.IsPosition pos) (hstop : text.IsPosition stop) (hle : pos ≤ stop)
    (count : Nat) (tag : Tag) {endTag : Option Span} (hend : endTag = none ∨ endTag = some ⟨stop, stop⟩) :
    Continues text pos stop (.element count (tag.element 0 ⟨pos, stop⟩ endTag) []) := by
  refine ⟨rfl, ?_, ?_⟩
  · rintro e he
    cases he
    exact hle
  · have hno : (tag.element 0 ⟨pos, stop⟩ endTag).endPieces = [] := by
      rcases hend with rfl | rfl
      · rfl
      · exact if_neg (Nat.lt_irrefl _)
    rw [Tree.pieces, hno]
    exact areAll_singleton hpos hstop hle

theorem element?_rawTree {id : NodeId} {e e' : Element} {inner : Span}
    (h : (rawTree id e inner).element? = some e') : e'.startTag = e.startTag ∧ e'.endTag = e.endTag := by
  unfold rawTree at h
  split at h
  · cases h
    exact ⟨rfl, rfl⟩
  · cases h
    exact ⟨rfl, rfl⟩

/-- An element whose raw text ends at `k`, with what follows that up to `stop`. -/
theorem continues_rawTree (hpos : text.IsPosition pos) {m k : Nat} (hm : text.IsPosition m)
    (hk : text.IsPosition k) (hle : pos ≤ m) (hmk : m ≤ k) (hkstop : k ≤ stop) (count : Nat) {tag : Tag}
    {endTag : Option Span} (hend : AreAll text k stop (tag.element 0 ⟨pos, m⟩ endTag).endPieces) :
    Continues text pos stop (rawTree count (tag.element 0 ⟨pos, m⟩ endTag) ⟨m, k⟩) := by
  have hfirst := areAll_singleton hpos hm hle
  refine ⟨?_, fun e he => ?_, ?_⟩
  · unfold rawTree
    split
    · rfl
    · rfl
  · rw [(element?_rawTree he).1]
    exact hle
  · unfold rawTree
    split
    · have hinner := areAll_singleton hm hk hmk
      exact (hfirst.append hinner hle hmk).append hend (Nat.le_trans hle hmk) hkstop
    · rename_i hempty
      obtain rfl : m = k := Nat.le_antisymm hmk (Nat.not_lt.mp hempty)
      exact hfirst.append hend hle hkstop

theorem not_mem_of_closing?_eq_none {name : Text} {opened : List (NodeId × Text)}
    (h : Reading.closing? name opened = none) : name ∉ opened.map Prod.snd := by
  induction opened with
  | nil => exact List.not_mem_nil
  | cons entry opened ih =>
    rw [Reading.closing?] at h
    split at h
    · cases h
    · rename_i hname
      rw [List.map_cons, List.mem_cons, not_or]
      exact ⟨Ne.symm hname, ih h⟩

/-- No end tag closes the root. -/
theorem ne_rootName_of_isEndTag {name piece : Text} (h : IsEndTag name piece) :
    name ≠ Document.rootName := by
  rintro rfl
  obtain ⟨written, -, -, ⟨first, others, rfl, hletter, -⟩, -, hname⟩ := h
  have hfirst : first = '#' := eq_of_toLower_eq (List.cons.inj hname).1 (by decide)
  rw [hfirst] at hletter
  cases hletter

theorem Views.stray {r : Reading} (h : s.Views text pos) (hshows : s.Shows r) {name piece after : Text}
    (hclosing : Reading.closing? name r.opened = none) (hlt : pos < stop)
    (hcuts : Span.Cuts ⟨pos, stop⟩ text piece after) (hend : IsEndTag name piece) (hsize : stop ≤ text.size) :
    s.Views text stop := by
  have hle := Nat.le_of_lt hlt
  have hlast := h.last (Nat.lt_of_lt_of_le hlt hsize)
  refine ⟨h.areOpen.mono hle, fun _ => hlast, h.view.passOver hle (.endTag hcuts hend fun hmem => ?_)⟩
  -- the open elements are those that the reading knows of, and the root
  have hnames : (s.innermost :: s.outer).map (fun f => f.element.name) =
      r.opened.map Prod.snd ++ [Document.rootName] := by
    have hentries := congrArg (List.map Prod.snd) hshows.entries
    rw [List.map_map, List.map_append] at hentries
    exact hentries
  have hopened := openAt_subset_names h.areOpen hlast hmem
  rw [hnames] at hopened
  rcases List.mem_append.mp hopened with hmem | hmem
  · exact not_mem_of_closing?_eq_none hclosing hmem
  · exact ne_rootName_of_isEndTag hend (List.mem_singleton.mp hmem)

theorem Views.closed {unwound : Spine} (h : s.Views text pos) {name : Text} (hlt : pos < stop)
    (hunwind : unwind? name s.innermost s.outer = some unwound) (hpos : text.IsPosition pos)
    (hstop : text.IsPosition stop) {piece after : Text} (hcuts : Span.Cuts ⟨pos, stop⟩ text piece after)
    (hend : IsEndTag name piece) : (unwound.close ⟨pos, stop⟩).leave.Views text stop := by
  have hle := Nat.le_of_lt hlt
  obtain ⟨hopen, htree, rfl, houter⟩ := h.areOpen.unwind hunwind
  have hview : IsViewTo text pos unwound.tree := by
    rw [htree]
    exact h.view
  have hpieces : AreAll text pos stop (unwound.innermost.close ⟨pos, stop⟩).element.endPieces := by
    have heq : (unwound.innermost.close ⟨pos, stop⟩).element.endPieces =
        [⟨unwound.innermost.element.source, ⟨pos, stop⟩, some unwound.innermost.element.name⟩] := if_pos hlt
    rw [heq, source_innermost hopen hview]
    exact areAll_endTag hpos hstop hle hcuts hend.begins
  have hclosed : IsViewTo text stop (unwound.close ⟨pos, stop⟩).leave.tree := by
    rw [tree_leave]
    exact hview.grow hle (pieces_close hopen _) hpieces fun p _ =>
      openAt_close_subset hopen hpos.le_size p
  obtain ⟨f, frames, hcases⟩ := List.exists_cons_of_ne_nil houter
  rw [hcases] at hopen
  have hleave : (unwound.close ⟨pos, stop⟩).leave =
      ⟨f.hang (unwound.innermost.close ⟨pos, stop⟩).tree, frames⟩ := by
    rw [Spine.leave, Spine.close, hcases]
  rw [hleave] at hclosed ⊢
  refine ⟨(hopen.2.2.mono hle).hang ((hopen.1.mono hle).tree_close hle), fun _ last hlast => ?_, hclosed⟩
  rw [Frame.hang, List.getLast?_concat] at hlast
  cases hlast
  exact unwound.innermost.isEnded_close _

/-- Raw text and its end tag. -/
theorem views_rawTree (hopen : AreOpen text pos s.innermost s.outer) (hview : IsViewTo text pos s.tree)
    (hpos : text.IsPosition pos) (hstop : text.IsPosition stop) {m k : Nat} (hm : text.IsPosition m)
    (hk : text.IsPosition k) (hpm : pos ≤ m) (hmk : m ≤ k) {tag : Tag} {piece after : Text}
    (hcuts : Span.Cuts ⟨k, stop⟩ text piece after) (hend : BeginsEndTag tag.name piece) (count : Nat) :
    (s.hang (rawTree count (tag.element 0 ⟨pos, m⟩ (some ⟨k, stop⟩)) ⟨m, k⟩)).Views text stop := by
  -- the end tag is not empty, since it begins with two characters
  have hkstop : k < stop := by
    obtain ⟨before, -, hstart, hsum⟩ := hcuts
    obtain ⟨written, rest, rfl, -⟩ := hend
    have htwo : size "</".toList = 2 := by decide
    simp only [size_append, htwo] at hsum hstart
    omega
  have hpieces : AreAll text k stop (tag.element 0 ⟨pos, m⟩ (some ⟨k, stop⟩)).endPieces := by
    have heq : (tag.element 0 ⟨pos, m⟩ (some ⟨k, stop⟩)).endPieces =
        [⟨0, ⟨k, stop⟩, some tag.name⟩] := if_pos hkstop
    rw [heq]
    exact areAll_endTag hk hstop (Nat.le_of_lt hkstop) hcuts hend
  refine (continues_rawTree hpos hm hk hpm hmk (Nat.le_of_lt hkstop) count hpieces).views_hang hopen hview
    (by omega) hpos.le_size (fun e he span hspan => ?_) fun _ e he hnone => ?_
  · rw [(element?_rawTree he).2] at hspan
    cases hspan
    exact Nat.le_of_lt hkstop
  · rw [(element?_rawTree he).2] at hnone
    cases hnone

/-- Raw text without an end tag, which goes on to the end of the text. -/
theorem views_rawTree_none (hopen : AreOpen text pos s.innermost s.outer)
    (hview : IsViewTo text pos s.tree) (hpos : text.IsPosition pos) (hstop : text.IsPosition stop) {m : Nat}
    (hm : text.IsPosition m) (hpm : pos ≤ m) (hmstop : m ≤ stop) (hend : stop = text.size) (tag : Tag)
    (count : Nat) : (s.hang (rawTree count (tag.element 0 ⟨pos, m⟩ none) ⟨m, stop⟩)).Views text stop := by
  have hpieces : AreAll text stop stop (tag.element 0 ⟨pos, m⟩ none).endPieces := areAll_nil text stop
  refine (continues_rawTree hpos hm hstop hpm hmstop (Nat.le_refl _) count hpieces).views_hang hopen hview
    (by omega) hpos.le_size (fun e he span hspan => ?_) fun hbefore => ?_
  · rw [(element?_rawTree he).2] at hspan
    cases hspan
  · exact absurd hend (Nat.ne_of_lt hbefore)

theorem views_startTag (hopen : AreOpen text pos s.innermost s.outer) (hview : IsViewTo text pos s.tree)
    (hpos : text.IsPosition pos) (hstop : text.IsPosition stop) (hle : pos ≤ stop) (tag : Tag)
    (count : Nat) :
    (s.hang (.element count (tag.element 0 ⟨pos, stop⟩ (some ⟨stop, stop⟩)) [])).Views text stop ∧
      (s.enter ⟨count, tag.element 0 ⟨pos, stop⟩ none, []⟩).Views text stop := by
  constructor
  · refine (continues_startTag hpos hstop hle count tag (.inr rfl)).views_hang hopen hview hle
      hpos.le_size ?_ ?_
    · rintro e he span hspan
      cases he
      cases hspan
      exact Nat.le_refl _
    · rintro - e he hnone
      cases he
      cases hnone
  · -- an element that stays open shows as much as one that is complete
    have hcontinues := continues_startTag hpos hstop hle count tag (.inl rfl)
    refine ⟨⟨⟨hle, List.forall_mem_nil _⟩, rfl, hopen.mono hle⟩, (fun _ _ hlast => nomatch hlast), ?_⟩
    exact hcontinues.view_hang hopen hview hle hpos.le_size

/-- What one token does to the view, whichever token it is. -/
theorem Views.add {r : Reading} (h : s.Views text pos) (hshows : s.Shows r) {token : Token}
    (htoken : token.Reads text pos stop) (hpos : text.IsPosition pos) (hstop : text.IsPosition stop)
    (hlt : pos < stop) (count : Nat) : (s.add count token).Views text stop := by
  have hle := Nat.le_of_lt hlt
  -- ending an element to make room changes no more than which elements are open
  have hroom : ∀ name, AreOpen text pos (s.makeRoom name).innermost (s.makeRoom name).outer ∧
      IsViewTo text pos (s.makeRoom name).tree := by
    intro name
    refine ⟨h.areOpen.makeRoom name, ?_⟩
    rw [tree_makeRoom]
    exact h.view
  cases htoken with
  | text =>
    refine Continues.views_hang ⟨rfl, (fun _ he => nomatch he), ?_⟩ h.areOpen h.view hle hpos.le_size
      (fun _ he => nomatch he) (fun _ _ he => nomatch he)
    exact areAll_singleton hpos hstop hle
  | comment hcuts hcomment =>
    refine ⟨h.areOpen.mono hle, fun hlt' => h.last (Nat.lt_trans hlt hlt'), ?_⟩
    exact h.view.passOver hle (.comment hcuts hcomment)
  | @startTag tag =>
    obtain ⟨hopen, hview⟩ := hroom tag.name
    obtain ⟨hclosed, hopened⟩ := views_startTag hopen hview hpos hstop hle tag count
    unfold Spine.add
    dsimp only
    split
    · exact hclosed
    · exact hopened
  | @rawElement tag m k hm hk hpm hmk piece after hcuts hend =>
    obtain ⟨hopen, hview⟩ := hroom tag.name
    exact views_rawTree hopen hview hpos hstop hm hk hpm hmk hcuts hend count
  | @rawToEnd tag m hm hpm hmstop hend =>
    obtain ⟨hopen, hview⟩ := hroom tag.name
    exact views_rawTree_none hopen hview hpos hstop hm hpm hmstop hend tag count
  | @endTag name piece after hcuts hend =>
    unfold Spine.add
    dsimp only
    cases hclosing : Reading.closing? name r.opened with
    | none =>
      rw [hshows.unwind_eq_none hclosing]
      exact h.stray hshows hclosing hlt hcuts hend hstop.le_size
    | some found =>
      obtain ⟨unwound, hunwind, -, -⟩ := hshows.unwind hclosing
      rw [hunwind]
      exact h.closed hlt hunwind hpos hstop hcuts hend

/-! ## 5. Whole texts -/

theorem views_start (text : Text) : (start text).Views text 0 := by
  refine ⟨⟨⟨Nat.le_refl _, List.forall_mem_nil _⟩, rfl⟩, fun _ t hlast => ?_, ?_, ?_⟩
  · have hnone : none = some t := hlast
    cases hnone
  · have hpieces : (start text).tree.pieces = [⟨0, ⟨0, 0⟩, none⟩] := by
      show _ :: ([] ++ if text.size < text.size then _ else []) = _
      rw [if_neg (Nat.lt_irrefl _)]
      rfl
    rw [hpieces]
    exact (areAll_singleton text.isPosition_zero text.isPosition_zero (Nat.le_refl _)).areOrdered
  · exact fun _ hlt => absurd hlt (Nat.not_lt_zero _)

/-- Reading goes on to the end of the text, token by token. -/
theorem Views.addTokens {r : Reading} {c : Cursor} (h : s.Views text c.offset) (hshows : s.Shows r)
    (hc : c.At text) : ∃ s' : Spine, s'.Views text text.size ∧
      s'.Shows ((tokens c).foldl (Reading.add 0 Document.root) r) := by
  fun_induction tokens c generalizing r s with
  | case1 c hrest =>
    rw [hc.offset_of_done hrest] at h
    exact ⟨s, h, hshows⟩
  | case2 c hrest ih =>
    have hlt : c.offset < (c.advance (nextToken c).2).offset := by
      obtain ⟨first, rest, hcons⟩ := List.exists_cons_of_ne_nil hrest
      obtain ⟨n, hn⟩ : ∃ n, (nextToken c).2 = n + 1 :=
        ⟨(nextToken c).2 - 1, by have := nextToken_pos hrest; omega⟩
      have := first.utf8Size_pos
      show c.offset < c.offset + size (c.rest.take (nextToken c).2)
      rw [hn, hcons, List.take_succ_cons, size_cons]
      omega
    have hstep := h.add hshows (reads_nextToken hc) hc.isIn.isPosition (hc.advance _).isIn.isPosition hlt
      r.document.count
    exact ih hstep (hshows.add _) (hc.advance _)

end Tokens

end Spine

/-- The document that is read from a text is a view of the text. -/
theorem isView_read (filename : Path) (text : Text) :
    ∃ t, (read filename text).tree Document.root = .ok t ∧ IsView text t := by
  have hstart : (Cursor.atStart text 0).At text := ⟨[], rfl, rfl⟩
  obtain ⟨s, hviews, hshows⟩ :=
    (Spine.views_start text).addTokens (Spine.shows_start filename text) hstart
  obtain ⟨pos, hsound⟩ := sound_read filename text
  obtain ⟨t, ht, -⟩ := (hsound.yields_treeWithout none hsound.nonempty).eq_ok
  -- the tree of the document is the one that the spine has kept
  obtain ⟨hid, hdepicts⟩ := (isTree_read filename text).depicts_tree ht
  have heq : t = s.tree := hdepicts.eq_of_id_eq hshows.depicts (hid.trans (Spine.id_plug hshows.entries).symm)
  refine ⟨t, ht, ?_⟩
  rw [heq]
  exact hviews.view.isView

end Markup

end Errata
