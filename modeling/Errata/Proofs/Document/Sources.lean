import Errata.Proofs.Document.Depiction
import Mathlib.Data.List.Forall2

/-!
# Text from several sources

The text below a node may come from several sources. Each of its characters stands at a position of the
source that its text node was read from.
-/

namespace Errata

theorem exists_mapM_eq_ok {ε α β : Type} {f : α → Except ε β} {R : α → β → Prop} {l : List α}
    (h : ∀ a ∈ l, ∃ b, f a = .ok b ∧ R a b) : ∃ bs, l.mapM f = .ok bs ∧ List.Forall₂ R l bs := by
  induction l with
  | nil => exact ⟨[], rfl, .nil⟩
  | cons a l ih =>
    obtain ⟨b, hb, hR⟩ := h a List.mem_cons_self
    obtain ⟨bs, hbs, hall⟩ := ih fun a' ha' => h a' (List.mem_cons_of_mem a ha')
    refine ⟨b :: bs, ?_, .cons hR hall⟩
    rw [List.mapM_cons, hb, hbs]
    rfl

theorem exists_of_forall₂_of_mem {α β : Type} {R : α → β → Prop} {l : List α} {bs : List β}
    (h : List.Forall₂ R l bs) {b : β} (hb : b ∈ bs) : ∃ a ∈ l, R a b := by
  induction h with
  | nil => exact absurd hb List.not_mem_nil
  | cons hR _ ih =>
    rcases List.mem_cons.mp hb with rfl | hb
    · exact ⟨_, List.mem_cons_self, hR⟩
    · obtain ⟨a, ha, hR'⟩ := ih hb
      exact ⟨a, List.mem_cons_of_mem _ ha, hR'⟩

namespace Document

open Text

variable {doc : Document}

/-- The span is one of a text that a source holds. -/
def IsSpan (doc : Document) (source : SourceId) (span : Span) (piece : Text) : Prop :=
  ∃ file, doc.sources[source]? = some file ∧ IsPiece file.text (span, piece)

/-- The text nodes have their text from the sources they name. -/
def IsWritten (doc : Document) : Prop :=
  ∀ (id : NodeId) parent source span, doc.node? id = some ⟨parent, .text source span⟩ →
    ∃ piece, doc.IsSpan source span piece

theorem IsSpan.slice {source : SourceId} {span : Span} {piece : Text} (h : doc.IsSpan source span piece) :
    doc.slice source span = .ok piece := by
  obtain ⟨file, hfile, hpiece⟩ := h
  exact slice_of_isPiece hfile hpiece

/-- In the joined texts of spans, the character with the given index stands at an offset of a source. -/
inductive StandsAt (doc : Document) : List (SourceId × Span) → Nat → SourceId → Nat → Char → Prop
  | here {source : SourceId} {span : Span} {rest : List (SourceId × Span)} {before after : Text} {c : Char}
      (hpiece : doc.IsSpan source span (before ++ c :: after)) :
      StandsAt doc ((source, span) :: rest) before.size source (span.start + before.size) c
  | later {source other : SourceId} {span : Span} {rest : List (SourceId × Span)} {piece : Text}
      {index offset : Nat} {c : Char} (hpiece : doc.IsSpan source span piece)
      (hrest : StandsAt doc rest index other offset c) :
      StandsAt doc ((source, span) :: rest) (piece.size + index) other offset c

/-- Where a character stands in a source, the source holds it. -/
theorem StandsAt.holds {spans : List (SourceId × Span)} {index : Nat} {source : SourceId} {offset : Nat}
    {c : Char} (h : doc.StandsAt spans index source offset c) :
    ∃ file, doc.sources[source]? = some file ∧ file.text.Holds offset [c] := by
  induction h with
  | @here _ _ _ before after c hpiece =>
    obtain ⟨file, hfile, hheld, -⟩ := hpiece
    exact ⟨file, hfile, hheld.trans ⟨before, after, by simp, rfl⟩⟩
  | later _ _ ih => exact ih

/-- The pieces of a text are the spans with what is written there. -/
def AreSpans (doc : Document) (spans : List (SourceId × Span)) (pieces : List (Span × Text)) : Prop :=
  List.Forall₂ (fun x p => p.1 = x.2 ∧ doc.IsSpan x.1 x.2 p.2) spans pieces

theorem exists_textPieces {t : Tree} (h : doc.IsWritten) (ht : t.Shows doc) (excluded : Option Text) :
    ∃ pieces, doc.textPieces t excluded = .ok pieces ∧ doc.AreSpans (t.texts excluded) pieces := by
  refine exists_mapM_eq_ok fun ⟨source, span⟩ hx => ?_
  obtain ⟨id, parent, hnode⟩ := exists_node?_of_mem_texts ht hx
  obtain ⟨piece, hpiece⟩ := h id parent source span hnode
  refine ⟨(span, piece), ?_, rfl, hpiece⟩
  dsimp only
  rw [hpiece.slice]
  rfl

/-- A position before the end of the joined pieces is that of a character. -/
theorem AreSpans.exists_standsAt {spans : List (SourceId × Span)} {pieces : List (Span × Text)}
    (h : doc.AreSpans spans pieces) {index : Nat}
    (hindex : Text.IsPosition (pieces.flatMap Prod.snd) index)
    (hlt : index < Text.size (pieces.flatMap Prod.snd)) :
    ∃ source offset c, doc.StandsAt spans index source offset c ∧ pieceOffset? pieces index = some offset := by
  induction h generalizing index with
  | nil => exact absurd hlt (Nat.not_lt_zero index)
  | @cons x p spans pieces hp _ ih =>
    obtain ⟨source, _⟩ := x
    obtain ⟨span, piece⟩ := p
    obtain ⟨rfl, hpiece⟩ := hp
    have hsplit : Text.IsPosition (piece ++ pieces.flatMap Prod.snd) index := hindex
    have hsize := size_flatMap_cons span piece pieces
    rw [pieceOffset?]
    split
    · -- the character is in the first piece
      rename_i hinside
      obtain ⟨before, rest, happend, rfl⟩ := hsplit.of_append.1 (Nat.le_of_lt hinside)
      cases rest with
      | nil =>
        rw [happend] at hinside
        simp at hinside
      | cons c after =>
        rw [List.append_nil] at happend
        rw [happend] at hpiece
        exact ⟨source, _, c, .here hpiece, rfl⟩
    · rename_i houtside
      have hle := Nat.le_of_not_lt houtside
      obtain ⟨other, offset, c, hstands, hoffset⟩ := ih (hsplit.of_append.2 hle) (by omega)
      refine ⟨other, offset, c, ?_, by rw [hoffset]; rfl⟩
      have hlater := StandsAt.later hpiece hstands
      rw [Nat.add_sub_cancel' hle] at hlater
      exact hlater

/-- The character with the given index in the text below a node, without the text of excluded elements,
stands at an offset of a source. -/
def IsWrittenAt (doc : Document) (id : NodeId) (excluded : Text) (index : Nat) (source : SourceId)
    (offset : Nat) (c : Char) : Prop :=
  ∃ t, doc.treeWithout (some excluded) id = .ok t ∧
    doc.StandsAt (t.texts (some excluded)) index source offset c

/-- Positions in the text below a node are those of its characters in their sources. -/
theorem IsWritten.textExcluding (h : doc.IsWritten) (htree : doc.IsTree) {id : Nat} (hid : id < doc.count)
    (excluded : Text) :
    ∃ text, doc.textExcluding id excluded = .ok text ∧
      ∀ index, text.IsPosition index → index < text.size →
        ∃ source offset c, doc.IsWrittenAt id excluded index source offset c ∧
          doc.textOffset? id excluded index = .ok (some offset) := by
  obtain ⟨t, ht, -, hshows⟩ := (htree.descendsUpward.yields_treeWithout (some excluded) hid).eq_ok
  obtain ⟨pieces, hpieces, hspans⟩ := exists_textPieces h hshows (some excluded)
  refine ⟨pieces.flatMap Prod.snd, textExcluding_eq ht hpieces, fun index hindex hlt => ?_⟩
  obtain ⟨source, offset, c, hstands, hoffset⟩ := hspans.exists_standsAt hindex hlt
  refine ⟨source, offset, c, ⟨t, ht, hstands⟩, ?_⟩
  rw [textOffset?_eq ht hpieces, hoffset]

end Document

end Errata
