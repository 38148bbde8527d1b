import Errata.Proofs.Text.Lines

/-!
# Lines and columns of a text

A position that is shown has a line among the lines for display, and its column lies in that line. Only one
position is not shown: the end of a text whose last line is empty.
-/

namespace Errata.Text

/-! ## 1. Pieces -/

theorem length_pieces (separator : Char) (t : Text) :
    (t.pieces separator).length = t.count separator + 1 := by
  induction t with
  | nil => rfl
  | cons c t ih =>
    obtain ⟨piece, rest, hpieces, -⟩ := pieces_eq_cons separator t
    rw [hpieces, List.length_cons] at ih
    by_cases hc : c = separator
    · rw [pieces, if_pos hc, hpieces, hc, List.count_cons_self, List.length_cons, List.length_cons]
      omega
    · rw [pieces, if_neg hc, hpieces, List.count_cons_of_ne hc, List.length_cons]
      omega

/-! ## 2. The last line -/

theorem lastLine_cases (t : Text) :
    ∃ last : Text, '\n' ∉ last ∧ last.length = t.lastLineLength ∧
      (t = last ∨ ∃ early, t = early ++ '\n' :: last) := by
  refine ⟨(t.reverse.takeWhile (· ≠ '\n')).reverse, ?_, List.length_reverse, ?_⟩
  · intro h
    have := List.mem_takeWhile_imp (List.mem_reverse.mp h)
    simp at this
  · have hsplit : t = (t.reverse.dropWhile (· ≠ '\n')).reverse ++
        (t.reverse.takeWhile (· ≠ '\n')).reverse := by
      rw [← List.reverse_append, List.takeWhile_append_dropWhile, List.reverse_reverse]
    cases hdrop : t.reverse.dropWhile (· ≠ '\n') with
    | nil =>
      rw [hdrop] at hsplit
      exact .inl hsplit
    | cons c rest =>
      have hc : c = '\n' := by
        have h := List.head?_dropWhile_not (fun x => decide (x ≠ '\n')) t.reverse
        rw [hdrop] at h
        simpa using h
      rw [hdrop, hc, List.reverse_cons, List.append_assoc] at hsplit
      exact .inr ⟨_, hsplit⟩

/-- The line of a position is put together from the end of what stands before it and the beginning of what
stands after it. -/
theorem pieces_append (before after : Text) :
    ∃ (earlier : List Text) (last first : Text) (rest : List Text),
      (before ++ after).pieces '\n' = earlier ++ (last ++ first) :: rest ∧
      after = first ++ rest.flatMap ('\n' :: ·) ∧ earlier.length = before.newlines ∧
      last.length = before.lastLineLength := by
  obtain ⟨first, rest, hafter, htext⟩ := after.pieces_eq_cons '\n'
  obtain ⟨last, hlast, hlength, hbefore | ⟨early, hbefore⟩⟩ := before.lastLine_cases
  · refine ⟨[], last, first, rest, ?_, htext, ?_, hlength⟩
    · rw [hbefore, pieces_append_of_not_mem hlast hafter]
      rfl
    · rw [hbefore, newlines, List.count_eq_zero_of_not_mem hlast]
      rfl
  · refine ⟨early.pieces '\n', last, first, rest, ?_, htext, ?_, hlength⟩
    · rw [hbefore, List.append_assoc, List.cons_append, pieces_append_separator,
        pieces_append_of_not_mem hlast hafter]
    · rw [length_pieces, hbefore, newlines, List.count_append, List.count_cons_self,
        List.count_eq_zero_of_not_mem hlast]

/-! ## 3. Places -/

/-- The text has a character at the position or, on the same line, before it. -/
def IsShown (t : Text) (offset : Nat) : Prop :=
  ∃ before after, t = before ++ after ∧ before.size = offset ∧
    (after ≠ [] ∨ ∃ c, before.getLast? = some c ∧ c ≠ '\n')

/-- All positions of `part`, which begins at `base`, are shown. -/
def ShowsPart (t : Text) (base : Nat) (part : Text) : Prop :=
  ∀ p, part.IsPosition p → t.IsShown (base + p)

/-- The line is one of those for display, and the column lies in it or directly after it. -/
structure HasPlace (t : Text) (line column : Nat) : Prop where
  line_pos : 1 ≤ line
  column_pos : 1 ≤ column
  line_lt : line - 1 < t.displayLines.length
  column_le : ∃ raw, (t.pieces '\n')[line - 1]? = some raw ∧ column - 1 ≤ raw.length

theorem lt_length_displayLines {t raw : Text} {earlier rest : List Text}
    (h : t.pieces '\n' = earlier ++ raw :: rest) (hraw : rest ≠ [] ∨ raw ≠ []) :
    earlier.length < t.displayLines.length := by
  have hlength : t.displayLines.length =
      (earlier.length + rest.length) +
        ((t.pieces '\n').getLast?.filter (!·.isEmpty)).toList.length := by
    rw [displayLines, List.length_append, List.length_map, List.length_dropLast, h,
      List.length_append, List.length_cons]
    omega
  rw [hlength]
  cases rest with
  | cons next rest =>
    rw [List.length_cons]
    omega
  | nil =>
    -- the line is the last one, so it is displayed because it is not empty
    have hne : raw ≠ [] := hraw.resolve_left fun h => h rfl
    have hlast : (t.pieces '\n').getLast? = some raw := by rw [h, List.getLast?_concat]
    rw [hlast, Option.filter_some, if_pos (by simpa using hne)]
    show earlier.length < earlier.length + 0 + 1
    omega

theorem lastLineLength_pos {t : Text} {c : Char} (h : t.getLast? = some c) (hc : c ≠ '\n') :
    0 < t.lastLineLength := by
  obtain ⟨init, rfl⟩ := List.getLast?_eq_some_iff.mp h
  rw [lastLineLength, List.reverse_append, List.reverse_singleton, List.singleton_append,
    List.takeWhile_cons_of_pos (by simpa using hc), List.length_cons]
  omega

theorem hasPlace_positionAfter {before after : Text}
    (h : after ≠ [] ∨ ∃ c, before.getLast? = some c ∧ c ≠ '\n') :
    (before ++ after).HasPlace (positionAfter before).1 (positionAfter before).2 := by
  obtain ⟨earlier, last, first, rest, hpieces, hafter, hline, hcolumn⟩ := pieces_append before after
  have hraw : rest ≠ [] ∨ last ++ first ≠ [] := by
    rw [← not_and_or]
    rintro ⟨rfl, hempty⟩
    obtain ⟨rfl, rfl⟩ := List.append_eq_nil_iff.mp hempty
    rcases h with hne | ⟨c, hlast, hc⟩
    · exact hne hafter
    · have := lastLineLength_pos hlast hc
      rw [← hcolumn, List.length_nil] at this
      omega
  refine ⟨Nat.le_add_left 1 _, Nat.le_add_left 1 _, ?_, last ++ first, ?_, ?_⟩
  · show before.newlines < _
    rw [← hline]
    exact lt_length_displayLines hpieces hraw
  · show ((before ++ after).pieces '\n')[before.newlines]? = _
    rw [hpieces, ← hline, List.getElem?_append_right (Nat.le_refl _), Nat.sub_self]
    rfl
  · show before.lastLineLength ≤ _
    rw [← hcolumn, List.length_append]
    omega

theorem lineColumn?_size_append (before after : Text) :
    (before ++ after).lineColumn? before.size = some before.positionAfter := by
  rw [lineColumn?, Nat.min_eq_left (by rw [size_append]; omega), cut?_size_append]
  rfl

theorem lineColumn?_of_isShown {t : Text} {offset : Nat} (h : t.IsShown offset) :
    ∃ line column, t.lineColumn? offset = some (line, column) ∧ t.HasPlace line column := by
  obtain ⟨before, after, rfl, rfl, hshown⟩ := h
  exact ⟨_, _, lineColumn?_size_append before after, hasPlace_positionAfter hshown⟩

/-! ## 4. Positions that are shown -/

theorem IsShown.isPosition {t : Text} {offset : Nat} (h : t.IsShown offset) :
    t.IsPosition offset := by
  obtain ⟨before, after, rfl, hsize, -⟩ := h
  exact ⟨before, after, by simp, hsize⟩

theorem Holds.isShown {t rest : Text} {offset : Nat} {c : Char} (h : t.Holds offset (c :: rest)) :
    t.IsShown offset := by
  obtain ⟨before, after, rfl, hsize⟩ := h
  exact ⟨before, c :: (rest ++ after), by simp, hsize, .inl (List.cons_ne_nil _ _)⟩

theorem IsPosition.isShown {t : Text} {offset : Nat} (h : t.IsPosition offset)
    (hlt : offset < t.size) : t.IsShown offset := by
  obtain ⟨before, after, rfl, rfl⟩ := h
  refine ⟨before, after, by simp, rfl, .inl ?_⟩
  rintro rfl
  simp at hlt

/-- A position in a piece before its end. -/
theorem Holds.isShown_of_lt {t piece : Text} {offset inner : Nat} (h : t.Holds offset piece)
    (hinner : piece.IsPosition inner) (hlt : inner < piece.size) : t.IsShown (offset + inner) := by
  refine (h.isPosition hinner).isShown ?_
  have := h.le_size
  omega

theorem Holds.isShown_stop {t piece : Text} {offset : Nat} {c : Char}
    (h : t.Holds offset (piece ++ [c])) (hc : c ≠ '\n') :
    t.IsShown (offset + size (piece ++ [c])) := by
  obtain ⟨before, after, rfl, rfl⟩ := h
  refine ⟨before ++ (piece ++ [c]), after, by simp, size_append _ _, .inr ⟨c, ?_, hc⟩⟩
  rw [← List.append_assoc, List.getLast?_concat]

end Errata.Text
