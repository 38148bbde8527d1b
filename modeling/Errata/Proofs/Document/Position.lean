import Errata.Document.Position
import Errata.Proofs.Text.Excerpt

/-!
# Lines and columns name positions

A line and a column lead back to the position they were computed from, so no two positions of a source have
the same, and they grow with the position. Lines are counted by newlines and columns by characters, whatever
the sizes of the characters are.
-/

namespace Errata

namespace Text

/-! ## 1. From a line and a column to a position -/

/-- The size of a text up to and with its first `n` newlines, and what is left after them. -/
def skipNewlines? : Nat → Text → Option (Nat × Text)
  | 0, t => some (0, t)
  | _ + 1, [] => none
  | n + 1, c :: t =>
    (skipNewlines? (if c = '\n' then n else n + 1) t).map fun skipped => (c.utf8Size + skipped.1, skipped.2)

/-- The size of the first `n` characters, if there are as many and none of them is a newline. -/
def skipInLine? : Nat → Text → Option Nat
  | 0, _ => some 0
  | _ + 1, [] => none
  | n + 1, c :: t => if c = '\n' then none else (skipInLine? n t).map (c.utf8Size + ·)

/-- The position reached by skipping `line - 1` newlines and then `column - 1` characters of one line. -/
def offsetAt? (t : Text) (line column : Nat) : Option Nat := do
  let (start, rest) ← skipNewlines? (line - 1) t
  let inLine ← skipInLine? (column - 1) rest
  return start + inLine

theorem skipNewlines?_append (early rest : Text) :
    skipNewlines? (early.newlines + 1) (early ++ '\n' :: rest) = some (early.size + 1, rest) := by
  induction early with
  | nil =>
    show skipNewlines? 1 ('\n' :: rest) = some (1, rest)
    rw [skipNewlines?, if_pos rfl, skipNewlines?]
    rfl
  | cons c early ih =>
    rw [List.cons_append, skipNewlines?]
    by_cases hc : c = '\n'
    · have hcount : newlines (c :: early) = newlines early + 1 := by
        rw [newlines, hc, List.count_cons_self]
        rfl
      rw [if_pos hc, hcount, ih, size_cons, Nat.add_assoc]
      rfl
    · have hcount : newlines (c :: early) = newlines early := List.count_cons_of_ne hc
      rw [if_neg hc, hcount, ih, size_cons, Nat.add_assoc]
      rfl

theorem skipInLine?_append {last : Text} (rest : Text) (h : '\n' ∉ last) :
    skipInLine? last.length (last ++ rest) = some last.size := by
  induction last with
  | nil =>
    cases rest with
    | nil => rfl
    | cons c rest => rfl
  | cons c last ih =>
    obtain ⟨hc, hlast⟩ := not_or.mp (mt List.mem_cons.mpr h)
    rw [List.cons_append, List.length_cons, skipInLine?, if_neg (Ne.symm hc), ih hlast]
    rfl

/-- Line and column after a part of a text lead back to the end of the part. -/
theorem offsetAt?_positionAfter (before after : Text) :
    (before ++ after).offsetAt? (positionAfter before).1 (positionAfter before).2 = some before.size := by
  obtain ⟨last, hlast, hlength, hbefore⟩ := before.lastLine_cases
  have hinLine := skipInLine?_append after hlast
  rw [hlength] at hinLine
  rcases hbefore with rfl | ⟨early, rfl⟩
  · -- there is no newline to skip
    have hnone : newlines before = 0 := List.count_eq_zero_of_not_mem hlast
    rw [offsetAt?, positionAfter, Nat.add_sub_cancel, Nat.add_sub_cancel, hnone, skipNewlines?]
    dsimp only [Option.bind_eq_bind, Option.bind_some]
    rw [hinLine]
    exact congrArg some (Nat.zero_add _)
  · have hcount : newlines (early ++ '\n' :: last) = early.newlines + 1 := by
      rw [newlines, List.count_append, List.count_cons_self, List.count_eq_zero_of_not_mem hlast]
      rfl
    rw [offsetAt?, positionAfter, Nat.add_sub_cancel, Nat.add_sub_cancel, hcount, List.append_assoc,
      List.cons_append, skipNewlines?_append]
    dsimp only [Option.bind_eq_bind, Option.bind_some]
    rw [hinLine, size_append, size_cons]
    exact congrArg some (Nat.add_assoc _ _ _)

/-! ## 2. The order of lines and columns -/

/-- The place comes earlier: on an earlier line, or on the same line and further left. -/
def Precedes (place other : Nat × Nat) : Prop :=
  place.1 < other.1 ∨ place.1 = other.1 ∧ place.2 < other.2

theorem lastLineLength_append {last : Text} (before : Text) (h : '\n' ∉ last) :
    (before ++ last).lastLineLength = before.lastLineLength + last.length := by
  have hall : ∀ c ∈ last.reverse, decide (c ≠ '\n') = true := by
    intro c hc
    refine decide_eq_true ?_
    rintro rfl
    exact h (List.mem_reverse.mp hc)
  rw [lastLineLength, List.reverse_append, List.takeWhile_append_of_pos hall, List.length_append,
    List.length_reverse, Nat.add_comm]
  rfl

theorem precedes_positionAfter (before : Text) {more : Text} (h : more ≠ []) :
    Precedes before.positionAfter (before ++ more).positionAfter := by
  have hcount : (before ++ more).newlines = before.newlines + more.newlines := List.count_append
  by_cases hmore : '\n' ∈ more
  · have hpos : 0 < more.newlines := List.count_pos_iff.mpr hmore
    refine .inl ?_
    show before.newlines + 1 < (before ++ more).newlines + 1
    omega
  · -- on the same line the column grows by each character
    have hnone : more.newlines = 0 := List.count_eq_zero_of_not_mem hmore
    have hlength := List.length_pos_iff.mpr h
    refine .inr ⟨?_, ?_⟩
    · show before.newlines + 1 = (before ++ more).newlines + 1
      omega
    · show before.lastLineLength + 1 < (before ++ more).lastLineLength + 1
      rw [lastLineLength_append before hmore]
      omega

/-- Of two positions of a text the first cuts off a part of what the second cuts off. -/
theorem exists_append_of_lt {t : Text} {offset other : Nat} (h : t.IsPosition offset)
    (hother : t.IsPosition other) (hlt : offset < other) :
    ∃ before more after : Text, more ≠ [] ∧ t = (before ++ more) ++ after ∧ before.size = offset ∧
      size (before ++ more) = other := by
  obtain ⟨more, ⟨before, after, ht, hsize⟩, hstop⟩ := holds_of_isPosition h hother (Nat.le_of_lt hlt)
  refine ⟨before, more, after, ?_, ht, hsize, by rw [size_append, hsize, hstop]⟩
  rintro rfl
  rw [size_nil] at hstop
  omega

end Text

/-! ## 3. Lines and columns of a source -/

namespace Document

open Text

theorem lineColumn_size_append {doc : Document} {source : SourceId} {before after : Text}
    (h : doc.sourceText source = .ok (before ++ after)) :
    doc.lineColumn source before.size = .ok before.positionAfter := by
  rw [lineColumn, h]
  dsimp only [bind, Except.bind]
  rw [lineColumn?_size_append]
  rfl

/-- The lines and columns that `place` gives name the positions of the text: each of them leads back to its
position, and an earlier position has an earlier place. -/
structure NamesPositions (t : Text) (place : Nat → Except Fault (Nat × Nat)) : Prop where
  leadsBack : ∀ offset, t.IsPosition offset → ∃ line column, place offset = .ok (line, column) ∧
    1 ≤ line ∧ 1 ≤ column ∧ t.offsetAt? line column = some offset
  injective : ∀ offset other, t.IsPosition offset → t.IsPosition other → place offset = place other →
    offset = other
  strictMono : ∀ offset other, t.IsPosition offset → t.IsPosition other → offset < other →
    ∃ p q, place offset = .ok p ∧ place other = .ok q ∧ Precedes p q

theorem lineColumn_leadsBack {doc : Document} {source : SourceId} {t : Text}
    (h : doc.sourceText source = .ok t) {offset : Nat} (hoffset : t.IsPosition offset) :
    ∃ line column, doc.lineColumn source offset = .ok (line, column) ∧ 1 ≤ line ∧ 1 ≤ column ∧
      t.offsetAt? line column = some offset := by
  obtain ⟨before, after, ht, rfl⟩ := hoffset
  rw [List.append_nil] at ht
  subst ht
  exact ⟨_, _, lineColumn_size_append h, Nat.le_add_left 1 _, Nat.le_add_left 1 _,
    offsetAt?_positionAfter before after⟩

theorem namesPositions_lineColumn (doc : Document) (source : SourceId) (t : Text)
    (h : doc.sourceText source = .ok t) : NamesPositions t (doc.lineColumn source) where
  leadsBack offset hoffset := lineColumn_leadsBack h hoffset
  injective offset other hoffset hother hsame := by
    obtain ⟨line, column, hplace, -, -, hback⟩ := lineColumn_leadsBack h hoffset
    obtain ⟨line', column', hplace', -, -, hback'⟩ := lineColumn_leadsBack h hother
    rw [hplace, hplace'] at hsame
    cases hsame
    rw [hback] at hback'
    exact Option.some.inj hback'
  strictMono offset other hoffset hother hlt := by
    obtain ⟨before, more, after, hmore, rfl, rfl, rfl⟩ := exists_append_of_lt hoffset hother hlt
    refine ⟨_, _, ?_, lineColumn_size_append h, precedes_positionAfter before hmore⟩
    rw [List.append_assoc] at h
    exact lineColumn_size_append h

/-- Characters of two and of four bytes before a newline and after it, and the empty line at the end. -/
theorem namesPositions_lineColumn_wide :
    let t : Text := "é\n\n𝒳b\n".toList
    let doc := ofSource ⟨"a.html".toList, t⟩
    (doc.lineColumn 0 8 = .ok (3, 2) ∧ t.offsetAt? 3 2 = some 8) ∧
      (doc.lineColumn 0 10 = .ok (4, 1) ∧ t.offsetAt? 4 1 = some 10) ∧
      NamesPositions t (doc.lineColumn 0) := by
  intro t doc
  have h : doc.sourceText 0 = .ok t := rfl
  exact ⟨by decide +kernel, by decide +kernel, namesPositions_lineColumn doc 0 t h⟩

end Document

end Errata
