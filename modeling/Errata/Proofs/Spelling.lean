import Errata.Proofs.Text.Excerpt
import Errata.Spelling

/-!
# Where misspellings are

A pattern marks a character of the text it is tried on, so each misspelling has a place in its source.
-/

namespace Errata

/-! ## 1. Widths of scans -/

namespace Scan

/-- The scan matches no more characters than there are. -/
def Bounded (s : Scan) : Prop := ∀ t n, s t = some n → n ≤ t.length

theorem bounded_one (p : Char → Bool) : Bounded (one p) := by
  intro t n h
  cases t with
  | nil => cases h
  | cons c t =>
    rw [one] at h
    split at h
    · cases h
      rw [List.length_cons]
      omega
    · cases h

theorem bounded_literal (s : String) : Bounded (literal s) := by
  intro t n h
  obtain ⟨hstarts, rfl⟩ := literal_eq_some_iff.mp h
  exact hstarts.length_le

theorem Bounded.optional {s : Scan} (hs : Bounded s) : Bounded (optional s) := by
  intro t n h
  cases hst : s t with
  | none =>
    rw [Scan.optional, hst] at h
    cases h
    exact Nat.zero_le _
  | some m =>
    rw [Scan.optional, hst] at h
    cases h
    exact hs t m hst

theorem bounded_seq {scans : List Scan} (h : ∀ s ∈ scans, Bounded s) : Bounded (seq scans) := by
  induction scans with
  | nil =>
    intro t n hn
    cases hn
    exact Nat.zero_le _
  | cons s scans ih =>
    intro t n hn
    obtain ⟨a, b, ha, hb, rfl⟩ := seq_cons_eq_some_iff.mp hn
    have hfirst := h s List.mem_cons_self t a ha
    have hrest := ih (fun s hs => h s (List.mem_cons_of_mem _ hs)) _ b hb
    rw [List.length_drop] at hrest
    omega

end Scan

/-! ## 2. Occurrences -/

namespace Text

/-- What the pattern marks is a character of the text. -/
def Pattern.Marks (p : Pattern) : Prop :=
  ∀ previous t hit, t ≠ [] → p previous t = some hit → hit.lead < t.length

theorem lt_of_mem_occurrencesFrom {p : Pattern} (hp : p.Marks) {skip place found : Nat}
    {previous : Option Char} {t : Text} (h : found ∈ occurrencesFrom p skip place previous t) :
    found < place + t.length := by
  induction t generalizing skip place previous with
  | nil => cases h
  | cons c t ih =>
    have hrest : ∀ {skip}, found ∈ occurrencesFrom p skip (place + 1) (some c) t →
        found < place + (c :: t).length := by
      intro skip hmem
      have := ih hmem
      rw [List.length_cons]
      omega
    cases skip with
    | succ skip => exact hrest h
    | zero =>
      unfold occurrencesFrom at h
      dsimp only at h
      split at h
      · rename_i hit hhit
        rcases List.mem_cons.mp h with rfl | h
        · have := hp previous (c :: t) hit (List.cons_ne_nil c t) hhit
          omega
        · exact hrest h
      · exact hrest h

theorem lt_of_mem_occurrences {p : Pattern} (hp : p.Marks) {t : Text} {place : Nat}
    (h : place ∈ occurrences p t) : place < t.length := by
  have := lt_of_mem_occurrencesFrom hp h
  omega

end Text

/-! ## 3. The patterns -/

namespace Spelling

open Text

theorem marks_marking (s : Scan) : (marking s).Marks := by
  intro previous t hit ht h
  obtain ⟨width, -, rfl⟩ := Option.map_eq_some_iff.mp h
  exact List.length_pos_iff.mpr ht

theorem marks_wordMarking (s : Scan) : (wordMarking s).Marks := by
  intro previous t hit ht h
  unfold wordMarking at h
  split at h
  · exact marks_marking s previous t hit ht h
  · cases h

theorem marks_numberMarking {noun : List Scan} (hnoun : ∀ s ∈ noun, s.Bounded) :
    (numberMarking noun).Marks := by
  intro previous t hit ht h
  unfold numberMarking at h
  split at h
  · obtain ⟨width, hwidth, rfl⟩ := Option.map_eq_some_iff.mp h
    have hbounded : (Scan.seq (noun ++ [.optional (.char 's'), .char ' ', .one Text.isDigit])).Bounded := by
      apply Scan.bounded_seq
      intro s hs
      rcases List.mem_append.mp hs with hs | hs
      · exact hnoun s hs
      simp only [List.mem_cons, List.not_mem_nil, or_false] at hs
      rcases hs with rfl | rfl | rfl
      · exact (Scan.bounded_one _).optional
      · exact Scan.bounded_one _
      · exact Scan.bounded_one _
    have hle := hbounded t width hwidth
    have hpos := List.length_pos_iff.mpr ht
    show width - 1 < t.length
    omega
  · cases h

theorem marks_trailingMarking : trailingMarking.Marks := by
  intro previous t hit ht h
  simp only [trailingMarking, Option.bind_eq_bind, Option.bind_eq_some_iff] at h
  obtain ⟨n, -, m, -, h⟩ := h
  split at h
  · cases h
    exact List.length_pos_iff.mpr ht
  · cases h

theorem marks_blankLinesMarking : blankLinesMarking.Marks := by
  intro previous t hit _ h
  unfold blankLinesMarking at h
  dsimp only at h
  generalize (if t.head? = some '\n' then 0 else 1) = lead at h
  split at h
  · cases h
  split at h
  · rename_i hthree
    cases h
    have hle := List.IsPrefix.length_le <| List.takeWhile_prefix (l := t.drop lead) (· == '\n')
    rw [List.length_drop] at hle
    show lead + 2 < t.length
    omega
  · cases h

theorem bounded_noun (p : Char → Bool) (s : String) :
    ∀ scan ∈ [Scan.one p, Scan.literal s], scan.Bounded := by
  intro scan hscan
  simp only [List.mem_cons, List.not_mem_nil, or_false] at hscan
  rcases hscan with rfl | rfl
  · exact Scan.bounded_one p
  · exact Scan.bounded_literal s

theorem marks_pattern (problem : Problem) : problem.pattern.Marks := by
  cases problem with
  | thisObject => exact marks_marking _
  | complement => exact marks_wordMarking _
  | behaviour => exact marks_wordMarking _
  | emptyString => exact marks_marking _
  | iff => exact marks_wordMarking _
  | trailingBlanks => exact marks_trailingMarking
  | blankLines => exact marks_blankLinesMarking
  | carriageReturn => exact marks_marking _
  | stepNumber => exact marks_numberMarking (bounded_noun _ _)
  | clauseNumber => exact marks_numberMarking (bounded_noun _ _)

/-- Each misspelling has a place in the text. -/
theorem hasPlace_of_mem_misspellings {t : Text} {m : Misspelling} (h : m ∈ misspellings t) :
    t.HasPlace m.line m.column := by
  obtain ⟨problem, -, h⟩ := List.mem_flatMap.mp h
  obtain ⟨place, hplace, rfl⟩ := List.mem_map.mp h
  have hlt := lt_of_mem_occurrences (marks_pattern problem) hplace
  have hafter : t.drop place ≠ [] := by
    rw [ne_eq, List.drop_eq_nil_iff]
    omega
  have hshown := @hasPlace_positionAfter (t.take place) (t.drop place) (.inl hafter)
  rw [List.take_append_drop] at hshown
  exact hshown

end Spelling
end Errata
