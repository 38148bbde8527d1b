import Errata.Proofs.Text.Lines
import Errata.Spelling

/-!
# Blank lines

The pattern for blank lines looks for newlines, three of them after a character that is none. So it finds the
runs of two or more empty lines one by one. At the start of a text no character goes before, but the pattern
asks for three newlines there too: a text may begin with two empty lines.
-/

namespace Errata

/-! ## 1. Lines and runs -/

namespace Text

/-- The lines of a text: what stands between newlines, without the empty piece after the last one. -/
def sourceLines (t : Text) : List Text :=
  if (t.pieces '\n').getLast? = some [] then (t.pieces '\n').dropLast else t.pieces '\n'

theorem sourceLines_newline (t : Text) : sourceLines ('\n' :: t) = [] :: sourceLines t := by
  obtain ⟨first, rest, hpieces, -⟩ := t.pieces_eq_cons '\n'
  have hnewline : pieces '\n' ('\n' :: t) = [] :: first :: rest := by
    rw [pieces, if_pos rfl, hpieces]
  rw [sourceLines, sourceLines, hnewline, hpieces, List.getLast?_cons_cons, List.dropLast_cons_cons]
  split
  · rfl
  · rfl

theorem sourceLines_cons {c : Char} (hc : c ≠ '\n') (t : Text) :
    sourceLines (c :: t) = (c :: t.sourceLines.head?.getD []) :: t.sourceLines.tail := by
  obtain ⟨first, rest, hpieces, -⟩ := t.pieces_eq_cons '\n'
  have hcons : pieces '\n' (c :: t) = (c :: first) :: rest := by
    rw [pieces, if_neg hc, hpieces]
  rw [sourceLines, sourceLines, hcons, hpieces]
  cases rest with
  | nil =>
    -- the last line is not empty now, whether or not it was before
    by_cases hfirst : first = []
    · simp [hfirst]
    · simp [hfirst]
  | cons next rest =>
    rw [List.getLast?_cons_cons, List.getLast?_cons_cons, List.dropLast_cons_cons, List.dropLast_cons_cons]
    split
    · rfl
    · rfl

end Text

namespace Spelling

open Text

/-- The number of empty lines at the start. -/
def leadingBlanks (lines : List Text) : Nat := (lines.takeWhile List.isEmpty).length

theorem leadingBlanks_nil_cons (lines : List Text) : leadingBlanks ([] :: lines) = leadingBlanks lines + 1 := rfl

theorem leadingBlanks_cons {line : Text} (hline : line ≠ []) (lines : List Text) :
    leadingBlanks (line :: lines) = 0 := by
  have hempty : line.isEmpty = false := List.isEmpty_eq_false_iff.mpr hline
  rw [leadingBlanks, List.takeWhile_cons, hempty]
  rfl

theorem leadingBlanks_sourceLines (t : Text) :
    leadingBlanks t.sourceLines = (t.takeWhile (· == '\n')).length := by
  induction t with
  | nil => rfl
  | cons c t ih =>
    by_cases hc : c = '\n'
    · rw [hc, sourceLines_newline, leadingBlanks_nil_cons, ih]
      rfl
    · rw [sourceLines_cons hc, leadingBlanks_cons (List.cons_ne_nil _ _)]
      simp [hc]

/-- The lines have a run of exactly `n` empty lines after the first `i`. -/
def IsBlankRun (lines : List Text) (i n : Nat) : Prop :=
  ∃ before after, lines = before ++ (List.replicate n [] ++ after) ∧ before.length = i ∧
    before.getLast? ≠ some [] ∧ after.head? ≠ some []

/-- The runs of two or more empty lines that come after a line with text, if the first line comes after `k`
others. -/
def runsFrom (k : Nat) : List Text → List (Nat × Nat)
  | [] => []
  | line :: lines =>
    if line ≠ [] ∧ 2 ≤ leadingBlanks lines then (k + 1, leadingBlanks lines) :: runsFrom (k + 1) lines
    else runsFrom (k + 1) lines

/-- The runs of two or more empty lines, each with the number of lines before it and its length. -/
def blankRuns (lines : List Text) : List (Nat × Nat) :=
  if 2 ≤ leadingBlanks lines then (0, leadingBlanks lines) :: runsFrom 0 lines else runsFrom 0 lines

theorem eq_leadingBlanks_iff {lines : List Text} {n : Nat} :
    leadingBlanks lines = n ↔ ∃ after, lines = List.replicate n [] ++ after ∧ after.head? ≠ some [] := by
  induction lines generalizing n with
  | nil =>
    constructor
    · rintro rfl
      exact ⟨[], rfl, by simp⟩
    · rintro ⟨after, hsplit, -⟩
      have hlength := congrArg List.length hsplit
      rw [List.length_append, List.length_replicate] at hlength
      show 0 = n
      simp only [List.length_nil] at hlength
      omega
  | cons line lines ih =>
    by_cases hline : line = []
    · rw [hline, leadingBlanks_nil_cons]
      cases n with
      | zero =>
        refine iff_of_false (by omega) ?_
        rintro ⟨after, hsplit, hhead⟩
        have hafter : after = [] :: lines := hsplit.symm
        rw [hafter] at hhead
        exact hhead rfl
      | succ n =>
        rw [Nat.add_right_cancel_iff, ih]
        simp [List.replicate_succ]
    · rw [leadingBlanks_cons hline]
      constructor
      · rintro rfl
        refine ⟨line :: lines, rfl, ?_⟩
        simpa using hline
      · rintro ⟨after, hsplit, -⟩
        cases n with
        | zero => rfl
        | succ n =>
          rw [List.replicate_succ, List.cons_append] at hsplit
          exact absurd (List.cons.inj hsplit).1 hline

theorem mem_runsFrom_cons {k i n : Nat} {line : Text} {lines : List Text} :
    (i, n) ∈ runsFrom k (line :: lines) ↔
      (line ≠ [] ∧ 2 ≤ n ∧ leadingBlanks lines = n ∧ i = k + 1) ∨ (i, n) ∈ runsFrom (k + 1) lines := by
  rw [runsFrom]
  split
  · rename_i hstarts
    rw [List.mem_cons, Prod.mk.injEq]
    constructor
    · rintro (⟨rfl, rfl⟩ | hlater)
      · exact .inl ⟨hstarts.1, hstarts.2, rfl, rfl⟩
      · exact .inr hlater
    · rintro (⟨-, -, rfl, rfl⟩ | hlater)
      · exact .inl ⟨rfl, rfl⟩
      · exact .inr hlater
  · rename_i hstarts
    constructor
    · exact .inr
    · rintro (⟨hline, htwo, rfl, -⟩ | hlater)
      · exact absurd ⟨hline, htwo⟩ hstarts
      · exact hlater

theorem mem_runsFrom_iff {k i n : Nat} {lines : List Text} :
    (i, n) ∈ runsFrom k lines ↔ 2 ≤ n ∧ ∃ before line after,
      lines = before ++ line :: (List.replicate n [] ++ after) ∧ line ≠ [] ∧ after.head? ≠ some [] ∧
        i = k + before.length + 1 := by
  induction lines generalizing k with
  | nil => simp [runsFrom]
  | cons first lines ih =>
    rw [mem_runsFrom_cons, ih, eq_leadingBlanks_iff]
    constructor
    · rintro (⟨hfirst, htwo, ⟨after, rfl, hafter⟩, rfl⟩ | ⟨htwo, before, line, after, rfl, hline, hafter, rfl⟩)
      · exact ⟨htwo, [], first, after, rfl, hfirst, hafter, rfl⟩
      · refine ⟨htwo, first :: before, line, after, rfl, hline, hafter, ?_⟩
        rw [List.length_cons]
        omega
    · rintro ⟨htwo, before, line, after, hsplit, hline, hafter, rfl⟩
      cases before with
      | nil =>
        obtain ⟨rfl, rfl⟩ := List.cons.inj hsplit
        exact .inl ⟨hline, htwo, ⟨after, rfl, hafter⟩, rfl⟩
      | cons _ before =>
        obtain ⟨rfl, rfl⟩ := List.cons.inj hsplit
        refine .inr ⟨htwo, before, line, after, rfl, hline, hafter, ?_⟩
        rw [List.length_cons]
        omega

theorem mem_blankRuns_iff {i n : Nat} {lines : List Text} :
    (i, n) ∈ blankRuns lines ↔ IsBlankRun lines i n ∧ 2 ≤ n := by
  have hstart : (i, n) ∈ blankRuns lines ↔
      (i = 0 ∧ leadingBlanks lines = n ∧ 2 ≤ n) ∨ (i, n) ∈ runsFrom 0 lines := by
    unfold blankRuns
    split
    · rename_i htwo
      rw [List.mem_cons, Prod.mk.injEq]
      constructor
      · rintro (⟨rfl, rfl⟩ | hlater)
        · exact .inl ⟨rfl, rfl, htwo⟩
        · exact .inr hlater
      · rintro (⟨rfl, rfl, -⟩ | hlater)
        · exact .inl ⟨rfl, rfl⟩
        · exact .inr hlater
    · rename_i htwo
      constructor
      · exact .inr
      · rintro (⟨-, rfl, hle⟩ | hlater)
        · exact absurd hle htwo
        · exact hlater
  rw [hstart, mem_runsFrom_iff, eq_leadingBlanks_iff]
  constructor
  · rintro (⟨rfl, ⟨after, rfl, hafter⟩, htwo⟩ | ⟨htwo, before, line, after, rfl, hline, hafter, rfl⟩)
    · exact ⟨⟨[], after, rfl, rfl, by simp, hafter⟩, htwo⟩
    · refine ⟨⟨before ++ [line], after, by simp, by simp, ?_, hafter⟩, htwo⟩
      rw [List.getLast?_concat]
      simpa using hline
  · rintro ⟨⟨before, after, rfl, rfl, hbefore, hafter⟩, htwo⟩
    -- either no line comes before the run, or one that is not empty
    rcases List.eq_nil_or_concat before with rfl | ⟨earlier, line, rfl⟩
    · exact .inl ⟨rfl, ⟨after, rfl, hafter⟩, htwo⟩
    · rw [List.concat_eq_append, List.getLast?_concat] at hbefore
      refine .inr ⟨htwo, earlier, line, after, by simp, ?_, hafter, by simp⟩
      rintro rfl
      exact hbefore rfl

theorem lt_of_mem_runsFrom {k : Nat} {lines : List Text} {run : Nat × Nat} (h : run ∈ runsFrom k lines) :
    k < run.1 := by
  obtain ⟨-, before, line, after, -, -, -, hi⟩ := mem_runsFrom_iff.mp h
  omega

theorem pairwise_runsFrom (k : Nat) (lines : List Text) : (runsFrom k lines).Pairwise fun a b => a.1 < b.1 := by
  induction lines generalizing k with
  | nil => exact .nil
  | cons line lines ih =>
    rw [runsFrom]
    split
    · refine List.pairwise_cons.mpr ⟨fun run hrun => ?_, ih (k + 1)⟩
      exact lt_of_mem_runsFrom hrun
    · exact ih (k + 1)

theorem pairwise_blankRuns (lines : List Text) : (blankRuns lines).Pairwise fun a b => a.1 < b.1 := by
  unfold blankRuns
  split
  · exact List.pairwise_cons.mpr ⟨fun run hrun => lt_of_mem_runsFrom hrun, pairwise_runsFrom 0 lines⟩
  · exact pairwise_runsFrom 0 lines

/-! ## 2. Occurrences -/

section Occurrences

variable {pattern : Pattern} {place : Nat} {previous : Option Char} {c : Char} {t : Text}

theorem occurrencesFrom_of_none (h : pattern previous (c :: t) = none) :
    occurrencesFrom pattern 0 place previous (c :: t) = occurrencesFrom pattern 0 (place + 1) (some c) t := by
  rw [occurrencesFrom, h]

theorem occurrencesFrom_of_some {hit : Hit} (h : pattern previous (c :: t) = some hit) :
    occurrencesFrom pattern 0 place previous (c :: t) =
      (place + hit.lead) :: occurrencesFrom pattern (hit.width - 1) (place + 1) (some c) t := by
  rw [occurrencesFrom, h]

end Occurrences

/-- Line and column of the place that is marked in a run of empty lines: its second line, or at the start of the
text its third. -/
def placeOf (run : Nat × Nat) : Nat × Nat := (if run.1 = 0 then 3 else run.1 + 2, 1)

theorem blankLinesMarking_newline {previous : Option Char} (hprevious : previous.isSome = true) (t : Text) :
    blankLinesMarking previous ('\n' :: t) = none := by
  simp [blankLinesMarking, hprevious]

theorem blankLinesMarking_start (t : Text) :
    blankLinesMarking none ('\n' :: t) =
      if 2 ≤ (t.takeWhile (· == '\n')).length then
        some { lead := 2, width := (t.takeWhile (· == '\n')).length + 1 }
      else none := by
  simp [blankLinesMarking]

theorem blankLinesMarking_cons (previous : Option Char) {c : Char} (hc : c ≠ '\n') (t : Text) :
    blankLinesMarking previous (c :: t) =
      if 3 ≤ (t.takeWhile (· == '\n')).length then
        some { lead := 3, width := 1 + (t.takeWhile (· == '\n')).length }
      else none := by
  simp [blankLinesMarking, hc]

theorem runsFrom_newline (k : Nat) (t : Text) :
    runsFrom k (sourceLines ('\n' :: t)) = runsFrom (k + 1) t.sourceLines := by
  rw [sourceLines_newline, runsFrom, if_neg (by simp)]

/-- A character that is no newline begins a run exactly if three newlines follow it. -/
theorem runsFrom_cons (k : Nat) {c : Char} (hc : c ≠ '\n') (t : Text) :
    runsFrom k (sourceLines (c :: t)) =
      if 3 ≤ (t.takeWhile (· == '\n')).length then
        (k + 1, (t.takeWhile (· == '\n')).length - 1) :: runsFrom k t.sourceLines
      else runsFrom k t.sourceLines := by
  have hleading := leadingBlanks_sourceLines t
  rw [sourceLines_cons hc, ← hleading]
  cases t.sourceLines with
  | nil => rfl
  | cons line lines =>
    show runsFrom k ((c :: line) :: lines) = _
    by_cases hline : line = []
    · rw [hline, leadingBlanks_nil_cons, runsFrom, runsFrom]
      by_cases htwo : 2 ≤ leadingBlanks lines
      · simp [htwo]
      · simp [htwo]
    · rw [leadingBlanks_cons hline, if_neg (by omega), runsFrom, runsFrom]
      simp [hline]

theorem take_newlines {t : Text} {n : Nat} (h : n ≤ (t.takeWhile (· == '\n')).length) :
    t.take n = List.replicate n '\n' := by
  obtain ⟨rest, hrest⟩ := List.takeWhile_prefix (· == '\n') (l := t)
  have htake : t.take n = (t.takeWhile (· == '\n')).take n := by
    rw [← List.take_append_of_le_length h, hrest]
  rw [htake]
  apply List.eq_replicate_iff.mpr
  refine ⟨List.length_take_of_le h, fun c hc => ?_⟩
  have hnewline := List.mem_takeWhile_imp (List.mem_of_mem_take hc)
  exact beq_iff_eq.mp hnewline

/-- Behind two newlines after a character that is none, the first place of the third line is reached. -/
theorem positionAfter_newlines (before : Text) {c : Char} (hc : c ≠ '\n') :
    positionAfter (before ++ [c, '\n', '\n']) = (before.newlines + 3, 1) := by
  have hlines : newlines (before ++ [c, '\n', '\n']) = before.newlines + 2 := by
    rw [newlines, List.count_append]
    simp [newlines, hc]
  have hcolumn : lastLineLength (before ++ [c, '\n', '\n']) = 0 := by
    simp [lastLineLength]
  rw [positionAfter, hlines, hcolumn]

theorem newlines_concat_newline (before : Text) : newlines (before ++ ['\n']) = before.newlines + 1 := by
  rw [newlines, List.count_append]
  rfl

theorem newlines_concat {c : Char} (hc : c ≠ '\n') (before : Text) :
    newlines (before ++ [c]) = before.newlines := by
  rw [newlines, List.count_append]
  simp [newlines, hc]

/-- The places found in what follows `before` are those of the runs there. The newlines of an earlier match are
passed over: no run begins among them. -/
theorem places_occurrencesFrom (t : Text) {before : Text} {previous : Option Char} {skip : Nat}
    (hprevious : t.head? = some '\n' → previous.isSome = true)
    (hskip : skip ≤ (t.takeWhile (· == '\n')).length) :
    (occurrencesFrom blankLinesMarking skip before.length previous t).map
        (fun place => positionAfter ((before ++ t).take place)) =
      (runsFrom before.newlines t.sourceLines).map placeOf := by
  induction t generalizing before previous skip with
  | nil => rfl
  | cons c t ih =>
    -- what is found behind this character, whatever is passed over there
    have hnext : ∀ skip', skip' ≤ (t.takeWhile (· == '\n')).length →
        (occurrencesFrom blankLinesMarking skip' (before.length + 1) (some c) t).map
            (fun place => positionAfter ((before ++ c :: t).take place)) =
          (runsFrom (newlines (before ++ [c])) (sourceLines t)).map placeOf := by
      intro skip' hskip'
      have hsplit : before ++ c :: t = (before ++ [c]) ++ t := by simp
      have hlength : before.length + 1 = (before ++ [c]).length := by simp
      rw [hsplit, hlength]
      exact ih (fun _ => Option.isSome_some) hskip'
    by_cases hc : c = '\n'
    · rw [hc, newlines_concat_newline] at hnext
      rw [hc] at hprevious hskip ⊢
      rw [runsFrom_newline]
      cases skip with
      | zero =>
        rw [occurrencesFrom_of_none (blankLinesMarking_newline (hprevious rfl) t)]
        exact hnext 0 (Nat.zero_le _)
      | succ skip => exact hnext skip (Nat.le_of_succ_le_succ hskip)
    · have hzero : skip = 0 := by
        simp only [List.takeWhile_cons, beq_eq_false_iff_ne.mpr hc, Bool.false_eq_true, if_false,
          List.length_nil] at hskip
        omega
      rw [newlines_concat hc] at hnext
      rw [hzero, runsFrom_cons _ hc]
      have hmarking := blankLinesMarking_cons previous hc t
      by_cases hthree : 3 ≤ (t.takeWhile (· == '\n')).length
      · rw [if_pos hthree] at hmarking ⊢
        rw [occurrencesFrom_of_some hmarking, List.map_cons, List.map_cons]
        have hplace : positionAfter ((before ++ c :: t).take (before.length + 3)) = (before.newlines + 3, 1) := by
          rw [List.take_length_add_append, List.take_succ_cons, take_newlines (Nat.le_of_succ_le hthree)]
          exact positionAfter_newlines before hc
        have hwidth : 1 + (t.takeWhile (· == '\n')).length - 1 = (t.takeWhile (· == '\n')).length := by omega
        rw [hplace, hwidth, hnext _ (Nat.le_refl _)]
        rfl
      · rw [if_neg hthree] at hmarking ⊢
        rw [occurrencesFrom_of_none hmarking]
        exact hnext 0 (Nat.zero_le _)

theorem filter_runsFrom (k : Nat) (lines : List Text) :
    (runsFrom k lines).filter (· ≠ (0, 2)) = runsFrom k lines := by
  apply List.filter_eq_self.mpr
  intro run hrun
  have hlt := lt_of_mem_runsFrom hrun
  simp only [ne_eq, decide_not, Bool.not_eq_true', decide_eq_false_iff_not]
  rintro rfl
  exact absurd hlt (Nat.not_lt_zero k)

theorem places_occurrences (t : Text) :
    (occurrences blankLinesMarking t).map (fun place => positionAfter (t.take place)) =
      ((blankRuns t.sourceLines).filter (· ≠ (0, 2))).map placeOf := by
  cases t with
  | nil => rfl
  | cons c t =>
    by_cases hc : c = '\n'
    · have hrest : ∀ skip, skip ≤ (t.takeWhile (· == '\n')).length →
          (occurrencesFrom blankLinesMarking skip 1 (some '\n') t).map
              (fun place => positionAfter (('\n' :: t).take place)) =
            (runsFrom 1 (sourceLines t)).map placeOf := by
        intro skip hskip
        exact @places_occurrencesFrom t ['\n'] (some '\n') skip (fun _ => rfl) hskip
      have hmarking := blankLinesMarking_start t
      rw [hc, blankRuns, runsFrom_newline, sourceLines_newline, leadingBlanks_nil_cons, leadingBlanks_sourceLines,
        occurrences]
      by_cases hthree : 2 ≤ (t.takeWhile (· == '\n')).length
      · -- three newlines at the start are reported, and all that belong to them are passed over
        rw [if_pos hthree] at hmarking
        rw [occurrencesFrom_of_some hmarking, List.map_cons, Nat.add_sub_cancel, hrest _ (Nat.le_refl _),
          if_pos (by omega), List.filter_cons_of_pos (by simp; omega), filter_runsFrom, List.map_cons]
        have hplace : positionAfter (('\n' :: t).take 2) = (3, 1) := by
          rw [List.take_succ_cons, take_newlines (Nat.le_of_succ_le hthree)]
          rfl
        show positionAfter (('\n' :: t).take 2) :: _ = (3, 1) :: _
        rw [hplace]
      · rw [if_neg hthree] at hmarking
        rw [occurrencesFrom_of_none hmarking, hrest 0 (Nat.zero_le _)]
        by_cases htwo : 2 ≤ (t.takeWhile (· == '\n')).length + 1
        · have hone : (t.takeWhile (· == '\n')).length = 1 := by omega
          rw [if_pos htwo, hone, List.filter_cons_of_neg (by simp), filter_runsFrom]
        · rw [if_neg htwo, filter_runsFrom]
    · have hleading : leadingBlanks (sourceLines (c :: t)) = 0 := by
        rw [sourceLines_cons hc]
        exact leadingBlanks_cons (List.cons_ne_nil _ _) _
      rw [blankRuns, hleading, if_neg (by omega), filter_runsFrom]
      refine @places_occurrencesFrom (c :: t) [] none 0 (fun hhead => ?_) (Nat.zero_le _)
      exact absurd (Option.some.inj hhead) hc

/-! ## 3. Reports -/

theorem message_eq_iff (problem : Problem) :
    problem.message = "no more than one blank line is allowed" ↔ problem = .blankLines := by
  cases problem <;> simp [Problem.message]

theorem problem_of_mem_misspellingsOf {t : Text} {problem : Problem} {m : Misspelling}
    (h : m ∈ misspellingsOf t problem) : m.problem = problem := by
  obtain ⟨place, -, rfl⟩ := List.mem_map.mp h
  rfl

theorem filter_misspellings (t : Text) (problem : Problem) :
    (misspellings t).filter (fun m => m.problem = problem) = misspellingsOf t problem := by
  have hof : ∀ other, (misspellingsOf t other).filter (fun m => m.problem = problem) =
      if other = problem then misspellingsOf t other else [] := by
    intro other
    by_cases hother : other = problem
    · rw [if_pos hother]
      apply List.filter_eq_self.mpr
      intro m hm
      exact decide_eq_true ((problem_of_mem_misspellingsOf hm).trans hother)
    · rw [if_neg hother]
      apply List.filter_eq_nil_iff.mpr
      intro m hm hproblem
      exact hother ((problem_of_mem_misspellingsOf hm).symm.trans (of_decide_eq_true hproblem))
  rw [misspellings, List.filter_flatMap]
  simp only [hof]
  cases problem <;> simp [problems]

/-- The spelling check reports the runs of two or more empty lines, each of them once and in their order, except
for a run of exactly two at the very start of the text. -/
theorem blankLines_reports_eq (t : Text) :
    ∃ runs : List (Nat × Nat), runs.Pairwise (fun a b => a.1 < b.1) ∧
      (∀ i n, (i, n) ∈ runs ↔ IsBlankRun t.sourceLines i n ∧ 2 ≤ n) ∧
      (misspellings t).filter (fun m => m.problem.message = "no more than one blank line is allowed") =
        (runs.filter (· ≠ (0, 2))).map fun run =>
          { problem := .blankLines, line := if run.1 = 0 then 3 else run.1 + 2, column := 1 } := by
  refine ⟨blankRuns t.sourceLines, pairwise_blankRuns _, fun i n => mem_blankRuns_iff, ?_⟩
  simp only [message_eq_iff]
  rw [filter_misspellings]
  have hplaces := congrArg (List.map fun position : Nat × Nat =>
    ({ problem := .blankLines, line := position.1, column := position.2 } : Misspelling)) (places_occurrences t)
  rw [List.map_map, List.map_map] at hplaces
  exact hplaces

/-- Two empty lines at the start of a text are not reported. -/
theorem blankLines_unreported_at_start :
    let t : Text := "\n\nx\n".toList
    IsBlankRun t.sourceLines 0 2 ∧
      (misspellings t).filter (fun m => m.problem.message = "no more than one blank line is allowed") = [] := by
  intro t
  refine ⟨⟨[], ["x".toList], by decide, rfl, by decide, by decide⟩, by decide +kernel⟩

end Spelling

end Errata
