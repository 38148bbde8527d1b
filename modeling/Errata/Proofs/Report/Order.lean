import Errata.Proofs.Lint.Parts

/-!
# The order of reports

Reports come in the order of their positions, and at one position in the order in which their diagnostics
were raised. There is only one such order of given reports. So without the check of spelling the reports are
those with it, less the ones about spelling, and none of the others has changed its place.
-/

namespace Errata

namespace Report

open scoped List

/-! ## 1. Positions -/

def isAt (line column : Nat) (r : Report) : Bool := r.line = line && r.column = column

/-- The position of the first report is not after that of the second. -/
def NotAfter (a b : Report) : Prop := a.line < b.line ∨ a.line = b.line ∧ a.column ≤ b.column

theorem le_eq_true_iff {a b : Report} : le a b = true ↔ NotAfter a b := by
  simp [le, NotAfter]

theorem le_trans (a b c : Report) (hab : le a b = true) (hbc : le b c = true) : le a c = true := by
  rw [le_eq_true_iff, NotAfter] at *
  omega

theorem le_total (a b : Report) : (le a b || le b a) = true := by
  rw [Bool.or_eq_true, le_eq_true_iff, le_eq_true_iff, NotAfter, NotAfter]
  omega

theorem isAt_self (r : Report) : r.isAt r.line r.column = true := by
  simp [isAt]

/-- Reports that are not after each other are at one position. -/
theorem isAt_of_notAfter {a b : Report} (hab : NotAfter a b) (hba : NotAfter b a) :
    a.isAt b.line b.column = true := by
  rw [NotAfter] at hab hba
  simp only [isAt, Bool.and_eq_true, decide_eq_true_eq]
  omega

theorem notAfter_of_isAt {line column : Nat} {a b : Report} (ha : a.isAt line column = true)
    (hb : b.isAt line column = true) : NotAfter a b := by
  simp only [isAt, Bool.and_eq_true, decide_eq_true_eq] at ha hb
  rw [NotAfter]
  omega

/-! ## 2. Arrangements -/

/-- The reports are those that were raised, in the order of their positions. -/
structure IsArrangement (raised arranged : List Report) : Prop where
  ordered : arranged.Pairwise NotAfter
  /-- At each position there are the same reports, in the order in which they were raised. -/
  stable : ∀ line column, arranged.filter (isAt line column) = raised.filter (isAt line column)

theorem mem_iff_of_filter_eq {a b : List Report}
    (h : ∀ line column, a.filter (isAt line column) = b.filter (isAt line column)) (r : Report) :
    r ∈ a ↔ r ∈ b := by
  have hmem : ∀ l : List Report, r ∈ l ↔ r ∈ l.filter (isAt r.line r.column) := by
    intro l
    rw [List.mem_filter, and_iff_left r.isAt_self]
  rw [hmem a, hmem b, h]

/-- Two lists that are in the order of positions and agree at each position are equal. -/
theorem eq_of_filter_eq {a b : List Report} (ha : a.Pairwise NotAfter) (hb : b.Pairwise NotAfter)
    (h : ∀ line column, a.filter (isAt line column) = b.filter (isAt line column)) : a = b := by
  have hmem := mem_iff_of_filter_eq h
  induction a generalizing b with
  | nil =>
    rw [eq_comm, List.eq_nil_iff_forall_not_mem]
    exact fun r hr => absurd ((hmem r).mpr hr) List.not_mem_nil
  | cons first rest ih =>
    cases b with
    | nil => exact absurd ((hmem first).mp List.mem_cons_self) List.not_mem_nil
    | cons first' rest' =>
      obtain ⟨hfirst, hrest⟩ := List.pairwise_cons.mp ha
      obtain ⟨hfirst', hrest'⟩ := List.pairwise_cons.mp hb
      -- each of the two first reports is in the other list, so they are at one position
      have hat : first.isAt first'.line first'.column = true := by
        rcases List.mem_cons.mp ((hmem first).mp List.mem_cons_self) with rfl | hlater
        · exact first.isAt_self
        rcases List.mem_cons.mp ((hmem first').mpr List.mem_cons_self) with rfl | hlater'
        · exact first'.isAt_self
        · exact isAt_of_notAfter (hfirst first' hlater') (hfirst' first hlater)
      have hhere := h first'.line first'.column
      rw [List.filter_cons_of_pos hat, List.filter_cons_of_pos first'.isAt_self] at hhere
      obtain ⟨rfl, -⟩ := List.cons.inj hhere
      have htail : ∀ line column, rest.filter (isAt line column) = rest'.filter (isAt line column) := by
        intro line column
        have hboth := h line column
        by_cases hat : first.isAt line column = true
        · rw [List.filter_cons_of_pos hat, List.filter_cons_of_pos hat] at hboth
          exact (List.cons.inj hboth).2
        · rwa [List.filter_cons_of_neg hat, List.filter_cons_of_neg hat] at hboth
      rw [ih hrest hrest' htail (mem_iff_of_filter_eq htail)]

theorem IsArrangement.unique {raised a b : List Report} (ha : IsArrangement raised a)
    (hb : IsArrangement raised b) : a = b :=
  eq_of_filter_eq ha.ordered hb.ordered fun line column =>
    (ha.stable line column).trans (hb.stable line column).symm

/-- Reports may be left out before or after the others are put in order. -/
theorem IsArrangement.filter {raised arranged : List Report} (h : IsArrangement raised arranged)
    (p : Report → Bool) : IsArrangement (raised.filter p) (arranged.filter p) := by
  refine ⟨h.ordered.filter p, fun line column => ?_⟩
  have hcomm : ∀ l : List Report,
      (l.filter p).filter (isAt line column) = (l.filter (isAt line column)).filter p := by
    intro l
    simp only [List.filter_filter, Bool.and_comm]
  rw [hcomm, hcomm, h.stable]

/-- At one position sorting changes nothing: the reports there are in order already, so they stay in the
sorted list as they are, and it has no others. -/
theorem isArrangement_inOrder (reports : List Report) : IsArrangement reports (inOrder reports) := by
  refine ⟨?_, fun line column => ?_⟩
  · exact (List.pairwise_mergeSort le_trans le_total reports).imp fun h => le_eq_true_iff.mp h
  · have hhere : (reports.filter (isAt line column)).Pairwise fun a b => le a b = true := by
      refine List.pairwise_filter.mpr (List.pairwise_of_forall fun a b ha hb => ?_)
      exact le_eq_true_iff.mpr (notAfter_of_isAt ha hb)
    have hsublist : reports.filter (isAt line column) <+ (inOrder reports).filter (isAt line column) := by
      have h := (List.sublist_mergeSort le_trans le_total hhere List.filter_sublist).filter (isAt line column)
      rwa [List.filter_filter, List.filter_congr fun r _ => Bool.and_self _] at h
    have hlength := ((List.mergeSort_perm reports le).filter (isAt line column)).length_eq
    exact (hsublist.eq_of_length hlength.symm).symm

theorem filter_inOrder (p : Report → Bool) (reports : List Report) :
    (inOrder reports).filter p = inOrder (reports.filter p) :=
  ((isArrangement_inOrder reports).filter p).unique (isArrangement_inOrder _)

end Report

/-! ## 3. Spelling -/

namespace Lint

/-- The reports of all diagnostics, in the order in which these are raised. -/
def raised (readers : Readers) (options : Options) (doc : Document) : Except Fault (List Report) := do
  (← diagnostics readers options doc).mapM (Report.ofDiagnostic doc)

theorem reports_eq_raised (readers : Readers) (options : Options) (doc : Document) :
    reports readers options doc = (raised readers options doc).map Report.inOrder := by
  unfold reports raised
  cases diagnostics readers options doc with
  | error fault => rfl
  | ok found =>
    dsimp only [bind, Except.bind]
    cases found.mapM (Report.ofDiagnostic doc) with
    | error fault => rfl
    | ok all => rfl

variable {doc : Document}

/-- Misspellings are found in sources that are there, so they always become reports. -/
theorem yields_mapM_spelling (doc : Document) :
    Yields (fun all => ∀ r ∈ all, r.rule = .spelling) ((spelling doc).mapM (Report.ofDiagnostic doc)) := by
  refine Ends.mapM fun d hd => ?_
  obtain ⟨⟨source, i⟩, hsource, hd⟩ := List.mem_flatMap.mp hd
  obtain ⟨misspelling, -, rfl⟩ := List.mem_map.mp hd
  have hfound : doc.sources[i]? = some source := List.mem_zipIdx_iff_getElem?.mp hsource
  unfold Report.ofDiagnostic
  dsimp only [Diagnostic.ofMisspelling, Location.resolve, bind, Except.bind]
  rw [hfound]
  rfl

/-- No other check complains about spelling. -/
theorem rule_ne_spelling_of_mapM {readers : Readers} {annex : Text} {found : List (Complaint Problem)}
    (h : complaints readers annex doc = .ok found) {all : List Report}
    (hall : (found.map Diagnostic.ofComplaint).mapM (Report.ofDiagnostic doc) = .ok all) :
    ∀ r ∈ all, r.rule ≠ .spelling := by
  intro r hr hrule
  obtain ⟨d, hd, hreport⟩ := exists_of_mapM_eq_ok hall r hr
  obtain ⟨c, hc, rfl⟩ := List.mem_map.mp hd
  have hcheck : c.problem.check = .spelling := by
    rw [← c.problem.check_rule, ← show r.rule = c.problem.rule from Report.rule_of_ofDiagnostic hreport, hrule]
    rfl
  exact check_ne_spelling_of_complaints h c hc hcheck

/-- Without the check of spelling the same is raised, less what is about spelling. -/
theorem raised_without_spelling (readers : Readers) (annex : Text) (doc : Document) :
    raised readers ⟨annex, false⟩ doc =
      (raised readers ⟨annex, true⟩ doc).map (List.filter fun r => r.rule ≠ .spelling) := by
  obtain ⟨misspelt, hmisspelt, hspelling⟩ := (yields_mapM_spelling doc).eq_ok
  unfold raised diagnostics
  cases hcomplaints : complaints readers annex doc with
  | error fault => rfl
  | ok found =>
    dsimp only [bind, Except.bind, pure, Except.pure]
    -- misspellings are raised before all else, and their reports do not fail
    rw [if_neg Bool.false_ne_true, if_pos rfl, List.nil_append, List.mapM_append, hmisspelt]
    cases hothers : (found.map Diagnostic.ofComplaint).mapM (Report.ofDiagnostic doc) with
    | error fault => rfl
    | ok others =>
      have hkept : others.filter (fun r => r.rule ≠ .spelling) = others := by
        refine List.filter_eq_self.mpr fun r hr => decide_eq_true ?_
        exact rule_ne_spelling_of_mapM hcomplaints hothers r hr
      have hdropped : misspelt.filter (fun r => r.rule ≠ .spelling) = [] := by
        refine List.filter_eq_nil_iff.mpr fun r hr => ?_
        rw [hspelling r hr]
        decide
      show Except.ok others = Except.ok ((misspelt ++ others).filter fun r => r.rule ≠ .spelling)
      rw [List.filter_append, hdropped, hkept, List.nil_append]

/-- Without the check of spelling the reports are those with it whose rule is another, in the same order; it
fails when the other fails. With it or without it, reports are in the order of their positions, and at one
position in the order in which their diagnostics were raised. -/
theorem reports_without_spelling (readers : Readers) (annex : Text) (doc : Document) :
    reports readers ⟨annex, false⟩ doc =
        (reports readers ⟨annex, true⟩ doc).map (List.filter fun r => r.rule ≠ .spelling) ∧
      ∀ spelling, Ends (fun fault => raised readers ⟨annex, spelling⟩ doc = .error fault)
        (fun found => ∃ before, raised readers ⟨annex, spelling⟩ doc = .ok before ∧
          Report.IsArrangement before found)
        (reports readers ⟨annex, spelling⟩ doc) := by
  refine ⟨?_, fun spelling => ?_⟩
  · rw [reports_eq_raised, reports_eq_raised, raised_without_spelling]
    cases raised readers ⟨annex, true⟩ doc with
    | error fault => rfl
    | ok all => exact congrArg Except.ok (Report.filter_inOrder _ all).symm
  · rw [reports_eq_raised]
    cases raised readers ⟨annex, spelling⟩ doc with
    | error fault => rfl
    | ok all => exact ⟨all, rfl, Report.isArrangement_inOrder all⟩

end Lint
end Errata
