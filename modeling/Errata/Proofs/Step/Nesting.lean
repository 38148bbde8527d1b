import Errata.Proofs.Step.Descent

/-!
# The tree of steps and the indentation of its lines

The steps of an algorithm in the order of the text, each with the step it stands under. They correspond to
the lines that begin with a marker, and the step above a step is found from the indentation alone.
-/

namespace Errata

/-! ## 1. Steps in order -/

mutual

/-- A step and the steps below it in the order of the text, each with the number of the step above it. -/
def Step.rows (parent : Option StepId) : Step → List (Option StepId × Step)
  | ⟨id, marker, attributes, content, sublist⟩ =>
    (parent, ⟨id, marker, attributes, content, sublist⟩) :: Step.rowsBelow (some id) sublist

def Step.rowsBelow (parent : Option StepId) : Option StepList → List (Option StepId × Step)
  | none => []
  | some list => StepList.rows parent list

def StepList.rows (parent : Option StepId) : StepList → List (Option StepId × Step)
  | ⟨_, steps⟩ => Step.rowsOf parent steps

def Step.rowsOf (parent : Option StepId) : List Step → List (Option StepId × Step)
  | [] => []
  | step :: steps => step.rows parent ++ Step.rowsOf parent steps

end

/-- All steps in the order of the text. -/
def StepList.preorder (list : StepList) : List Step := (list.rows none).map Prod.snd

/-- A list and all lists below it. -/
def StepList.lists (list : StepList) : List StepList :=
  list :: list.preorder.filterMap Step.sublist

theorem StepList.rows_eq (parent : Option StepId) (list : StepList) :
    list.rows parent = Step.rowsOf parent list.steps := by
  cases list
  rfl

namespace Step

theorem rowsBelow_sublistOf (parent : Option StepId) (steps : List Step) :
    rowsBelow parent (sublistOf steps) = rowsOf parent steps := by
  cases steps with
  | nil => rfl
  | cons step steps => rfl

theorem rowsOf_cons (parent : Option StepId) (id : StepId) (marker : Fragment)
    (attributes : List StepAttribute) (content : Fragment) (substeps steps : List Step) :
    rowsOf parent (⟨id, marker, attributes, content, sublistOf substeps⟩ :: steps) =
      (parent, ⟨id, marker, attributes, content, sublistOf substeps⟩) ::
        (rowsOf (some id) substeps ++ rowsOf parent steps) := by
  rw [rowsOf, rows, rowsBelow_sublistOf, List.cons_append]

/-! ## 2. Numbers and markers -/

/-- The numbers of the steps follow each other in the order of the text. -/
theorem Laid.ids {indent id last : Nat} {lines : List Line} {steps : List Step}
    (h : Laid indent id lines steps last) (parent : Option StepId) :
    (rowsOf parent steps).map (·.2.id) = List.range' id (rowsOf parent steps).length ∧
      last = id + (rowsOf parent steps).length := by
  induction h generalizing parent with
  | nil => exact ⟨rfl, rfl⟩
  | @cons id next last line head inner continued below after substeps steps _ _ _ _ _ _ ihBelow
      ihAfter =>
    obtain ⟨hbelow, rfl⟩ := ihBelow (some id)
    obtain ⟨hafter, rfl⟩ := ihAfter parent
    rw [rowsOf_cons, List.map_cons, List.map_append, hbelow, hafter, List.length_cons,
      List.length_append, List.range'_succ, ← List.range'_append_1]
    exact ⟨rfl, by omega⟩

theorem isMarked_of_headOf {line : Line} {head : Head} (h : headOf line = .ok head) :
    isMarked line = true := by
  obtain ⟨between, hdivides⟩ := divides_headOf h
  rw [← isSome_markerOf?, hdivides.marker]
  rfl

theorem not_isMarked_of_continues {line next : Line} (h : continues line next = true) :
    isMarked next = false := by
  simp only [continues, Bool.and_eq_true, Bool.not_eq_true'] at h
  exact h.2

theorem filter_isMarked_cons {line : Line} {head : Head} {continued : List Line} (others : List Line)
    (hhead : headOf line = .ok head) (hcontinued : ∀ l ∈ continued, continues line l = true) :
    (line :: (continued ++ others)).filter isMarked = line :: others.filter isMarked := by
  have hnone : continued.filter isMarked = [] := by
    rw [List.filter_eq_nil_iff]
    intro l hl
    rw [not_isMarked_of_continues (hcontinued l hl)]
    exact Bool.false_ne_true
  rw [List.filter_cons_of_pos (isMarked_of_headOf hhead), List.filter_append, hnone,
    List.nil_append]

/-- Steps correspond to the lines that begin with a marker. -/
theorem Laid.markers {indent id last : Nat} {lines : List Line} {steps : List Step}
    (h : Laid indent id lines steps last) (parent : Option StepId) :
    (rowsOf parent steps).map (·.2.marker) = lines.filterMap markerOf? := by
  induction h generalizing parent with
  | nil => rfl
  | @cons id next last line head inner continued below after substeps steps hhead hcontinued _ _ _ _
      ihBelow ihAfter =>
    obtain ⟨between, hdivides⟩ := divides_headOf hhead
    have hnone : continued.filterMap markerOf? = [] := by
      rw [List.filterMap_eq_nil_iff]
      intro l hl
      rw [← Option.isNone_iff_eq_none, ← Option.not_isSome, isSome_markerOf?,
        not_isMarked_of_continues (hcontinued l hl)]
      rfl
    rw [rowsOf_cons, List.map_cons, List.map_append, ihBelow, ihAfter,
      List.filterMap_cons_some hdivides.marker, List.filterMap_append, List.filterMap_append, hnone,
      List.nil_append]

/-- As many numbers are used as there are lines that begin with a marker. -/
theorem Laid.last_eq {indent id last : Nat} {lines : List Line} {steps : List Step}
    (h : Laid indent id lines steps last) : last = id + (lines.filter isMarked).length := by
  have hlength := congrArg List.length (h.markers none)
  rw [List.length_map, List.length_filterMap_eq_countP] at hlength
  simp only [isSome_markerOf?] at hlength
  rw [(h.ids none).2, hlength, List.countP_eq_length_filter]

/-! ## 3. Indentation -/

/-- The place of the last line that is indented less, among lines that are given last first. -/
def lastBelow (indent : Nat) : List Nat → Option Nat
  | [] => none
  | above :: before => if above < indent then some before.length else lastBelow indent before

/-- For each line the place of the nearest line before it that is indented less. The lines are given by
their indentations, and those before the first of them last first. -/
def enclosing (before : List Nat) : List Nat → List (Option Nat)
  | [] => []
  | indent :: indents => lastBelow indent before :: enclosing (indent :: before) indents

theorem enclosing_append (before first second : List Nat) :
    enclosing before (first ++ second) =
      enclosing before first ++ enclosing (first.reverse ++ before) second := by
  induction first generalizing before with
  | nil => rfl
  | cons indent first ih =>
    rw [List.cons_append, enclosing, enclosing, ih, List.reverse_cons, List.append_assoc]
    rfl

theorem lastBelow_append {indent : Nat} {deeper : List Nat} (h : ∀ n ∈ deeper, indent ≤ n)
    (before : List Nat) : lastBelow indent (deeper ++ before) = lastBelow indent before := by
  induction deeper with
  | nil => rfl
  | cons n deeper ih =>
    have hn : ¬ n < indent := Nat.not_lt.mpr (h n List.mem_cons_self)
    rw [List.cons_append, lastBelow, if_neg hn]
    exact ih fun m hm => h m (List.mem_cons_of_mem n hm)

theorem Laid.indent_le {indent : Nat} {id last : StepId} {lines : List Line} {steps : List Step}
    (h : Laid indent id lines steps last) : ∀ line ∈ lines, indent ≤ line.indent := by
  induction h with
  | nil => simp
  | @cons _ _ _ line _ inner continued below after _ _ _ hcontinued hinner _ _ _ ihBelow ihAfter =>
    intro l hl
    rcases List.mem_cons.mp hl with rfl | hl
    · exact Nat.le_refl _
    rcases List.mem_append.mp hl with hl | hl
    · have h := hcontinued l hl
      simp only [continues, Bool.and_eq_true, decide_eq_true_eq] at h
      omega
    rcases List.mem_append.mp hl with hl | hl
    · have := ihBelow l hl
      omega
    · exact ihAfter l hl

/-- The step above a step is the one whose line is the nearest before that is indented less. -/
theorem Laid.parents {indent : Nat} {id last : StepId} {lines : List Line} {steps : List Step}
    (h : Laid indent id lines steps last) {before : List Nat} (hbefore : before.length = id) :
    (rowsOf (lastBelow indent before) steps).map Prod.fst =
      enclosing before ((lines.filter isMarked).map Line.indent) := by
  induction h generalizing before with
  | nil => rfl
  | @cons id next last line head inner continued below after substeps steps hhead hcontinued hinner
      hbelow _ _ ihBelow ihAfter =>
    rw [rowsOf_cons, filter_isMarked_cons _ hhead hcontinued]
    -- directly below the step its own line is the nearest that is indented less
    have hinside : lastBelow inner (line.indent :: before) = some id := by
      rw [lastBelow, if_pos hinner, hbefore]
    have hlength : (line.indent :: before).length = id + 1 := by
      rw [List.length_cons, hbefore]
    have hsub := ihBelow hlength
    rw [hinside] at hsub
    -- after it the lines below it and its own line are passed over
    let passed := ((below.filter isMarked).map Line.indent).reverse ++ [line.indent]
    have hdeep : ∀ n ∈ passed, line.indent ≤ n := by
      intro n hn
      rcases List.mem_append.mp hn with hn | hn
      · obtain ⟨l, hl, rfl⟩ := List.mem_map.mp (List.mem_reverse.mp hn)
        have := hbelow.indent_le l (List.mem_filter.mp hl).1
        omega
      · rw [List.mem_singleton.mp hn]
    have hpassed : passed ++ before =
        ((below.filter isMarked).map Line.indent).reverse ++ line.indent :: before :=
      List.append_assoc _ _ _
    have hnext : (passed ++ before).length = next := by
      rw [hbelow.last_eq, ← hbefore]
      simp only [passed, List.length_append, List.length_reverse, List.length_map,
        List.length_singleton]
      omega
    have hrest := ihAfter hnext
    rw [lastBelow_append hdeep, hpassed] at hrest
    rw [List.map_cons, List.map_append, hsub, hrest, List.map_cons, enclosing, List.filter_append,
      List.map_append, enclosing_append]

/-! ## 4. Lists -/

/-- The steps of the list begin lines with one indentation, and they have markers of one kind. -/
def IsUniform (lines : List Line) (list : StepList) : Prop :=
  ∃ indent, ∀ step ∈ list.steps, step.kind = list.kind ∧
    ∃ line ∈ lines, markerOf? line = some step.marker ∧ line.indent = indent

theorem IsUniform.mono {lines more : List Line} {list : StepList} (h : IsUniform lines list)
    (hsub : lines ⊆ more) : IsUniform more list := by
  obtain ⟨indent, h⟩ := h
  refine ⟨indent, fun step hstep => ⟨(h step hstep).1, ?_⟩⟩
  obtain ⟨line, hline, hmarker⟩ := (h step hstep).2
  exact ⟨line, hsub hline, hmarker⟩

theorem Laid.line_of_mem {indent id last : Nat} {lines : List Line} {steps : List Step}
    (h : Laid indent id lines steps last) {step : Step} (hstep : step ∈ steps) :
    ∃ line ∈ lines, markerOf? line = some step.marker ∧ line.indent = indent := by
  induction h with
  | nil => exact absurd hstep List.not_mem_nil
  | @cons _ _ _ line head _ _ _ _ _ _ hhead _ _ _ _ _ _ ihAfter =>
    rcases List.mem_cons.mp hstep with rfl | hmem
    · obtain ⟨between, hdivides⟩ := divides_headOf hhead
      exact ⟨line, List.mem_cons_self, hdivides.marker, rfl⟩
    · obtain ⟨l, hl, hmarker⟩ := ihAfter hmem
      exact ⟨l, by simp [hl], hmarker⟩

theorem Laid.kind_of_mem {indent id last : Nat} {lines : List Line} {steps : List Step}
    (h : Laid indent id lines steps last) {step : Step} (hstep : step ∈ steps) :
    step.kind = (StepList.ofSteps steps).kind := by
  cases h with
  | nil => exact absurd hstep List.not_mem_nil
  | cons _ _ _ _ hkind _ =>
    rcases List.mem_cons.mp hstep with rfl | hmem
    · rfl
    · exact hkind step hmem

theorem Laid.isUniform {indent id last : Nat} {lines : List Line} {steps : List Step}
    (h : Laid indent id lines steps last) : IsUniform lines (.ofSteps steps) :=
  ⟨indent, fun _ hstep => ⟨h.kind_of_mem hstep, h.line_of_mem hstep⟩⟩

/-- Each list below a step is uniform and has steps. -/
theorem Laid.sublists {indent id last : Nat} {lines : List Line} {steps : List Step}
    (h : Laid indent id lines steps last) {parent : Option StepId} {row : Option StepId × Step}
    (hrow : row ∈ rowsOf parent steps) {sub : StepList} (hsub : row.2.sublist = some sub) :
    sub.steps ≠ [] ∧ IsUniform lines sub := by
  induction h generalizing parent with
  | nil => exact absurd hrow List.not_mem_nil
  | @cons id _ _ line head _ continued below after substeps steps _ _ _ hbelow _ _ ihBelow ihAfter =>
    have hbelowSub : below ⊆ line :: (continued ++ (below ++ after)) := by
      intro l hl
      simp [hl]
    have hafterSub : after ⊆ line :: (continued ++ (below ++ after)) := by
      intro l hl
      simp [hl]
    rw [rowsOf_cons] at hrow
    rcases List.mem_cons.mp hrow with rfl | hrow
    · have hlist : sublistOf substeps = some sub := hsub
      cases substeps with
      | nil => cases hlist
      | cons step substeps =>
        cases hlist
        exact ⟨List.cons_ne_nil _ _, hbelow.isUniform.mono hbelowSub⟩
    rcases List.mem_append.mp hrow with hrow | hrow
    · obtain ⟨hne, huniform⟩ := ihBelow hrow
      exact ⟨hne, huniform.mono hbelowSub⟩
    · obtain ⟨hne, huniform⟩ := ihAfter hrow
      exact ⟨hne, huniform.mono hafterSub⟩

end Step
end Errata
