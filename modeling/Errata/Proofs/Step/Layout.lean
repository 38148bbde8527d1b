import Errata.Document.Basic
import Errata.Proofs.Step.Nesting

/-!
# The layout of an algorithm

An algorithm that can be read is divided among its steps: apart from blanks, each character of the text
belongs to the marker, to the attributes or to the content of one step.
-/

namespace Errata

open Text

/-! ## 1. The lines of one step -/

/-- Lines with the blanks before them. -/
def joined (lines : List Line) : Text := lines.flatMap fun line => line.gap ++ line.text

/-- The first lines of a text stand at its beginning. -/
theorem Lined.split {offset : Nat} {t : Text} {first others : List Line}
    (h : Lined offset t (first ++ others)) :
    (∃ rest, t = joined first ++ rest ∧ Lined (offset + (joined first).size) rest others) ∧
      ∀ line ∈ first, offset ≤ line.start ∧ line.stop ≤ offset + (joined first).size := by
  induction first generalizing offset t with
  | nil => exact ⟨⟨t, rfl, h⟩, by simp⟩
  | cons line first ih =>
    cases h with
    | @line _ _ rest _ hgap hstart hrest =>
      obtain ⟨⟨left, rfl, hleft⟩, hinside⟩ := ih hrest
      have hsize : offset + (joined (line :: first)).size = line.stop + (joined first).size := by
        show offset + size ((line.gap ++ line.text) ++ joined first) = _
        rw [size_append, size_append, Line.stop, hstart]
        omega
      rw [hsize]
      refine ⟨⟨left, ?_, hleft⟩, ?_⟩
      · show _ = (line.gap ++ line.text) ++ joined first ++ left
        simp only [List.append_assoc]
      · have hstop : line.stop = line.start + line.text.size := rfl
        intro l hl
        rcases List.mem_cons.mp hl with rfl | hl
        · omega
        · have := hinside l hl
          omega

namespace Step

/-- A step stands at the beginning of a text, with `gap` before its marker and `between` after it. -/
structure Opens (step : Step) (offset : Nat) (t gap between rest : Text) : Prop where
  text : t = gap ++ (step.marker.text ++ (between ++ (step.content.text ++ rest)))
  blank : gap.AllBlank
  marker : step.marker.offset = offset + gap.size
  attributes : IsAttributePart step.attributes between
  content : step.content.offset = step.marker.stop + between.size

theorem Opens.holds {step : Step} {offset : Nat} {t gap between rest whole : Text}
    (h : step.Opens offset t gap between rest) (ht : whole.Holds offset t) :
    step.marker.In whole ∧ whole.Holds step.marker.stop between ∧ step.content.In whole ∧
      whole.Holds step.content.stop rest := by
  have hmarker : whole.Holds step.marker.offset
      (step.marker.text ++ (between ++ (step.content.text ++ rest))) := by
    rw [h.text] at ht
    rw [h.marker]
    exact ht.right
  have hbetween : whole.Holds step.marker.stop (between ++ (step.content.text ++ rest)) :=
    hmarker.right
  have hcontent : whole.Holds step.content.offset (step.content.text ++ rest) := by
    rw [h.content]
    exact hbetween.right
  exact ⟨hmarker.left, hbetween.left, hcontent.left, hcontent.right⟩

/-- The line of a step and the lines that continue it are the marker, the attributes and the content. -/
theorem opens_of_lined {offset : Nat} {t : Text} {line : Line} {continued others : List Line}
    {head : Head} (h : Lined offset t (line :: (continued ++ others))) (hhead : headOf line = .ok head)
    (id : StepId) (sublist : Option StepList) :
    let step : Step := ⟨id, head.marker, head.attributes, contentOf head continued, sublist⟩
    (∃ gap between rest, step.Opens offset t gap between rest ∧ Lined step.content.stop rest others) ∧
      ∀ l ∈ continued, step.content.offset ≤ l.start ∧ l.stop ≤ step.content.stop := by
  intro step
  obtain ⟨between, hdivides⟩ := divides_headOf hhead
  cases h with
  | @line _ _ rest _ hgap hstart hrest =>
    obtain ⟨⟨rest, rfl, hothers⟩, hinside⟩ := hrest.split
    have hstop : step.content.stop = line.stop + (joined continued).size := by
      show head.content.offset + size (head.content.rest ++ joined continued) = _
      rw [← hdivides.stop, size_append, Nat.add_assoc]
    have hle : step.content.offset ≤ line.stop := by
      rw [← hdivides.stop]
      exact Nat.le_add_right _ _
    refine ⟨⟨line.gap, between, rest, ⟨?_, hgap, ?_, hdivides.attributes, hdivides.content⟩, ?_⟩, ?_⟩
    · show _ = line.gap ++ (head.marker.text ++
        (between ++ ((head.content.rest ++ joined continued) ++ rest)))
      rw [hdivides.text]
      simp only [List.append_assoc]
    · exact hdivides.start.trans hstart
    · rw [hstop]
      exact hothers
    · intro l hl
      have := hinside l hl
      omega

/-- A list that is split before one of its members, where it is also put together from two lists. -/
theorem append_eq_append_cons {α : Type} {first second before after : List α} {a : α}
    (h : first ++ second = before ++ a :: after) :
    (∃ rest, first = before ++ a :: rest) ∨ ∃ rest, before = first ++ rest ∧ second = rest ++ a :: after := by
  rcases List.append_eq_append_iff.mp h with ⟨rest, hbefore, hsecond⟩ | ⟨rest, hfirst, hafter⟩
  · exact .inr ⟨rest, hbefore, hsecond⟩
  · cases rest with
    | nil => exact .inr ⟨[], by simpa using hfirst.symm, hafter.symm⟩
    | cons b rest =>
      cases hafter
      exact .inl ⟨rest, hfirst⟩

/-- A line without a marker is part of the content of the step whose line is the nearest before it. -/
theorem Laid.continued {indent id last : Nat} {lines others : List Line} {steps : List Step}
    (h : Laid indent id lines steps last) (parent : Option StepId) {offset : Nat} {t : Text}
    (ht : Lined offset t (lines ++ others)) {before after : List Line} {l : Line}
    (hlines : lines = before ++ l :: after) (hl : isMarked l = false) :
    ∃ row ∈ rowsOf parent steps, id + (before.filter isMarked).length = row.2.id + 1 ∧
      row.2.content.offset ≤ l.start ∧ l.stop ≤ row.2.content.stop := by
  induction h generalizing parent others offset t before after with
  | nil => simp at hlines
  | @cons id next _ line head _ continued below rest substeps steps hhead hcontinued _ hbelow _ _
      ihBelow ihAfter =>
    rw [List.cons_append, List.append_assoc, List.append_assoc] at ht
    obtain ⟨⟨gap, between, left, -, hleft⟩, hinside⟩ :=
      opens_of_lined ht hhead id (sublistOf substeps)
    rw [rowsOf_cons]
    -- the line continues the first step, or it is one of those below that step, or of those after it
    cases before with
    | nil =>
      obtain ⟨rfl, -⟩ := List.cons_eq_cons.mp hlines
      rw [isMarked_of_headOf hhead] at hl
      cases hl
    | cons first before =>
      obtain ⟨rfl, htail⟩ := List.cons.inj hlines
      rcases append_eq_append_cons htail with ⟨more, rfl⟩ | ⟨before, rfl, hsecond⟩
      · refine ⟨_, List.mem_cons_self, ?_, hinside l (by simp)⟩
        have hfilter := filter_isMarked_cons [] hhead fun k hk => hcontinued k (List.mem_append_left _ hk)
        rw [List.append_nil] at hfilter
        rw [hfilter]
        rfl
      · rw [filter_isMarked_cons before hhead hcontinued]
        rcases append_eq_append_cons hsecond with ⟨more, hmore⟩ | ⟨before, rfl, hafter⟩
        · obtain ⟨row, hrow, hid, hinside⟩ := ihBelow (some id) hleft hmore
          refine ⟨row, by simp [hrow], ?_, hinside⟩
          rw [← hid, List.length_cons]
          omega
        · obtain ⟨⟨left, -, hrest⟩, -⟩ := hleft.split
          obtain ⟨row, hrow, hid, hinside⟩ := ihAfter parent hrest hafter
          refine ⟨row, by simp [hrow], ?_, hinside⟩
          rw [← hid, hbelow.last_eq, List.length_cons, List.filter_append, List.length_append]
          omega

/-! ## 2. Tiling -/

/-- A text that begins at `offset` consists of the given steps with blanks between and after them. -/
inductive Tiled : Nat → Text → List Step → Prop
  | done {offset : Nat} {t : Text} (hblank : t.AllBlank) : Tiled offset t []
  | step {offset : Nat} {t gap between rest : Text} {step : Step} {steps : List Step}
      (hopens : step.Opens offset t gap between rest) (hrest : Tiled step.content.stop rest steps) :
      Tiled offset t (step :: steps)

/-- If the lines after some steps are tiled by further steps, so are all the lines. -/
theorem Laid.tiled {indent id last : Nat} {lines others : List Line} {steps more : List Step}
    (h : Laid indent id lines steps last) (parent : Option StepId)
    (hmore : ∀ offset t, Lined offset t others → Tiled offset t more) {offset : Nat} {t : Text}
    (ht : Lined offset t (lines ++ others)) :
    Tiled offset t ((rowsOf parent steps).map Prod.snd ++ more) := by
  induction h generalizing parent others more offset t with
  | nil => exact hmore offset t ht
  | @cons id _ _ line head _ continued below after substeps steps hhead _ _ _ _ _ ihBelow ihAfter =>
    rw [List.cons_append, List.append_assoc, List.append_assoc] at ht
    obtain ⟨⟨gap, between, rest, hopens, hrest⟩, -⟩ :=
      opens_of_lined ht hhead id (sublistOf substeps)
    rw [rowsOf_cons, List.map_cons, List.map_append, List.cons_append, List.append_assoc]
    -- the steps after this one follow the steps below it
    refine .step hopens (ihBelow (some id) ?_ hrest)
    exact fun offset t ht => ihAfter parent hmore ht

theorem lined_lines_append_nil (t : Text) : Lined 0 t (t.lines ++ []) := by
  rw [List.append_nil]
  exact t.lined_lines

theorem tiled_readAlgorithm {t : Text} {list : StepList} (h : readAlgorithm t = .ok list) :
    Tiled 0 t list.preorder := by
  obtain ⟨indent, last, hlaid, -⟩ := readAlgorithm_laid h
  have hnone : ∀ offset t, Lined offset t [] → Tiled offset t [] := by
    intro offset t ht
    cases ht with
    | done hblank => exact .done hblank
  have htiled := hlaid.tiled none hnone (lined_lines_append_nil t)
  rwa [List.append_nil, ← StepList.rows_eq] at htiled

/-- The marker and the content of each step of a tiling are written where they say, with the attributes
between them. -/
theorem Tiled.holds {offset : Nat} {t whole : Text} {steps : List Step} (h : Tiled offset t steps)
    (ht : whole.Holds offset t) : ∀ step ∈ steps, step.marker.In whole ∧ step.content.In whole ∧
      ∃ between, IsAttributePart step.attributes between ∧
        step.content.offset = step.marker.stop + between.size ∧ whole.Holds step.marker.stop between := by
  induction h with
  | done => simp
  | @step offset t gap between rest first steps hopens hrest ih =>
    obtain ⟨hmarker, hbetween, hcontent, hafter⟩ := hopens.holds ht
    intro step hstep
    rcases List.mem_cons.mp hstep with rfl | hmem
    · exact ⟨hmarker, hcontent, between, hopens.attributes, hopens.content, hbetween⟩
    · exact ih hafter step hmem

/-! ## 3. What each character belongs to -/

def covers (offset : Nat) (span : Span) : Bool := span.start ≤ offset && offset < span.stop

/-- The marker of a step, what stands between it and the content, and the content. -/
def parts (step : Step) : List Span :=
  [⟨step.marker.offset, step.marker.stop⟩, ⟨step.marker.stop, step.content.offset⟩,
    ⟨step.content.offset, step.content.stop⟩]

/-- A step covers what lies between its marker and the end of its content, and covers it once. -/
theorem countP_parts {step : Step} (h : step.marker.stop ≤ step.content.offset) (offset : Nat) :
    step.parts.countP (covers offset) =
      if step.marker.offset ≤ offset ∧ offset < step.content.stop then 1 else 0 := by
  have hmarker : step.marker.offset ≤ step.marker.stop := Nat.le_add_right _ _
  have hcontent : step.content.offset ≤ step.content.stop := Nat.le_add_right _ _
  simp only [parts, List.countP_cons, List.countP_nil, covers, Bool.and_eq_true, decide_eq_true_eq]
  grind

theorem Tiled.countP_eq_zero {start offset : Nat} {t : Text} {steps : List Step}
    (h : Tiled start t steps) (hlt : offset < start) :
    (steps.flatMap parts).countP (covers offset) = 0 := by
  induction h with
  | done => rfl
  | @step start t gap between rest step steps hopens hrest ih =>
    have hmarker := hopens.marker
    have hcontent := hopens.content
    have hstop : step.marker.stop = step.marker.offset + step.marker.text.size := rfl
    have hend : step.content.stop = step.content.offset + step.content.text.size := rfl
    rw [List.flatMap_cons, List.countP_append, ih (by omega), countP_parts (by omega),
      if_neg (by omega)]

/-- Each character that is not blank lies in one part of one step. -/
theorem Tiled.countP_eq_one {start : Nat} {t : Text} {steps : List Step} (h : Tiled start t steps)
    {before after : Text} {c : Char} (ht : t = before ++ c :: after) (hc : isBlank c = false) :
    (steps.flatMap parts).countP (covers (start + before.size)) = 1 := by
  induction h generalizing before with
  | done hblank =>
    have := hblank c (by simp [ht])
    simp [hc] at this
  | @step start t gap between rest step steps hopens hrest ih =>
    have hmarker := hopens.marker
    have hcontent := hopens.content
    have hstop : step.marker.stop = step.marker.offset + step.marker.text.size := rfl
    have hend : step.content.stop = step.content.offset + step.content.text.size := rfl
    have htext := hopens.text.symm.trans ht
    -- the character is in the blanks before the step, in the step, or after it
    rcases append_eq_append_cons htext with ⟨left, hgap⟩ | ⟨before, rfl, hbody⟩
    · have := hopens.blank c (by simp [hgap])
      simp [hc] at this
    have hassoc : (step.marker.text ++ (between ++ step.content.text)) ++ rest = before ++ c :: after := by
      simpa using hbody
    rw [List.flatMap_cons, List.countP_append, countP_parts (by omega)]
    rcases append_eq_append_cons hassoc with ⟨left, hinside⟩ | ⟨before, rfl, hafter⟩
    · have hsize := congrArg size hinside
      simp only [size_append, size_cons] at hsize
      have := c.utf8Size_pos
      rw [if_pos (by rw [size_append]; omega), hrest.countP_eq_zero (by rw [size_append]; omega)]
    · have hoffset : start + size (gap ++ (step.marker.text ++ (between ++ step.content.text) ++ before)) =
          step.content.stop + size before := by
        simp only [size_append]
        omega
      rw [hoffset, if_neg (by omega), ih hafter]

/-! ## 4. The layout -/

/-- The steps of `list` are those of the text `t`, with nothing left out and nothing taken twice. -/
structure IsLayoutOf (t : Text) (list : StepList) : Prop where
  /-- The steps are in the order of the lines that begin with a marker. -/
  markers : list.preorder.map Step.marker = t.lines.filterMap markerOf?
  /-- Steps are numbered in that order. -/
  ids : list.preorder.map Step.id = List.range list.preorder.length
  /-- A step stands under the nearest step before it whose line is indented less. -/
  parents : (list.rows none).map Prod.fst =
    enclosing [] ((t.lines.filter isMarked).map Line.indent)
  uniform : ∀ sub ∈ list.lists, IsUniform t.lines sub
  nonempty : ∀ step ∈ list.preorder, ∀ sub, step.sublist = some sub → sub.steps ≠ []
  /-- A line without a marker is part of the content of the nearest step before it. -/
  continued : ∀ before line after, t.lines = before ++ line :: after → isMarked line = false →
    ∃ step ∈ list.preorder, (before.filter isMarked).length = step.id + 1 ∧
      step.content.offset ≤ line.start ∧ line.stop ≤ step.content.stop
  contents : ∀ step ∈ list.preorder,
    t.slice? step.content.offset step.content.stop = some step.content.text
  /-- Between the marker and the content stand the attributes. -/
  attributes : ∀ step ∈ list.preorder, ∃ between,
    t.slice? step.marker.stop step.content.offset = some between ∧
      IsAttributePart step.attributes between
  /-- Each character that is not blank lies in one part of one step. -/
  covered : ∀ (before : Text) c after, t = before ++ c :: after → isBlank c = false →
    (list.preorder.flatMap parts).countP (covers before.size) = 1

theorem isLayoutOf_readAlgorithm (t : Text) (list : StepList) (h : readAlgorithm t = .ok list) :
    IsLayoutOf t list := by
  obtain ⟨indent, last, hlaid, hlist⟩ := readAlgorithm_laid h
  have hrow : ∀ step ∈ list.preorder, ∃ row ∈ rowsOf none list.steps, row.2 = step := by
    intro step hstep
    rw [StepList.preorder, StepList.rows_eq] at hstep
    exact List.mem_map.mp hstep
  have htiled := tiled_readAlgorithm h
  have hholds := htiled.holds t.holds_self
  refine ⟨?_, ?_, ?_, ?_, ?_, ?_, ?_, ?_, ?_⟩
  · rw [StepList.preorder, StepList.rows_eq, List.map_map]
    exact hlaid.markers none
  · rw [StepList.preorder, StepList.rows_eq, List.map_map, List.length_map, List.range_eq_range']
    exact (hlaid.ids none).1
  · rw [StepList.rows_eq]
    have hnone : ([] : List Nat).length = 0 := rfl
    exact hlaid.parents hnone
  · intro sub hsub
    rcases List.mem_cons.mp hsub with rfl | hsub
    · rw [hlist]
      exact hlaid.isUniform
    · obtain ⟨step, hstep, hsub⟩ := List.mem_filterMap.mp hsub
      obtain ⟨row, hrow, rfl⟩ := hrow step hstep
      exact (hlaid.sublists hrow hsub).2
  · intro step hstep sub hsub
    obtain ⟨row, hrow, rfl⟩ := hrow step hstep
    exact (hlaid.sublists hrow hsub).1
  · intro before line after hlines hline
    obtain ⟨row, hrow, hid, hinside⟩ :=
      hlaid.continued none (lined_lines_append_nil t) hlines hline
    rw [Nat.zero_add] at hid
    refine ⟨row.2, ?_, hid, hinside⟩
    rw [StepList.preorder, StepList.rows_eq]
    exact List.mem_map_of_mem hrow
  · intro step hstep
    exact slice?_of_holds (hholds step hstep).2.1
  · intro step hstep
    obtain ⟨-, -, between, hpart, hcontent, hheld⟩ := hholds step hstep
    refine ⟨between, ?_, hpart⟩
    rw [hcontent]
    exact slice?_of_holds hheld
  · intro before c after ht hc
    have hone := htiled.countP_eq_one ht hc
    rwa [Nat.zero_add] at hone

/-- A list in a list, with attributes and a line that continues a step. -/
theorem isLayoutOf_nested :
    let t := "1. a\n  * [id=\"x\"] b\n      c\n  * d\n2. e".toList
    ∃ list, readAlgorithm t = .ok list ∧ list.preorder.map Step.id = [0, 1, 2, 3] ∧
      IsLayoutOf t list := by
  intro t
  have hread : (readAlgorithm t).toOption.map (·.preorder.map Step.id) = some [0, 1, 2, 3] := by
    decide +kernel
  cases hlist : readAlgorithm t with
  | error e =>
    rw [hlist] at hread
    cases hread
  | ok list =>
    rw [hlist] at hread
    exact ⟨list, rfl, Option.some.inj hread, isLayoutOf_readAlgorithm t list hlist⟩

end Step
end Errata
