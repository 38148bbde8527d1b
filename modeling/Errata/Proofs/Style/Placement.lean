import Errata.Proofs.Finding
import Errata.Proofs.Step.Placement
import Errata.Style.Check

/-!
# Where problems of form are found

Each finding about the form of a step is at a position of the text of the algorithm.
-/

namespace Errata

open Text

namespace Style

variable {t : Text}

/-! ## 1. Lines -/

theorem foundIn_require {ok : Bool} {fault : LineFault} {offset : Nat} (h : t.IsPosition offset) :
    FoundIn t (require ok fault offset) := by
  unfold require
  split
  · exact foundIn_nil t
  · exact foundIn_singleton h

theorem foundIn_checkConditional {s : Shape} (h : s.content.In t) :
    FoundIn t (checkConditional s) := by
  have hstop := h.isPosition_stop
  unfold checkConditional
  dsimp only
  split
  · split
    · exact foundIn_require hstop
    · exact foundIn_require hstop
  · exact foundIn_require hstop
  · refine (foundIn_require hstop).append ?_
    split
    · rename_i n hn
      exact foundIn_singleton (Text.Holds.isPosition h (isPosition_size_take _ n))
    · exact foundIn_nil t

theorem foundIn_checkAlternative {s : Shape} (h : s.content.In t) :
    FoundIn t (checkAlternative s) := by
  unfold checkAlternative
  split
  · exact foundIn_require h.isPosition_stop
  · exact foundIn_require h.isPosition_stop

theorem foundIn_checkRepetition {s : Shape} (h : s.content.In t) :
    FoundIn t (checkRepetition s) :=
  ((foundIn_require h.isPosition).append (foundIn_require h.isPosition)).append
    (foundIn_require h.isPosition_stop)

theorem foundIn_checkForEach {s : Shape} (h : s.content.In t) : FoundIn t (checkForEach s) := by
  unfold checkForEach
  split
  · exact foundIn_require h.isPosition_stop
  · exact foundIn_require h.isPosition_stop

theorem foundIn_checkFreeform {s : Shape} (h : s.content.In t) : FoundIn t (checkFreeform s) := by
  refine ((foundIn_require h.isPosition).append (foundIn_require h.isPosition)).append ?_
  split
  · exact foundIn_require h.isPosition_stop
  · exact foundIn_require h.isPosition_stop

theorem foundIn_checkFigure {content : Fragment} (h : content.In t) :
    FoundIn t (checkFigure content) := by
  unfold checkFigure
  split
  · exact foundIn_nil t
  · rename_i n hn
    apply foundIn_require
    -- what stands before the figure loses only blanks at its end
    have htrim := (trimEnd_append (content.text.take n)).1
    have hheld : content.text.Holds 0 (content.text.take n ++ content.text.drop n) := by
      rw [List.take_append_drop]
      exact content.text.holds_self
    have hbefore := hheld.left
    rw [← htrim] at hbefore
    have hstop := hbefore.left.stop
    rw [Nat.zero_add] at hstop
    exact Text.Holds.isPosition h hstop

theorem foundIn_checkLine {step : Step} (h : step.content.In t) (items : Expression) :
    FoundIn t (checkLine step items) := by
  unfold checkLine
  dsimp only
  split
  · exact foundIn_singleton h.isPosition
  split
  · exact foundIn_require h.isPosition_stop
  split
  · exact foundIn_checkFigure h
  split
  · exact foundIn_checkConditional h
  · exact foundIn_checkAlternative h
  · exact foundIn_checkRepetition h
  · exact foundIn_checkForEach h
  · exact foundIn_checkFreeform h

/-! ## 2. Steps -/

theorem foundIn_checkNumber {step : Step} (h : step.marker.In t) (kind : ListKind) :
    FoundIn t (checkNumber kind step) := by
  unfold checkNumber
  split
  · exact foundIn_singleton h.isPosition
  · exact foundIn_nil t

theorem foundIn_checkAttribute {a : StepAttribute} (h : Step.AttributeIn t a) :
    FoundIn t (checkAttribute a) := by
  unfold checkAttribute
  split
  · exact foundIn_singleton h.1.isPosition
  split
  · exact foundIn_singleton h.2.isPosition
  · exact foundIn_nil t

theorem foundIn_checkEnums {items : Expression} (h : Expression.Placed t items) :
    FoundIn t (checkEnums items) := by
  intro f hf
  obtain ⟨token, htoken, rfl⟩ := List.mem_map.mp hf
  exact (h.leaves token (List.mem_filter.mp htoken).1).isPosition

theorem foundIn_checkLoop {items : Expression} (h : Expression.Placed t items) :
    FoundIn t (checkLoop items) := by
  unfold checkLoop
  split
  · rename_i first token rest
    split
    · have hitem := h.mem (.leaf .var token) (by simp)
      exact foundIn_singleton (hitem.var rfl).isPosition
    · exact foundIn_nil t
  · exact foundIn_nil t

theorem foundIn_checkElse {step next : Step} (h : next.content.In t)
    (items following : Expression) : FoundIn t (checkElse step items next following) := by
  unfold checkElse
  split
  · exact foundIn_singleton h.isPosition
  · exact foundIn_nil t

theorem foundIn_checkStep {cache : Cache} (hcache : ∀ entry ∈ cache, Expression.Placed t entry.2)
    (kind : ListKind) {step : Step} (hstep : step.Placed t) {next : Option Step}
    (hnext : ∀ s, next = some s → s.Placed t) : FoundIn t (checkStep cache kind step next) := by
  have hattributes : FoundIn t (step.attributes.flatMap checkAttribute) := by
    intro f hf
    obtain ⟨a, ha, hf⟩ := List.mem_flatMap.mp hf
    exact foundIn_checkAttribute (hstep.attributes a ha) f hf
  unfold checkStep
  refine ((foundIn_checkNumber hstep.marker kind).append hattributes).append ?_
  split
  · exact foundIn_nil t
  · rename_i items hitems
    have hplaced := Cache.placed_get? hcache hitems
    refine ((FoundIn.append ?_ (foundIn_checkEnums hplaced)).append
      (foundIn_checkLoop hplaced)).append ?_
    · split
      · exact foundIn_checkLine hstep.content items
      · exact foundIn_nil t
    · split
      · exact foundIn_nil t
      · rename_i following
        split
        · exact foundIn_nil t
        · exact foundIn_checkElse (hnext following rfl).content _ _

/-! ## 3. Lists -/

theorem foundIn_checkSteps {cache : Cache} (hcache : ∀ entry ∈ cache, Expression.Placed t entry.2)
    (kind : ListKind) {steps : List Step}
    (h : ∀ step ∈ steps, step.Placed t ∧ FoundIn t (checkBelow cache step)) :
    FoundIn t (checkSteps cache kind steps) := by
  induction steps with
  | nil => exact foundIn_nil t
  | cons step steps ih =>
    obtain ⟨⟨hstep, hbelow⟩, hsteps⟩ := List.forall_mem_cons.mp h
    rw [checkSteps]
    refine ((foundIn_checkStep hcache kind hstep fun next hnext => ?_).append hbelow).append
      (ih hsteps)
    exact (hsteps next (List.mem_of_head? hnext)).1

theorem foundIn_checkBelow {cache : Cache} (hcache : ∀ entry ∈ cache, Expression.Placed t entry.2)
    {step : Step} (h : step.Everywhere (Step.Placed t)) : FoundIn t (checkBelow cache step) := by
  induction h with
  | @intro step here below ih =>
    obtain ⟨id, marker, attributes, content, sublist⟩ := step
    cases sublist with
    | none => exact foundIn_nil t
    | some list =>
      obtain ⟨kind, steps⟩ := list
      exact foundIn_checkSteps hcache kind fun s hs =>
        ⟨(below ⟨kind, steps⟩ rfl s hs).here, ih ⟨kind, steps⟩ rfl s hs⟩

theorem foundIn_checkList {cache : Cache} (hcache : ∀ entry ∈ cache, Expression.Placed t entry.2)
    {list : StepList} (h : ∀ step ∈ list.steps, step.Everywhere (Step.Placed t)) :
    FoundIn t (checkList cache list) := by
  obtain ⟨kind, steps⟩ := list
  exact foundIn_checkSteps hcache kind fun step hstep =>
    ⟨(h step hstep).here, foundIn_checkBelow hcache (h step hstep)⟩

end Style

end Errata
