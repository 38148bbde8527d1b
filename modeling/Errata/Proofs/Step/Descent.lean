import Errata.Proofs.Step.Head
import Errata.Step.Reader

/-!
# How steps are taken from lines

Reading a list by indentation takes lines off the front, one step after another. The relation `Laid` says
which lines a step takes: its own line, the lines that continue it, and the lines of its substeps.
-/

namespace Errata.Step

/-- The list of the substeps of a step that has the given substeps. -/
def sublistOf : List Step → Option StepList
  | [] => none
  | step :: steps => some (.ofSteps (step :: steps))

/-- The lines are those of the steps of one list with the given indentation, the first of which has the
number `id`. The number after those used is the last argument. -/
inductive Laid : Nat → StepId → List Line → List Step → StepId → Prop
  | nil (indent : Nat) (id : StepId) : Laid indent id [] [] id
  | cons {id next last : StepId} {line : Line} {head : Head} {inner : Nat}
      {continued below after : List Line} {substeps steps : List Step}
      (hhead : headOf line = .ok head)
      (hcontinued : ∀ l ∈ continued, continues line l = true)
      (hinner : line.indent < inner)
      (hbelow : Laid inner (id + 1) below substeps next)
      (hkind : ∀ step ∈ steps, step.kind = head.marker.listKind)
      (hafter : Laid line.indent next after steps last) :
      Laid line.indent id (line :: (continued ++ (below ++ after)))
        (⟨id, head.marker, head.attributes, contentOf head continued, sublistOf substeps⟩ :: steps)
        last

/-! ## 1. One step -/

/-- What is read below a step: nothing, or the list that begins at the first line left. -/
inductive ReadBelow (fuel : Nat) (line : Line) (id : StepId) :
    List Line → Option StepList → List Line → StepId → Prop
  | nothing (lines : List Line) : ReadBelow fuel line id lines none lines id
  | list {first : Line} {others after : List Line} {steps : List Step} {next : StepId}
      (hdeeper : line.indent < first.indent)
      (hread : readList fuel first.indent none id (first :: others) = .ok (steps, after, next)) :
      ReadBelow fuel line id (first :: others) (some (.ofSteps steps)) after next

/-- What is done with a step once the lines below it are read. -/
theorem readAfter_cases {fuel indent : Nat} {kind : Option ListKind} {next last : StepId}
    {after rest : List Line} {step : Step} {steps : List Step} {e : StepError}
    (h : (if kind.any (· ≠ step.kind) then .error e
      else readList fuel indent (some step.kind) next after >>= fun read =>
        .ok (step :: read.1, read.2)) = .ok (steps, rest, last)) :
    kind.all (· = step.kind) = true ∧ ∃ others,
      readList fuel indent (some step.kind) next after = .ok (others, rest, last) ∧
      steps = step :: others := by
  split at h
  · cases h
  · rename_i hkind
    obtain ⟨⟨others, rest, last⟩, hread, h⟩ := bind_eq_ok_iff.mp h
    cases h
    refine ⟨?_, others, hread, rfl⟩
    cases kind with
    | none => rfl
    | some kind => simpa using hkind

/-- Reading a list stops before a line that is indented less, and otherwise takes one step. -/
theorem readList_cases {fuel indent : Nat} {kind : Option ListKind} {id last : StepId} {line : Line}
    {lines rest : List Line} {steps : List Step}
    (h : readList (fuel + 1) indent kind id (line :: lines) = .ok (steps, rest, last)) :
    (line.indent < indent ∧ steps = [] ∧ rest = line :: lines ∧ last = id) ∨
    ∃ head sublist after next others,
      line.indent = indent ∧ headOf line = .ok head ∧
      ReadBelow fuel line (id + 1) (lines.dropWhile (continues line)) sublist after next ∧
      kind.all (· = head.marker.listKind) = true ∧
      readList fuel indent (some head.marker.listKind) next after = .ok (others, rest, last) ∧
      steps = ⟨id, head.marker, head.attributes,
        contentOf head (lines.takeWhile (continues line)), sublist⟩ :: others := by
  rw [readList] at h
  split at h
  · rename_i hless
    cases h
    exact .inl ⟨hless, rfl, rfl, rfl⟩
  · split at h
    · cases h
    · obtain ⟨head, hhead, h⟩ := bind_eq_ok_iff.mp h
      have hindent : line.indent = indent := by omega
      split at h
      · rename_i hnil
        rw [hnil]
        obtain ⟨hkind, others, hread, hsteps⟩ := readAfter_cases h
        exact .inr ⟨head, _, _, _, others, hindent, hhead, .nothing _, hkind, hread, hsteps⟩
      · rename_i first more hlines
        rw [hlines]
        split at h
        · rename_i hdeeper
          obtain ⟨⟨substeps, after, next⟩, hbelow, h⟩ := bind_eq_ok_iff.mp h
          obtain ⟨hkind, others, hread, hsteps⟩ := readAfter_cases h
          exact .inr ⟨head, _, _, _, others, hindent, hhead, .list hdeeper hbelow, hkind, hread,
            hsteps⟩
        · obtain ⟨hkind, others, hread, hsteps⟩ := readAfter_cases h
          exact .inr ⟨head, _, _, _, others, hindent, hhead, .nothing _, hkind, hread, hsteps⟩

/-! ## 2. A whole list -/

theorem Laid.lines_eq_nil {indent : Nat} {id last : StepId} {lines : List Line}
    (h : Laid indent id lines [] last) : lines = [] := by
  cases h
  rfl

theorem sublistOf_of_ne_nil {steps : List Step} (h : steps ≠ []) :
    sublistOf steps = some (.ofSteps steps) := by
  cases steps with
  | nil => exact absurd rfl h
  | cons step steps => rfl

/-- Reading a list took lines off the front and stopped before a line that is indented less. -/
structure Taken (indent : Nat) (kind : Option ListKind) (id : StepId) (lines : List Line)
    (steps : List Step) (rest : List Line) (last : StepId) : Prop where
  laid : ∃ taken, lines = taken ++ rest ∧ Laid indent id taken steps last
  kinds : ∀ step ∈ steps, kind.all (· = step.kind) = true
  stops : ∀ line ∈ rest.head?, line.indent < indent

theorem taken_nil (indent : Nat) (kind : Option ListKind) (id : StepId) {rest : List Line}
    (hstops : ∀ line ∈ rest.head?, line.indent < indent) : Taken indent kind id rest [] rest id :=
  ⟨⟨[], rfl, .nil indent id⟩, by simp, hstops⟩

/-- A list below a step has steps, since its first line is not indented less than the list. -/
theorem ReadBelow.laid {fuel : Nat} {line : Line} {id next : StepId} {lines after : List Line}
    {sublist : Option StepList} (h : ReadBelow fuel line id lines sublist after next)
    (hlist : ∀ {indent steps}, readList fuel indent none id lines = .ok (steps, after, next) →
      Taken indent none id lines steps after next) :
    ∃ inner below substeps, line.indent < inner ∧ lines = below ++ after ∧
      Laid inner id below substeps next ∧ sublist = sublistOf substeps := by
  cases h with
  | nothing => exact ⟨line.indent + 1, [], [], by omega, rfl, .nil _ _, rfl⟩
  | @list first others _ substeps _ hdeeper hread =>
    obtain ⟨⟨below, hlines, hlaid⟩, -, hstops⟩ := hlist hread
    refine ⟨first.indent, below, substeps, hdeeper, hlines, hlaid, ?_⟩
    refine (sublistOf_of_ne_nil ?_).symm
    rintro rfl
    rw [hlaid.lines_eq_nil, List.nil_append] at hlines
    have hless := hstops first (by rw [← hlines]; rfl)
    omega

theorem readList_taken {fuel indent : Nat} {kind : Option ListKind} {id last : StepId}
    {lines rest : List Line} {steps : List Step}
    (h : readList fuel indent kind id lines = .ok (steps, rest, last)) (hfuel : lines.length ≤ fuel) :
    Taken indent kind id lines steps rest last := by
  induction fuel generalizing indent kind id lines steps rest last with
  | zero =>
    have hnil : lines = [] := List.eq_nil_of_length_eq_zero (by omega)
    subst hnil
    cases h
    exact taken_nil indent kind id (by simp)
  | succ fuel ih =>
    cases lines with
    | nil =>
      cases h
      exact taken_nil indent kind id (by simp)
    | cons line lines =>
      have hlength : lines.length ≤ fuel := by
        rw [List.length_cons] at hfuel
        omega
      obtain ⟨hless, rfl, rfl, rfl⟩ |
        ⟨head, sublist, after, next, others, rfl, hhead, hbelow, hkind, hread, rfl⟩ := readList_cases h
      · exact taken_nil indent kind _ (by simpa using hless)
      · have hdrop : (lines.dropWhile (continues line)).length ≤ fuel :=
          (List.dropWhile_suffix _).length_le.trans hlength
        obtain ⟨inner, below, substeps, hinner, hlines, hlaid, rfl⟩ :=
          hbelow.laid fun hread => ih hread hdrop
        have hafter : after.length ≤ fuel := by
          rw [hlines, List.length_append] at hdrop
          omega
        obtain ⟨⟨taken, rfl, hothers⟩, hsame, hstops⟩ := ih hread hafter
        have hsplit : lines = lines.takeWhile (continues line) ++ (below ++ (taken ++ rest)) := by
          rw [← hlines, List.takeWhile_append_dropWhile]
        have hkinds : ∀ step ∈ others, step.kind = head.marker.listKind := by
          intro step hstep
          simpa [eq_comm] using hsame step hstep
        refine ⟨⟨line :: (lines.takeWhile (continues line) ++ (below ++ taken)), ?_, ?_⟩, ?_, hstops⟩
        · rw [List.cons_append, List.append_assoc, List.append_assoc, ← hsplit]
        · exact .cons hhead (fun l hl => List.mem_takeWhile_imp hl) hinner hlaid hkinds hothers
        · intro step hstep
          rcases List.mem_cons.mp hstep with rfl | hmem
          · exact hkind
          · rw [hkinds step hmem]
            exact hkind

theorem readAlgorithm_laid {t : Text} {list : StepList} (h : readAlgorithm t = .ok list) :
    ∃ indent last, Laid indent 0 t.lines list.steps last ∧ list = .ofSteps list.steps := by
  rw [readAlgorithm] at h
  split at h
  · rename_i hnil
    cases h
    rw [hnil]
    exact ⟨0, 0, .nil 0 0, rfl⟩
  · rename_i first lines hlines
    obtain ⟨⟨steps, rest, last⟩, hread, h⟩ := bind_eq_ok_iff.mp h
    obtain ⟨⟨taken, htaken, hlaid⟩, -, -⟩ := readList_taken hread (Nat.le_refl _)
    cases rest with
    | nil =>
      cases h
      rw [List.append_nil] at htaken
      rw [hlines, htaken]
      exact ⟨first.indent, last, hlaid, rfl⟩
    | cons line rest => cases h

end Errata.Step
