import Errata.Proofs.Step.Indentation

/-!
# Which texts are algorithms

Reading the steps of a text succeeds exactly if its lines are well laid out. That is a matter of the lines
alone: where each of them is indented and how it begins. Between the two stands a reader that looks at one
line after the other and knows only which levels are open.
-/

namespace Errata.Step

/-! ## 1. Which texts are well laid out -/

def level? (line : Line) : Option Level :=
  (markerOf? line).map fun marker => ⟨line.indent, marker.listKind⟩

/-- The levels of the lines that begin with a marker. -/
def levels (lines : List Line) : List Level := lines.filterMap level?

/-- Attributes that begin after the marker of a line can be read. -/
def HasReadableAttributes (line : Line) : Prop :=
  ∀ n, marker? line.text = some n →
    let body := ((Cursor.atStart line.text line.start).advance n).skipBlanks
    hasAttributes body.rest = true → ∃ read, attributesAt (body.advance 1) = .ok read

/-- The lines can be read as a list of steps. -/
structure IsWellLaid (lines : List Line) : Prop where
  /-- The first line begins with a marker. -/
  first : ∀ line ∈ lines.head?, isMarked line = true
  /-- A line without a marker is indented more than the nearest line before it that has one. -/
  continued : ∀ before line after, lines = before ++ line :: after → isMarked line = false →
    ∀ level ∈ (levels before).getLast?, level.indent < line.indent
  /-- A line with a marker is indented more than the one before it, or just as much as that one or as a
  line above that one. -/
  opened : ∀ i (hi : i + 1 < (levels lines).length),
    (levels lines)[i].indent < (levels lines)[i + 1].indent ∨
      ∃ k, ∃ hk : k < (levels lines).length,
        LeadsUp (levels lines) i k ∧
          (levels lines)[k].indent = (levels lines)[i + 1].indent
  /-- Lines that have the same line above them have markers of one kind. -/
  siblings : ∀ i j (hi : i < (levels lines).length) (hj : j < (levels lines).length),
    above? (levels lines) i = above? (levels lines) j → (levels lines)[i].kind = (levels lines)[j].kind
  attributes : ∀ line ∈ lines, HasReadableAttributes line

/-! ## 2. Reading line by line -/

/-- The lines can be read one after the other where the given levels are open. -/
def Accepts (opened : List Level) : List Line → Prop
  | [] => True
  | line :: lines =>
    match level? line with
    | some level => Fits opened level ∧ (∃ head, headOf line = .ok head) ∧ Accepts (enter opened level) lines
    | none => (opened ≠ [] ∧ ∀ other ∈ opened, other.indent < line.indent) ∧ Accepts opened lines

theorem accepts_marked {opened : List Level} {line : Line} {lines : List Line} {level : Level}
    (h : level? line = some level) : Accepts opened (line :: lines) ↔
      Fits opened level ∧ (∃ head, headOf line = .ok head) ∧ Accepts (enter opened level) lines := by
  rw [Accepts, h]

theorem accepts_unmarked {opened : List Level} {line : Line} {lines : List Line}
    (h : level? line = none) : Accepts opened (line :: lines) ↔
      (opened ≠ [] ∧ ∀ other ∈ opened, other.indent < line.indent) ∧ Accepts opened lines := by
  rw [Accepts, h]

theorem isSome_level? (line : Line) : (level? line).isSome = isMarked line :=
  Option.isSome_map.trans (isSome_markerOf? line)

theorem level?_eq_none_iff {line : Line} : level? line = none ↔ isMarked line = false := by
  rw [← isSome_level?, Option.isSome_eq_false_iff, Option.isNone_iff_eq_none]

theorem indent_of_level? {line : Line} {level : Level} (h : level? line = some level) :
    level.indent = line.indent := by
  obtain ⟨marker, -, rfl⟩ := Option.map_eq_some_iff.mp h
  rfl

theorem level?_of_headOf {line : Line} {head : Head} (h : headOf line = .ok head) :
    level? line = some ⟨line.indent, head.marker.listKind⟩ := by
  obtain ⟨between, hdivides⟩ := divides_headOf h
  rw [level?, hdivides.marker]
  rfl

/-! ## 3. Lists -/

/-- What is left of the lines below a step, and the next number, once the list that they may begin with
has been read. -/
def LeftBelow (fuel : Nat) (line : Line) (id : StepId) (lines after : List Line) (next : StepId) : Prop :=
  match lines with
  | [] => after = [] ∧ next = id
  | first :: others =>
    if line.indent < first.indent then
      ∃ steps, readList fuel first.indent none id (first :: others) = .ok (steps, after, next)
    else after = first :: others ∧ next = id

theorem readAfter_eq_ok_iff {fuel indent : Nat} {kind : ListKind} {next : StepId}
    {after rest : List Line} {step : Step} {e : StepError} :
    (∃ steps last, (if (some kind).any (· ≠ step.kind) then .error e
      else readList fuel indent (some step.kind) next after >>= fun read =>
        .ok (step :: read.1, read.2)) = .ok (steps, rest, last)) ↔
      kind = step.kind ∧ ∃ steps last,
        readList fuel indent (some kind) next after = .ok (steps, rest, last) := by
  constructor
  · rintro ⟨steps, last, h⟩
    obtain ⟨hkind, others, hread, -⟩ := readAfter_cases h
    have heq : kind = step.kind := by simpa using hkind
    exact ⟨heq, others, last, heq ▸ hread⟩
  · rintro ⟨rfl, steps, last, hread⟩
    refine ⟨step :: steps, last, ?_⟩
    rw [if_neg (by simp), hread]
    rfl

/-- A list goes on with a step if the line of the step can be read, its marker is of the kind of the list,
and the lines below it and after it can be read. -/
theorem readList_eq_ok_iff {fuel : Nat} {kind : ListKind} {id : StepId} {line : Line}
    {lines rest : List Line} :
    (∃ steps last, readList (fuel + 1) line.indent (some kind) id (line :: lines) =
      .ok (steps, rest, last)) ↔
    ∃ head, headOf line = .ok head ∧ kind = head.marker.listKind ∧ ∃ after next,
      LeftBelow fuel line (id + 1) (lines.dropWhile (continues line)) after next ∧
      ∃ steps last, readList fuel line.indent (some kind) next after = .ok (steps, rest, last) := by
  rw [readList, if_neg (Nat.lt_irrefl _), if_neg (Nat.lt_irrefl _)]
  cases headOf line with
  | error e => simp [bind, Except.bind]
  | ok head =>
    unfold LeftBelow
    cases lines.dropWhile (continues line) with
    | nil =>
      refine readAfter_eq_ok_iff.trans ⟨?_, ?_⟩
      · rintro ⟨hkind, hread⟩
        exact ⟨head, rfl, hkind, [], id + 1, ⟨rfl, rfl⟩, hread⟩
      · rintro ⟨_, ⟨⟩, hkind, _, _, ⟨rfl, rfl⟩, hread⟩
        exact ⟨hkind, hread⟩
    | cons first others =>
      dsimp only [bind, Except.bind]
      by_cases hdeeper : line.indent < first.indent
      · simp only [if_pos hdeeper]
        cases hbelow : readList fuel first.indent none (id + 1) (first :: others) with
        | error e => simp
        | ok below =>
          refine readAfter_eq_ok_iff.trans ⟨?_, ?_⟩
          · rintro ⟨hkind, hread⟩
            exact ⟨head, rfl, hkind, below.2.1, below.2.2, ⟨below.1, rfl⟩, hread⟩
          · rintro ⟨_, ⟨⟩, hkind, _, _, ⟨_, ⟨⟩⟩, hread⟩
            exact ⟨hkind, hread⟩
      · simp only [if_neg hdeeper]
        refine readAfter_eq_ok_iff.trans ⟨?_, ?_⟩
        · rintro ⟨hkind, hread⟩
          exact ⟨head, rfl, hkind, _, _, ⟨rfl, rfl⟩, hread⟩
        · rintro ⟨_, ⟨⟩, hkind, _, _, ⟨rfl, rfl⟩, hread⟩
          exact ⟨hkind, hread⟩

/-- The first step of a list decides the kind of the list. -/
theorem readList_none_eq {fuel : Nat} {id : StepId} {line : Line} {lines : List Line} {level : Level}
    (h : level? line = some level) :
    readList (fuel + 1) line.indent none id (line :: lines) =
      readList (fuel + 1) line.indent (some level.kind) id (line :: lines) := by
  rw [readList, readList]
  cases hhead : headOf line with
  | error e => rfl
  | ok head =>
    have hkind : level.kind = head.marker.listKind := by
      rw [level?_of_headOf hhead] at h
      cases h
      rfl
    rw [hkind]
    simp [bind, Except.bind, Step.kind]

/-! ## 4. Open levels -/

/-- Levels that are indented more than the next line are closed by it. -/
theorem accepts_append (deeper : List Level) {opened : List Level} {last : Level} {lines : List Line}
    (hdeeper : ∀ line ∈ lines.head?, ∀ other ∈ deeper, line.indent < other.indent)
    (hlast : ∀ line ∈ lines.head?, line.indent ≤ last.indent) :
    Accepts (deeper ++ last :: opened) lines ↔ Accepts (last :: opened) lines := by
  cases lines with
  | nil => exact Iff.rfl
  | cons line lines =>
    have hdeep := hdeeper line rfl
    have hle := hlast line rfl
    cases hlevel : level? line with
    | none =>
      -- neither of them can be continued
      rw [accepts_unmarked hlevel, accepts_unmarked hlevel]
      have hnot : ∀ before, ¬ ∀ other ∈ before ++ last :: opened, other.indent < line.indent :=
        fun before hall => absurd (hall last (by simp)) (Nat.not_lt.mpr hle)
      exact iff_of_false (fun h => hnot deeper h.1.2) (fun h => hnot [] h.1.2)
    | some level =>
      rw [← indent_of_level? hlevel] at hdeep hle
      have hfits : Fits (deeper ++ last :: opened) level ↔ Fits (last :: opened) level := by
        unfold Fits
        grind
      have henter : enter (deeper ++ last :: opened) level = enter (last :: opened) level := by
        have hnone : deeper.filter (·.indent < level.indent) = [] := by
          rw [List.filter_eq_nil_iff]
          grind
        rw [enter, enter, List.filter_append, hnone, List.nil_append]
      rw [accepts_marked hlevel, accepts_marked hlevel, hfits, henter]

/-- A line between two open levels fits neither. -/
theorem not_accepts_between {first last : Level} {opened : List Level} {line : Line} {lines : List Line}
    (hfirst : line.indent < first.indent) (hlast : last.indent < line.indent)
    (hopened : ∀ other ∈ opened, other.indent < last.indent) :
    ¬ Accepts (first :: last :: opened) (line :: lines) := by
  cases hlevel : level? line with
  | none =>
    rw [accepts_unmarked hlevel]
    grind
  | some level =>
    have hindent := indent_of_level? hlevel
    rw [accepts_marked hlevel, Fits]
    grind

/-- A step that goes on with the innermost list. -/
theorem accepts_next {last level : Level} {opened : List Level} {line : Line} {lines : List Line}
    (hlevel : level? line = some level) (hindent : line.indent = last.indent)
    (hopened : ∀ other ∈ opened, other.indent < last.indent) :
    Accepts (last :: opened) (line :: lines) ↔
      last.kind = level.kind ∧ (∃ head, headOf line = .ok head) ∧ Accepts (last :: opened) lines := by
  have hsame := indent_of_level? hlevel
  have hfits : Fits (last :: opened) level ↔ last.kind = level.kind := by
    unfold Fits
    grind
  rw [accepts_marked hlevel, hfits]
  refine and_congr_right fun hkind => and_congr_right fun _ => ?_
  have henter : enter (last :: opened) level = last :: opened := by
    have hall : opened.filter (·.indent < level.indent) = opened := by
      rw [List.filter_eq_self]
      grind
    rw [enter, List.filter_cons, hall]
    cases last
    cases level
    simp_all
  rw [henter]

/-- The first step of a list opens the level that the list goes on with. -/
theorem accepts_first {level : Level} {opened : List Level} {line : Line} {lines : List Line}
    (hlevel : level? line = some level) (hopened : ∀ other ∈ opened, other.indent < level.indent) :
    Accepts opened (line :: lines) ↔ Accepts (level :: opened) (line :: lines) := by
  have hfits : Fits opened level := .inl hopened
  have henter : enter opened level = level :: opened := by
    rw [enter, List.filter_eq_self.mpr fun other hother => decide_eq_true (hopened other hother)]
  rw [accepts_next hlevel (indent_of_level? hlevel).symm hopened, accepts_marked hlevel, henter]
  simp [hfits]

/-- Lines that continue a step leave the open levels as they are. -/
theorem accepts_dropWhile {last : Level} {opened : List Level} {line : Line} (lines : List Line)
    (hindent : line.indent = last.indent) (hopened : ∀ other ∈ opened, other.indent < last.indent) :
    Accepts (last :: opened) (lines.dropWhile (continues line)) ↔ Accepts (last :: opened) lines := by
  induction lines with
  | nil => exact Iff.rfl
  | cons next lines ih =>
    rw [List.dropWhile_cons]
    split
    · rename_i hcontinues
      have hlevel : level? next = none := level?_eq_none_iff.mpr (not_isMarked_of_continues hcontinues)
      simp only [continues, Bool.and_eq_true, decide_eq_true_eq] at hcontinues
      rw [ih, accepts_unmarked hlevel]
      grind
    · exact Iff.rfl

/-- The lines below a step end with the lines that are left of them. -/
theorem suffix_of_readList {fuel indent : Nat} {kind : Option ListKind} {id next : StepId}
    {lines rest : List Line} {steps : List Step}
    (h : readList fuel indent kind id lines = .ok (steps, rest, next)) (hfuel : lines.length ≤ fuel) :
    rest.length ≤ fuel ∧ ∀ line ∈ rest.head?, line.indent < indent := by
  obtain ⟨⟨taken, rfl, -⟩, -, hstops⟩ := readList_taken h hfuel
  rw [List.length_append] at hfuel
  exact ⟨by omega, hstops⟩

/-- A list can be read from the lines, and what is left is accepted where its level is open. -/
def Reads (fuel : Nat) (last : Level) (opened : List Level) (id : StepId) (lines : List Line) : Prop :=
  ∃ rest, (∃ steps next, readList fuel last.indent (some last.kind) id lines = .ok (steps, rest, next)) ∧
    Accepts (last :: opened) rest

/-- Up to a number of lines, they are accepted exactly if a list can be read from them. -/
def AcceptsRead (fuel : Nat) : Prop :=
  ∀ (last : Level) (opened : List Level) (id : StepId) (lines : List Line), lines.length ≤ fuel →
    (∀ other ∈ opened, other.indent < last.indent) → (∀ line ∈ lines.head?, line.indent ≤ last.indent) →
    (Accepts (last :: opened) lines ↔ Reads fuel last opened id lines)

/-- After a list that is inside the last one, the last one goes on. -/
theorem AcceptsRead.after {fuel : Nat} (h : AcceptsRead fuel) {first last : Level} {opened : List Level}
    {id : StepId} {lines : List Line} (hfuel : lines.length ≤ fuel)
    (hopened : ∀ other ∈ opened, other.indent < last.indent)
    (hlines : ∀ line ∈ lines.head?, line.indent < first.indent) :
    Accepts (first :: last :: opened) lines ↔ Reads fuel last opened id lines := by
  by_cases hle : ∀ line ∈ lines.head?, line.indent ≤ last.indent
  · rw [← h last opened id lines hfuel hopened hle]
    exact accepts_append [first] (by simpa using hlines) hle
  · -- a line between the two levels is refused by both
    cases lines with
    | nil => simp at hle
    | cons line lines =>
      have hbetween : last.indent < line.indent := by simpa using hle
      refine iff_of_false (not_accepts_between (hlines line rfl) hbetween hopened) ?_
      rintro ⟨rest, ⟨steps, next, hread⟩, -⟩
      obtain ⟨less, rfl⟩ : ∃ less, fuel = less + 1 := ⟨fuel - 1, by grind⟩
      rw [readList, if_neg (Nat.not_lt.mpr hbetween.le), if_pos hbetween] at hread
      cases hread

/-- The lines below a step and after it. -/
theorem AcceptsRead.below {fuel : Nat} (h : AcceptsRead fuel) (id : StepId) {line : Line}
    {lines : List Line} {last : Level} {opened : List Level} (hfuel : lines.length ≤ fuel)
    (hopened : ∀ other ∈ opened, other.indent < last.indent) (hindent : line.indent = last.indent)
    (hfirst : ∀ first ∈ lines.head?, continues line first = false) :
    Accepts (last :: opened) lines ↔
      ∃ after next, LeftBelow fuel line id lines after next ∧ Reads fuel last opened next after := by
  unfold LeftBelow
  cases lines with
  | nil =>
    rw [h last opened id [] hfuel hopened (by simp)]
    grind
  | cons first others =>
    by_cases hdeeper : line.indent < first.indent
    · -- the lines that are indented more begin with a marker, so they are a list
      have hmarked : isMarked first = true := by
        have := hfirst first rfl
        simpa [continues, hdeeper] using this
      obtain ⟨level, hlevel⟩ := Option.isSome_iff_exists.mp ((isSome_level? first).trans hmarked)
      have hsame := indent_of_level? hlevel
      have hinside : ∀ other ∈ last :: opened, other.indent < level.indent := by grind
      obtain ⟨less, rfl⟩ : ∃ less, fuel = less + 1 := ⟨fuel - 1, by grind⟩
      rw [accepts_first hlevel hinside,
        h level (last :: opened) id (first :: others) hfuel hinside (by simp [hsame])]
      simp only [if_pos hdeeper, readList_none_eq hlevel, Reads, hsame]
      constructor
      · rintro ⟨after, ⟨steps, next, hread⟩, hafter⟩
        obtain ⟨hlength, hstops⟩ := suffix_of_readList hread hfuel
        exact ⟨after, next, ⟨steps, hread⟩,
          (h.after hlength hopened (hsame ▸ hstops)).mp hafter⟩
      · rintro ⟨after, next, ⟨steps, hread⟩, hafter⟩
        obtain ⟨hlength, hstops⟩ := suffix_of_readList hread hfuel
        exact ⟨after, ⟨steps, next, hread⟩,
          (h.after hlength hopened (hsame ▸ hstops)).mpr hafter⟩
    · rw [h last opened id (first :: others) hfuel hopened (by grind)]
      simp only [if_neg hdeeper]
      grind

theorem acceptsRead (fuel : Nat) : AcceptsRead fuel := by
  -- below a step and after it are fewer lines, so one hypothesis serves the inner list and the outer one
  induction fuel with
  | zero =>
    intro last opened id lines hfuel _ _
    rw [List.eq_nil_of_length_eq_zero (Nat.le_zero.mp hfuel)]
    exact iff_of_true trivial ⟨[], ⟨[], id, rfl⟩, trivial⟩
  | succ fuel ih =>
    intro last opened id lines hfuel hopened hle
    cases lines with
    | nil => exact iff_of_true trivial ⟨[], ⟨[], id, rfl⟩, trivial⟩
    | cons line lines =>
      rcases Nat.lt_or_eq_of_le (hle line rfl) with hless | hindent
      · -- the list ends before the line
        rw [Reads, readList, if_pos hless]
        constructor
        · exact fun h => ⟨_, ⟨_, _, rfl⟩, h⟩
        · rintro ⟨rest, ⟨steps, next, hread⟩, hrest⟩
          cases hread
          exact hrest
      · rw [Reads, ← hindent]
        simp only [readList_eq_ok_iff]
        cases hlevel : level? line with
        | none =>
          -- a line that is indented as the list is has to begin with a marker
          rw [accepts_unmarked hlevel]
          refine iff_of_false (fun h => ?_) ?_
          · exact absurd (h.1.2 last List.mem_cons_self) (by omega)
          · rintro ⟨rest, ⟨head, hhead, -⟩, -⟩
            rw [level?_of_headOf hhead] at hlevel
            cases hlevel
        | some level =>
          have hdrop : (lines.dropWhile (continues line)).length ≤ fuel :=
            (List.dropWhile_suffix _).length_le.trans (Nat.le_of_succ_le_succ hfuel)
          have hfirst : ∀ first ∈ (lines.dropWhile (continues line)).head?,
              continues line first = false := by
            intro first hmem
            have := List.head?_dropWhile_not (continues line) lines
            rw [Option.mem_def.mp hmem] at this
            exact this
          rw [accepts_next hlevel hindent hopened, ← accepts_dropWhile lines hindent hopened,
            ih.below (id + 1) hdrop hopened hindent hfirst]
          simp only [Reads, ← hindent]
          constructor
          · rintro ⟨hkind, ⟨head, hhead⟩, after, next, hbelow, rest, hread, hrest⟩
            rw [level?_of_headOf hhead] at hlevel
            cases hlevel
            exact ⟨rest, ⟨head, hhead, hkind, after, next, hbelow, hread⟩, hrest⟩
          · rintro ⟨rest, ⟨head, hhead, hkind, after, next, hbelow, hread⟩, hrest⟩
            rw [level?_of_headOf hhead] at hlevel
            cases hlevel
            exact ⟨hkind, ⟨head, hhead⟩, after, next, hbelow, rest, hread, hrest⟩

/-- Lines that are left are indented less than the only level that is open. -/
theorem accepts_left_iff {last : Level} {lines : List Line}
    (hlines : ∀ line ∈ lines.head?, line.indent < last.indent) : Accepts [last] lines ↔ lines = [] := by
  cases lines with
  | nil => exact iff_of_true trivial rfl
  | cons line lines =>
    have hless := hlines line rfl
    refine iff_of_false (fun h => ?_) (List.cons_ne_nil _ _)
    cases hlevel : level? line with
    | none =>
      have := ((accepts_unmarked hlevel).mp h).1.2 last List.mem_cons_self
      omega
    | some level =>
      have hindent := indent_of_level? hlevel
      have hfits := ((accepts_marked hlevel).mp h).1
      unfold Fits at hfits
      grind

theorem readAlgorithm_iff_accepts (t : Text) :
    (∃ list, readAlgorithm t = .ok list) ↔ Accepts [] t.lines := by
  rw [readAlgorithm]
  cases t.lines with
  | nil => exact iff_of_true ⟨_, rfl⟩ trivial
  | cons first lines =>
    dsimp only
    cases hlevel : level? first with
    | none =>
      rw [accepts_unmarked hlevel]
      refine iff_of_false ?_ fun h => h.1.1 rfl
      rintro ⟨list, hread⟩
      obtain ⟨⟨steps, rest, next⟩, hlist, -⟩ := bind_eq_ok_iff.mp hread
      rcases readList_cases hlist with ⟨hless, -⟩ | ⟨head, -, -, -, -, -, hhead, -⟩
      · omega
      · rw [level?_of_headOf hhead] at hlevel
        cases hlevel
    | some level =>
      have hsame := indent_of_level? hlevel
      have hnone : ∀ other ∈ ([] : List Level), other.indent < level.indent := List.forall_mem_nil _
      rw [readList_none_eq hlevel, accepts_first hlevel hnone,
        acceptsRead (lines.length + 1) level [] 0 (first :: lines) (Nat.le_refl _) hnone
          (by simp [hsame]), Reads, hsame]
      constructor
      · rintro ⟨list, hread⟩
        obtain ⟨⟨steps, rest, next⟩, hlist, hread⟩ := bind_eq_ok_iff.mp hread
        cases rest with
        | nil => exact ⟨[], ⟨steps, next, hlist⟩, trivial⟩
        | cons line rest => cases hread
      · rintro ⟨rest, ⟨steps, next, hlist⟩, hrest⟩
        -- lines that are left would be indented less than the first
        have hstops := (suffix_of_readList hlist (Nat.le_refl _)).2
        rw [accepts_left_iff (hsame ▸ hstops)] at hrest
        subst hrest
        refine ⟨.ofSteps steps, ?_⟩
        rw [hlist]
        rfl

/-! ## 5. All lines -/

theorem forall_split_cons {α : Type} {P : List α → α → Prop} {a : α} {l : List α} :
    (∀ before b after, a :: l = before ++ b :: after → P before b) ↔
      P [] a ∧ ∀ before b after, l = before ++ b :: after → P (a :: before) b := by
  constructor
  · intro h
    refine ⟨h [] a l rfl, fun before b after hl => h (a :: before) b after ?_⟩
    rw [hl, List.cons_append]
  · rintro ⟨hhead, htail⟩ before b after hl
    cases before with
    | nil =>
      cases hl
      exact hhead
    | cons first before =>
      cases hl
      exact htail before b after rfl

/-- The lines are accepted if each of them fits what stands before it and its attributes can be read. -/
theorem accepts_openedBy_iff {before : List Level} {lines : List Line} :
    Accepts (openedBy before) lines ↔
      (∀ first line rest, lines = first ++ line :: rest → isMarked line = false →
        ∃ last ∈ (before ++ levels first).getLast?, last.indent < line.indent) ∧
      (∀ first level rest, levels lines = first ++ level :: rest →
        Fits (openedBy (before ++ first)) level) ∧
      ∀ line ∈ lines, isMarked line = true → ∃ head, headOf line = .ok head := by
  induction lines generalizing before with
  | nil => simp [Accepts, levels]
  | cons line lines ih =>
    rw [forall_split_cons, List.forall_mem_cons]
    have hfirst : levels [] = [] := rfl
    cases hlevel : level? line with
    | none =>
      have hlevels : ∀ lines, levels (line :: lines) = levels lines := fun lines =>
        List.filterMap_cons_none hlevel
      have hmarked := level?_eq_none_iff.mp hlevel
      rw [accepts_unmarked hlevel, ih, inside_openedBy_iff]
      simp only [hlevels, hmarked, hfirst, List.append_nil, Bool.false_eq_true, false_implies,
        true_implies, true_and, and_assoc]
    | some level =>
      have hlevels : ∀ lines, levels (line :: lines) = level :: levels lines := fun lines =>
        List.filterMap_cons_some hlevel
      have hmarked : isMarked line = true := by
        rw [← isSome_level?, hlevel]
        rfl
      rw [accepts_marked hlevel, ← openedBy_concat, ih]
      simp only [hlevels, forall_split_cons, hmarked, List.append_nil, List.append_assoc,
        List.singleton_append, Bool.true_eq_false, false_implies, true_implies, true_and]
      grind

theorem exists_headOf_iff {line : Line} :
    (∃ head, headOf line = .ok head) ↔ isMarked line = true ∧ HasReadableAttributes line := by
  unfold headOf HasReadableAttributes isMarked
  cases marker? line.text with
  | none => simp [throw, throwThe, MonadExceptOf.throw]
  | some n =>
    dsimp only
    split
    · rename_i hattributes
      simp only [bind_eq_ok_iff, Option.isSome_some, true_and, Option.some.injEq, forall_eq', hattributes]
      constructor
      · rintro ⟨head, read, hread, -⟩
        exact fun _ => ⟨read, hread⟩
      · intro h
        obtain ⟨read, hread⟩ := h trivial
        exact ⟨_, read, hread, rfl⟩
    · rename_i hattributes
      refine iff_of_true ⟨_, rfl⟩ ⟨rfl, ?_⟩
      rintro n ⟨⟩ h
      exact absurd h hattributes

theorem accepts_iff_isWellLaid {lines : List Line} : Accepts [] lines ↔ IsWellLaid lines := by
  have hnone : openedBy [] = [] := rfl
  rw [← hnone, accepts_openedBy_iff]
  simp only [List.nil_append]
  constructor
  · rintro ⟨hcontinued, hfit, hheads⟩
    obtain ⟨hopened, hsiblings⟩ := allFit_iff.mp hfit
    refine ⟨fun line hline => ?_, fun before line after hlines hmarked level hlevel => ?_, hopened,
      hsiblings, fun line hline => ?_⟩
    · obtain ⟨rest, rfl⟩ := List.head?_eq_some_iff.mp hline
      by_contra hmarked
      obtain ⟨last, hlast, -⟩ := hcontinued [] line rest rfl (Bool.eq_false_iff.mpr hmarked)
      cases hlast
    · obtain ⟨last, hlast, hless⟩ := hcontinued before line after hlines hmarked
      rwa [← Option.mem_unique hlast hlevel]
    · cases hmarked : isMarked line with
      | false =>
        intro n hn
        rw [isMarked, hn] at hmarked
        cases hmarked
      | true => exact (exists_headOf_iff.mp (hheads line hline hmarked)).2
  · rintro ⟨hfirst, hcontinued, hopened, hsiblings, hattributes⟩
    refine ⟨fun before line after hlines hmarked => ?_, allFit_iff.mpr ⟨hopened, hsiblings⟩,
      fun line hline hmarked => exists_headOf_iff.mpr ⟨hmarked, hattributes line hline⟩⟩
    -- the first line has a marker, so there is a last one before any line without
    obtain ⟨last, hlast⟩ : ∃ last, (levels before).getLast? = some last := by
      rw [← Option.isSome_iff_exists, List.getLast?_isSome]
      cases before with
      | nil =>
        rw [hfirst line (by rw [hlines]; rfl)] at hmarked
        cases hmarked
      | cons first before =>
        have hlevel := (isSome_level? first).trans (hfirst first (by rw [hlines]; rfl))
        obtain ⟨level, hlevel⟩ := Option.isSome_iff_exists.mp hlevel
        rw [levels, List.filterMap_cons_some hlevel]
        exact List.cons_ne_nil _ _
    exact ⟨last, hlast, hcontinued before line after hlines hmarked last hlast⟩

/-- A text can be read as an algorithm exactly if its lines are well laid out. -/
theorem exists_readAlgorithm_iff (t : Text) :
    Lined 0 t t.lines ∧ ((∃ list, readAlgorithm t = .ok list) ↔ IsWellLaid t.lines) :=
  ⟨t.lined_lines, (readAlgorithm_iff_accepts t).trans accepts_iff_isWellLaid⟩

end Errata.Step
