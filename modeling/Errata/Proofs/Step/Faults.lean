import Errata.Proofs.Expression.Tokens
import Errata.Proofs.Step.Acceptance
import Errata.Proofs.Step.Placement

/-!
# Where errors point

An error in the layout of an algorithm is at the beginning of a line, or after the bracket that opens the
attributes of a line. Where a list mixes kinds, the line is the first in the text that is not of the kind
of the line that its list begins with. With what is known of errors in contents, every error of a reader
points at the sign that is at fault.
-/

namespace Errata

open Text

namespace Step

/-! ## 1. The list of a line -/

/-- After the lines of `earlier`, which end with one that is indented less if there are any, `first` begins
the list of `level`: no line between the two is indented less than they are. -/
structure BeginsListOf (earlier : List Level) (first : Level) (between : List Level) (level : Level) : Prop where
  same : first.indent = level.indent
  above : ∀ other ∈ earlier.getLast?, other.indent < first.indent
  between : ∀ other ∈ between, first.indent ≤ other.indent

/-- After some lines a list with the given indentation is read. It has not begun if it has no kind yet. -/
def IsReading (indent : Nat) (before : List Level) : Option ListKind → Prop
  | none => ∀ other ∈ before.getLast?, other.indent < indent
  | some kind => ∃ earlier first between, before = earlier ++ first :: between ∧ first.kind = kind ∧
      BeginsListOf earlier first between ⟨indent, kind⟩

theorem levels_append (first second : List Line) : levels (first ++ second) = levels first ++ levels second :=
  List.filterMap_append

/-- The lines of a step add its level and only deeper ones. -/
theorem levels_step {line : Line} {level : Level} {continued below : List Line} (hlevel : level? line = some level)
    (hcontinued : ∀ l ∈ continued, continues line l = true) :
    levels (line :: (continued ++ below)) = level :: levels below := by
  have hnone : levels continued = [] := by
    rw [levels, List.filterMap_eq_nil_iff]
    exact fun l hl => level?_eq_none_iff.mpr (not_isMarked_of_continues (hcontinued l hl))
  rw [levels, List.filterMap_cons_some hlevel, ← levels, levels_append, hnone, List.nil_append]

theorem le_indent_of_mem_levels {indent : Nat} {lines : List Line} (h : ∀ line ∈ lines, indent ≤ line.indent) :
    ∀ level ∈ levels lines, indent ≤ level.indent := by
  intro level hlevel
  obtain ⟨line, hline, hlevel⟩ := List.mem_filterMap.mp hlevel
  rw [indent_of_level? hlevel]
  exact h line hline

/-- The list goes on after a step of its kind and the steps below it. -/
theorem IsReading.next {before below : List Level} {level : Level} {kind : Option ListKind}
    (h : IsReading level.indent before kind) (hkind : ¬ kind.any (· ≠ level.kind) = true)
    (hbelow : ∀ other ∈ below, level.indent ≤ other.indent) :
    IsReading level.indent (before ++ level :: below) (some level.kind) := by
  cases kind with
  | none => exact ⟨before, level, below, rfl, rfl, rfl, h, hbelow⟩
  | some kind =>
    have hsame : kind = level.kind := by simpa using hkind
    obtain ⟨earlier, first, between, rfl, hfirst, hbegins⟩ := h
    have hindent : first.indent = level.indent := hbegins.same
    refine ⟨earlier, first, between ++ level :: below, by simp, hfirst.trans hsame, hindent, hbegins.above, ?_⟩
    refine List.forall_mem_append.mpr ⟨hbegins.between, List.forall_mem_cons.mpr ⟨Nat.le_of_eq hindent, ?_⟩⟩
    exact fun other hother => hindent ▸ hbelow other hother

/-! ## 2. Errors in the layout -/

/-- The error is where the layout of the text is at fault: where a line begins that cannot, at a line whose
marker is not of the kind that its list began with, or in the attributes of a line. -/
inductive PointsAtLine (t : Text) : StepError → Prop
  | expectedStep {line : Line} (hline : t.HasLine line) : PointsAtLine t (.expectedStep line.start)
  | inconsistentMarkers {before after : List Line} {line : Line} {level first : Level}
      {earlier between : List Level} (hlines : t.lines = before ++ line :: after) (hline : t.HasLine line)
      (hlevel : level? line = some level) (hbefore : levels before = earlier ++ first :: between)
      (hbegins : BeginsListOf earlier first between level) (hkind : first.kind ≠ level.kind) :
      PointsAtLine t (.inconsistentMarkers line.start)
  | invalidAttributes {line : Line} {marker : Fragment} {blanks inner rest : Text} {offset : Nat}
      (hline : t.HasLine line) (hmarker : markerOf? line = some marker) (hblanks : blanks.AllBlank)
      (htext : line.text = marker.text ++ (blanks ++ '[' :: (inner ++ rest)))
      (hoffset : offset = line.start + size (marker.text ++ (blanks ++ '[' :: inner))) :
      PointsAtLine t (.invalidAttributes offset)

theorem ends_leads_attributesAt (c : Cursor) :
    Ends (fun e => ∃ d, c.Leads d ∧ e = .invalidAttributes d.offset) (fun _ => True) (attributesAt c) := by
  fun_induction attributesAt c with
  | case1 c => exact ⟨c, .refl c, rfl⟩
  | case2 c first d hfirst _ rest hrest ih =>
    refine (ih.imp (fun e he => ?_) fun _ _ => trivial).bind fun found _ => trivial
    obtain ⟨last, hlast, rfl⟩ := he
    have hnext := (d.leads_skipBlanks.trans (d.skipBlanks.leads_advance 1)).trans (Cursor.leads_skipBlanks _)
    exact ⟨last, (Cursor.Leads.trans (passes_attributeAt? hfirst) hnext).trans hlast, rfl⟩
  | case3 => exact trivial
  | case4 c first d hfirst => exact ⟨d, passes_attributeAt? hfirst, rfl⟩

theorem ends_pointsAtLine_headOf {t : Text} {line : Line} (hline : t.HasLine line) :
    Ends (PointsAtLine t) (fun _ => True) (headOf line) := by
  unfold headOf
  dsimp only
  split
  · exact .expectedStep hline
  · rename_i n hmarker
    let start := Cursor.atStart line.text line.start
    obtain ⟨blanks, hblanks, hbody⟩ := (start.advance n).passes_skipBlanks
    have hfragment : markerOf? line = some (start.fragment n) := by
      rw [markerOf?, hmarker]
      rfl
    split
    · rename_i hattributes
      obtain ⟨opened, hopened⟩ := head?_of_hasAttributes hattributes
      refine ((ends_leads_attributesAt _).imp (fun e he => ?_) fun _ _ => trivial).bind fun found _ => trivial
      obtain ⟨d, ⟨inner, hinner⟩, rfl⟩ := he
      -- from the start of the line the marker, blanks, the bracket and what could be read lead to the error
      have hpassed := (start.passes_advance n).trans (hbody.trans ((Cursor.passes_head hopened).trans hinner))
      have htext : line.text = start.rest.take n ++ (blanks ++ '[' :: (inner ++ d.rest)) := by
        have hrest : line.text = _ := hpassed.1
        rwa [List.append_assoc, List.append_assoc] at hrest
      exact .invalidAttributes hline hfragment hblanks htext hpassed.2
    · exact trivial

/-- What stands before the lines that are still to be read, and which list goes on with them. -/
structure Reaches (t : Text) (indent : Nat) (kind : Option ListKind) (before lines : List Line) : Prop where
  lines_eq : t.lines = before ++ lines
  reading : IsReading indent (levels before) kind

theorem Reaches.hasLine {t : Text} {indent : Nat} {kind : Option ListKind} {before lines : List Line} {line : Line}
    (h : Reaches t indent kind before (line :: lines)) : t.HasLine line := by
  refine hasLine_of_mem_lines ?_
  rw [h.lines_eq]
  exact List.mem_append_right before List.mem_cons_self

/-- Below a step a list begins with the lines that are indented more. -/
theorem Reaches.below {t : Text} {indent : Nat} {kind : Option ListKind} {before continued others : List Line}
    {line first : Line} {level : Level} (hlevel : level? line = some level)
    (h : Reaches t indent kind before (line :: (continued ++ first :: others)))
    (hcontinued : ∀ l ∈ continued, continues line l = true) (hdeeper : level.indent < first.indent) :
    Reaches t first.indent none (before ++ line :: continued) (first :: others) := by
  refine ⟨by rw [h.lines_eq]; simp, ?_⟩
  -- the line of the step is the last one with a marker
  rw [levels_append, ← List.append_nil continued, levels_step hlevel hcontinued]
  show ∀ other ∈ (levels before ++ [level]).getLast?, other.indent < first.indent
  rw [List.getLast?_concat]
  rintro other ⟨⟩
  exact hdeeper

/-- After a step the list goes on with a line of the same kind, or the marker of the step is at fault. -/
theorem Reaches.after {t : Text} {kind : Option ListKind} {before continued below after : List Line} {line : Line}
    {level : Level} (hlevel : level? line = some level)
    (h : Reaches t level.indent kind before (line :: (continued ++ (below ++ after))))
    (hcontinued : ∀ l ∈ continued, continues line l = true) (hbelow : ∀ l ∈ below, level.indent ≤ l.indent) :
    if kind.any (· ≠ level.kind) then PointsAtLine t (.inconsistentMarkers line.start)
    else Reaches t level.indent (some level.kind) (before ++ line :: (continued ++ below)) after := by
  have hreading := h.reading
  split
  · rename_i hkind
    cases kind with
    | none => cases hkind
    | some kind =>
      obtain ⟨earlier, first, between, hbefore, rfl, hbegins⟩ := hreading
      have hdiffer : first.kind ≠ level.kind := by simpa using hkind
      exact .inconsistentMarkers h.lines_eq h.hasLine hlevel hbefore
        ⟨hbegins.same, hbegins.above, hbegins.between⟩ hdiffer
  · rename_i hkind
    refine ⟨by rw [h.lines_eq]; simp, ?_⟩
    rw [levels_append, levels_step hlevel hcontinued]
    exact hreading.next hkind (le_indent_of_mem_levels hbelow)

/-! ## 3. Lists -/

theorem ends_pointsAtLine_readList {t : Text} {fuel indent : Nat} {kind : Option ListKind} {id : StepId}
    {before lines : List Line} (h : Reaches t indent kind before lines) (hfuel : lines.length ≤ fuel) :
    Ends (PointsAtLine t) (fun _ => True) (readList fuel indent kind id lines) := by
  induction fuel generalizing indent kind id before lines with
  | zero =>
    rw [List.eq_nil_of_length_eq_zero (Nat.le_zero.mp hfuel)]
    exact trivial
  | succ fuel ih =>
    cases lines with
    | nil => exact trivial
    | cons line lines =>
      have hlength : lines.length ≤ fuel := Nat.le_of_succ_le_succ hfuel
      rw [readList]
      split
      · exact trivial
      split
      · exact .expectedStep h.hasLine
      have hindent : indent = line.indent := by omega
      subst hindent
      refine ((ends_pointsAtLine_headOf h.hasLine).and fun _ hhead => hhead).bind fun head hhead => ?_
      have hlevel := level?_of_headOf hhead.2
      obtain ⟨between, hdivides⟩ := divides_headOf hhead.2
      have hcontinued : ∀ l ∈ lines.takeWhile (continues line), continues line l = true :=
        fun l hl => List.mem_takeWhile_imp hl
      -- a step is joined to the list in the same way whether or not there are steps below it
      have hfinish : ∀ (step : Step) (below after : List Line) (next : StepId), step.marker = head.marker →
          lines.dropWhile (continues line) = below ++ after → (∀ l ∈ below, line.indent ≤ l.indent) →
          Ends (PointsAtLine t) (fun _ => True)
            (if kind.any (· ≠ step.kind) then .error (.inconsistentMarkers step.marker.offset)
              else readList fuel line.indent (some step.kind) next after >>= fun read =>
                .ok (step :: read.1, read.2)) := by
        intro step below after next hmarker hdrop hbelow
        have hsplit : lines = lines.takeWhile (continues line) ++ (below ++ after) := by
          rw [← hdrop, List.takeWhile_append_dropWhile]
        have hafter : after.length ≤ fuel := by
          have hle := congrArg List.length hsplit
          rw [List.length_append, List.length_append] at hle
          omega
        rw [hsplit] at h
        have hreach := h.after hlevel hcontinued hbelow
        rw [Step.kind, hmarker, hdivides.start]
        split
        · rename_i hkind
          rwa [if_pos hkind] at hreach
        · rename_i hkind
          rw [if_neg hkind] at hreach
          exact (ih hreach hafter).bind fun read _ => trivial
      dsimp only
      split
      · rename_i hnil
        exact hfinish _ [] [] (id + 1) rfl hnil (List.forall_mem_nil _)
      · rename_i first others hbelow
        split
        · rename_i hdeeper
          have hsplit : lines = lines.takeWhile (continues line) ++ first :: others := by
            rw [← hbelow, List.takeWhile_append_dropWhile]
          rw [hsplit] at h
          have hreach := h.below hlevel hcontinued hdeeper
          have hothers : (first :: others).length ≤ fuel := by
            rw [← hbelow]
            exact (List.dropWhile_suffix _).length_le.trans hlength
          refine ((ih hreach hothers).and fun _ hread => hread).bind fun read hread => ?_
          obtain ⟨⟨taken, htaken, hlaid⟩, -⟩ := readList_taken hread.2 hothers
          refine hfinish _ taken read.2.1 read.2.2 rfl (hbelow.trans htaken) fun l hl => ?_
          exact Nat.le_of_lt (Nat.lt_of_lt_of_le hdeeper (hlaid.indent_le l hl))
        · exact hfinish _ [] (first :: others) (id + 1) rfl hbelow (List.forall_mem_nil _)

/-- An error in the layout of an algorithm points at it. -/
theorem ends_pointsAtLine_readAlgorithm (t : Text) :
    Ends (PointsAtLine t) (fun _ => True) (readAlgorithm t) := by
  rw [readAlgorithm]
  split
  · exact trivial
  · rename_i first lines hlines
    have hreach : Reaches t first.indent none [] (first :: lines) := ⟨hlines, by simp [IsReading, levels]⟩
    refine ((ends_pointsAtLine_readList hreach (Nat.le_refl _)).and fun _ hread => hread).bind fun read hread => ?_
    obtain ⟨steps, rest, next⟩ := read
    cases rest with
    | nil => exact trivial
    | cons line rest =>
      -- lines that no list takes are at fault from the first of them on
      obtain ⟨⟨taken, htaken, -⟩, -⟩ := readList_taken hread.2 (Nat.le_refl _)
      refine .expectedStep (hasLine_of_mem_lines ?_)
      rw [hlines, htaken]
      exact List.mem_append_right taken List.mem_cons_self

/-! ## 4. All errors -/

/-- An error in a content is inside the content, at the sign that is not closed or closes nothing. An error
in the layout of an algorithm is at the line that is at fault, or in its attributes. -/
theorem points_at_fault :
    (∀ (content : Fragment) (e : StepError), Expression.parse content = .error e →
      content.offset ≤ e.offset ∧ e.offset < content.stop ∧ e.PointsInto content) ∧
    ∀ (t : Text) (e : StepError), readAlgorithm t = .error e → PointsAtLine t e := by
  refine ⟨fun content e h => ?_, fun t e h => (ends_pointsAtLine_readAlgorithm t).of_error h⟩
  have hpoints := (Expression.ends_isRead_parse content).of_error h
  exact ⟨hpoints.inside.1, hpoints.inside.2, hpoints⟩

/-- A parenthesis that is left open in a record in a parenthesis, a list below a step that changes its kind
after steps further below, and attributes without an end in such a list. -/
theorem points_at_fault_nested :
    let content : Fragment := ⟨"Return é(_x_, { [[A]]: G(1 }.".toList, 7⟩
    let mixed : Text := "1. a\n  * b\n    1. c\n  * d\n  1. e\n    1. f".toList
    let unclosed : Text := "1. a\n  * [id=\"x\", b".toList
    (Expression.parse content = .error (.unbalanced 32 '(') ∧
      StepError.PointsInto content (.unbalanced 32 '(')) ∧
    (readAlgorithm mixed = .error (.inconsistentMarkers 28) ∧ PointsAtLine mixed (.inconsistentMarkers 28)) ∧
    (readAlgorithm unclosed = .error (.invalidAttributes 18) ∧
      PointsAtLine unclosed (.invalidAttributes 18)) := by
  intro content mixed unclosed
  have hcontent : Expression.parse content = .error (.unbalanced 32 '(') :=
    eq_error_of_error? (by decide +kernel)
  have hmixed : readAlgorithm mixed = .error (.inconsistentMarkers 28) :=
    eq_error_of_error? (by decide +kernel)
  have hunclosed : readAlgorithm unclosed = .error (.invalidAttributes 18) :=
    eq_error_of_error? (by decide +kernel)
  exact ⟨⟨hcontent, (points_at_fault.1 content _ hcontent).2.2⟩, ⟨hmixed, points_at_fault.2 mixed _ hmixed⟩,
    hunclosed, points_at_fault.2 unclosed _ hunclosed⟩

end Step

end Errata
