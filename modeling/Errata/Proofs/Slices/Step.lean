import Errata.Proofs.Slices.Text
import Errata.Proofs.Step.Layout

/-!
# Reading steps by positions

The steps of an algorithm are read here with a number for the line that comes next, positions in the text of
a line, and one slice of the whole text for the content of a step. Looking up a line that is not there and
slicing at what is no position have no result. Neither comes to pass, and what is read is the same.
-/

namespace Errata.Step

open Text

/-! ## 1. Reading -/

/-- The attributes from a position after a bracket, and the position after them. -/
def attributesFrom? (content : Cursor) (i : Nat) : Faulting StepError (List StepAttribute × Nat) := do
  let here ← content.move? i
  match attributeAt? here with
  | none => throw (.invalidAttributes (content.offset + i))
  | some (first, after) =>
    let i := i + here.upTo after
    let there ← content.move? i
    match there.skipBlanks.rest with
    | ',' :: _ =>
      let again : Cursor → Nat → Faulting StepError (List StepAttribute × Nat) := by apply attributesFrom?
      let (others, last) ← again content (i + there.upTo (there.skipBlanks.advance 1).skipBlanks)
      return (first :: others, last)
    | ']' :: _ => return ([first], i + there.upTo (there.skipBlanks.advance 1).skipBlanks)
    | _ => throw (.invalidAttributes (content.offset + i))
partial_fixpoint

/-- The marker and the attributes of a line, and the position in it where the content begins. -/
def headAt? (line : Line) : Faulting StepError (Fragment × List StepAttribute × Nat) :=
  let start := Cursor.atStart line.text line.start
  match marker? line.text with
  | none => throw (.expectedStep line.start)
  | some n => do
    let i := start.upTo (start.advance n).skipBlanks
    let body ← start.move? i
    if hasAttributes body.rest then
      let (attributes, width) ← attributesFrom? body 1
      return (start.fragment n, attributes, i + width)
    else return (start.fragment n, [], i)

section Lists

variable (source : Text) (lines : List Line)

mutual

/-- The step whose line has the given number, the number of the line after it and of the step after it. -/
def readStepAt? (position : Nat) (id : StepId) : Faulting StepError (Step × Nat × StepId) := do
  let readBelow : Line → Nat → StepId → Faulting StepError (Option StepList × Nat × StepId) := by
    apply readBelowAt?
  let line ← (lines[position]? : Option Line)
  let (marker, attributes, i) ← headAt? line
  let start := line.start + i
  let continued := (lines.drop (position + 1)).takeWhile (continues line)
  let stop := (continued.getLast?.map Line.stop).getD (max line.stop start)
  let content ← source.slice? start stop
  let (sublist, position, next) ← readBelow line (position + 1 + continued.length) (id + 1)
  return (⟨id, marker, attributes, ⟨content, start⟩, sublist⟩, position, next)
partial_fixpoint

/-- The list that begins at the line with the given number, if it is below the line of a step. -/
def readBelowAt? (line : Line) (position : Nat) (id : StepId) :
    Faulting StepError (Option StepList × Nat × StepId) :=
  match lines[position]? with
  | none => return (none, position, id)
  | some first =>
    if line.indent < first.indent then do
      let readList : Nat → Option ListKind → Nat → StepId → Faulting StepError (List Step × Nat × StepId) := by
        apply readListAt?
      let (steps, position, next) ← readList first.indent none position id
      return (some (.ofSteps steps), position, next)
    else return (none, position, id)
partial_fixpoint

/-- The steps of one list, the number of the line after it and of the step after it. -/
def readListAt? (indent : Nat) (kind : Option ListKind) (position : Nat) (id : StepId) :
    Faulting StepError (List Step × Nat × StepId) :=
  match lines[position]? with
  | none => return ([], position, id)
  | some line =>
    if line.indent < indent then return ([], position, id)
    else if indent < line.indent then throw (.expectedStep line.start)
    else do
      let readStep : Nat → StepId → Faulting StepError (Step × Nat × StepId) := by apply readStepAt?
      let again : Nat → Option ListKind → Nat → StepId → Faulting StepError (List Step × Nat × StepId) := by
        apply readListAt?
      let (step, position, next) ← readStep position id
      if kind.any (· ≠ step.kind) then throw (.inconsistentMarkers step.marker.offset)
      let (steps, position, last) ← again indent (some step.kind) position next
      return (step :: steps, position, last)
partial_fixpoint

end

end Lists

/-- The steps of an algorithm. -/
def readAlgorithmAt? (source : Text) : Faulting StepError StepList :=
  match source.lines.head? with
  | none => return .ofSteps []
  | some first => do
    let (steps, position, _) ← readListAt? source source.lines first.indent none 0 0
    match source.lines[position]? with
    | none => return .ofSteps steps
    | some line => throw (.expectedStep line.start)

/-! ## 2. Heads -/

theorem reaches_attributeAt? {c d : Cursor} {a : StepAttribute} (h : attributeAt? c = some (a, d)) :
    c.Reaches d := by
  simp only [attributeAt?, Option.bind_eq_bind, Option.bind_eq_some_iff] at h
  obtain ⟨⟨key, afterKey⟩, hkey, ⟨sign, inQuotes⟩, hquotes, h⟩ := h
  have hreaches := (c.reaches_skipBlanks.trans (Cursor.reaches_scan? hkey)).trans (Cursor.reaches_scan? hquotes)
  split at h
  · cases h
    exact hreaches.trans (inQuotes.reaches_advance _)
  · cases h

theorem reaches_separator (c : Cursor) : c.Reaches (c.skipBlanks.advance 1).skipBlanks :=
  (c.reaches_skipBlanks.trans (c.skipBlanks.reaches_advance 1)).trans (Cursor.reaches_skipBlanks _)

/-- One round of the loop: an attribute, and what comes after it. -/
theorem attributesFrom?_round {content here after : Cursor} {first : StepAttribute} (h : content.Reaches here)
    (hfirst : attributeAt? here = some (first, after)) :
    attributesFrom? content (content.upTo here) =
      match after.skipBlanks.rest with
      | ',' :: _ => do
        let (others, last) ← attributesFrom? content (content.upTo (after.skipBlanks.advance 1).skipBlanks)
        return (first :: others, last)
      | ']' :: _ => return ([first], content.upTo (after.skipBlanks.advance 1).skipBlanks)
      | _ => throw (.invalidAttributes after.offset) := by
  have hafter := h.trans (reaches_attributeAt? hfirst)
  rw [attributesFrom?, h.move?, lift_bind]
  simp only [hfirst, Cursor.upTo_add h (reaches_attributeAt? hfirst)]
  rw [hafter.move?, lift_bind]
  simp only [Cursor.upTo_add hafter (reaches_separator after), ← hafter.offset_eq]

theorem readsAs_attributesFrom? {content here : Cursor} (h : content.Reaches here) :
    ReadsAs content (attributesFrom? content (content.upTo here)) (attributesAt here) := by
  fun_induction attributesAt here with
  | case1 here hnone =>
    rw [attributesFrom?]
    refine readsAs_lift h.move? ?_
    rw [hnone, h.offset_eq]
    exact readsAs_throw _ _
  | case2 here first after hfirst _ rest hsign ih =>
    have hnext := (h.trans (reaches_attributeAt? hfirst)).trans (reaches_separator after)
    rw [attributesFrom?_round h hfirst, hsign]
    exact (ih hnext).bind fun others last _ hlast => readsAs_pure _ hlast
  | case3 here first after hfirst _ rest hsign =>
    rw [attributesFrom?_round h hfirst, hsign]
    exact readsAs_pure _ ((h.trans (reaches_attributeAt? hfirst)).trans (reaches_separator after))
  | case4 here first after hfirst _ hcomma hbracket =>
    rw [attributesFrom?_round h hfirst]
    split
    · rename_i hsign
      exact absurd hsign (hcomma _)
    · rename_i hsign
      exact absurd hsign (hbracket _)
    · exact readsAs_throw _ _

theorem reaches_attributesAt {c d : Cursor} {attributes : List StepAttribute}
    (h : attributesAt c = .ok (attributes, d)) : c.Reaches d :=
  (readsAs_attributesFrom? (.refl c)).reaches (attributes, d) h

theorem reaches_headOf {line : Line} {head : Head} (h : headOf line = .ok head) :
    (Cursor.atStart line.text line.start).Reaches head.content := by
  unfold headOf at h
  split at h
  · cases h
  · rename_i n hn
    generalize Cursor.atStart line.text line.start = start at h ⊢
    have hbody : start.Reaches (start.advance n).skipBlanks :=
      (start.reaches_advance n).trans (Cursor.reaches_skipBlanks _)
    dsimp only at h
    split at h
    · obtain ⟨⟨attributes, content⟩, hread, h⟩ := bind_eq_ok_iff.mp h
      cases h
      exact (hbody.trans (Cursor.reaches_advance _ 1)).trans (reaches_attributesAt hread)
    · cases h
      exact hbody

/-- The head of a line, with a position for the cursor at its content. -/
theorem returns_headAt? (line : Line) :
    Returns (headAt? line) ((headOf line).map fun head =>
      (head.marker, head.attributes, (Cursor.atStart line.text line.start).upTo head.content)) := by
  unfold headAt? headOf
  cases marker? line.text with
  | none => exact returns_throw _
  | some n =>
    generalize Cursor.atStart line.text line.start = start
    have hbody : start.Reaches (start.advance n).skipBlanks :=
      (start.reaches_advance n).trans (Cursor.reaches_skipBlanks _)
    refine returns_lift hbody.move? ?_
    dsimp only
    split
    · rename_i hattributes
      obtain ⟨rest, hrest⟩ := head?_of_hasAttributes hattributes
      have hread := readsAs_attributesFrom? ((start.advance n).skipBlanks.reaches_advance 1)
      rw [Cursor.upTo_advance_one hrest] at hread
      refine hread.returns.bind_map fun found hfound => ?_
      rw [Cursor.upTo_add hbody (hread.reaches found hfound)]
      exact returns_pure _
    · exact returns_pure _

/-! ## 3. Lists -/

/-- What is read below the line of a step. -/
def readBelow (fuel : Nat) (line : Line) (id : StepId) (lines : List Line) :
    Except StepError (Option StepList × List Line × StepId) :=
  match lines with
  | [] => .ok (none, [], id)
  | first :: others =>
    if line.indent < first.indent then do
      let (steps, after, next) ← readList fuel first.indent none id (first :: others)
      .ok (some (StepList.ofSteps steps), after, next)
    else .ok (none, first :: others, id)

/-- One step of a list. -/
def readStep (fuel : Nat) (id : StepId) (line : Line) (lines : List Line) :
    Except StepError (Step × List Line × StepId) := do
  let head ← headOf line
  let (sublist, after, next) ← readBelow fuel line (id + 1) (lines.dropWhile (continues line))
  return (⟨id, head.marker, head.attributes, contentOf head (lines.takeWhile (continues line)), sublist⟩,
    after, next)

theorem readList_cons (fuel indent : Nat) (kind : Option ListKind) (id : StepId) (line : Line)
    (lines : List Line) :
    readList (fuel + 1) indent kind id (line :: lines) =
      if line.indent < indent then .ok ([], line :: lines, id)
      else if indent < line.indent then .error (.expectedStep line.start)
      else do
        let (step, after, next) ← readStep fuel id line lines
        if kind.any (· ≠ step.kind) then throw (.inconsistentMarkers step.marker.offset)
        let (steps, rest, next) ← readList fuel indent (some step.kind) next after
        return (step :: steps, rest, next) := by
  rw [readList]
  split
  · rfl
  split
  · rfl
  unfold readStep readBelow
  cases headOf line with
  | error e => rfl
  | ok head =>
    dsimp only [bind, Except.bind]
    cases lines.dropWhile (continues line) with
    | nil => rfl
    | cons first others =>
      dsimp only
      split
      · cases readList fuel first.indent none (id + 1) (first :: others) with
        | error e => rfl
        | ok found => rfl
      · rfl

/-- The lines of a text from any of them on stand in a part of the text. -/
theorem lined_drop (t : Text) (n : Nat) :
    ∃ offset rest, t.Holds offset rest ∧ Lined offset rest (t.lines.drop n) := by
  have hlined := t.lined_lines
  rw [← List.take_append_drop n t.lines] at hlined
  obtain ⟨⟨rest, ht, hrest⟩, -⟩ := hlined.split
  refine ⟨_, rest, ?_, hrest⟩
  rw [Nat.zero_add]
  exact ⟨_, [], by rw [List.append_nil]; exact ht, rfl⟩

/-- The last of some lines ends where the lines end. -/
theorem stop_getLast? {offset : Nat} {t : Text} {first others : List Line}
    (h : Lined offset t (first ++ others)) :
    (first.getLast?.map Line.stop).getD offset = offset + (joined first).size := by
  induction first generalizing offset t with
  | nil => rfl
  | cons line first ih =>
    cases h with
    | @line _ _ rest _ hgap hstart hrest =>
      have hsize : offset + (joined (line :: first)).size = line.stop + (joined first).size := by
        show offset + size ((line.gap ++ line.text) ++ joined first) = _
        rw [size_append, size_append, Line.stop, hstart]
        omega
      rw [hsize, ← ih hrest, List.getLast?_cons]
      cases first.getLast? with
      | none => rfl
      | some last => rfl

/-- The content of a step is the slice from the end of its head to the end of its last line. -/
theorem slice?_content {t : Text} {position : Nat} {line : Line} {lines : List Line} {head : Head}
    (hlines : t.lines.drop position = line :: lines) (hhead : headOf line = .ok head) :
    t.slice? head.content.offset
        (((lines.takeWhile (continues line)).getLast?.map Line.stop).getD (max line.stop head.content.offset)) =
      some (contentOf head (lines.takeWhile (continues line))).text := by
  obtain ⟨offset, rest, hrest, hlined⟩ := lined_drop t position
  rw [hlines, ← List.takeWhile_append_dropWhile (p := continues line) (l := lines)] at hlined
  obtain ⟨between, hdivides⟩ := divides_headOf hhead
  obtain ⟨⟨gap, between', left, hopens, -⟩, -⟩ := opens_of_lined hlined hhead 0 none
  have hcontent := (hopens.holds hrest).2.2.1
  -- the head does not go past its line, so without further lines the step ends where the line does
  have hmax : max line.stop head.content.offset = line.stop := by
    have := hdivides.stop
    omega
  have hstop : ((lines.takeWhile (continues line)).getLast?.map Line.stop).getD line.stop =
      (contentOf head (lines.takeWhile (continues line))).stop := by
    cases hlined with
    | @line _ _ rest _ hgap hstart hrest =>
      rw [stop_getLast? hrest, ← hdivides.stop, Fragment.stop]
      show _ = head.content.offset + size (head.content.rest ++ joined _)
      rw [size_append, Nat.add_assoc]
  rw [hmax, hstop]
  exact slice?_of_holds hcontent

section Lists

variable {t : Text} {fuel position : Nat} {id : StepId}

/-- The number of the first of some last lines of a text. -/
def placeOf (t : Text) (rest : List Line) : Nat := t.lines.length - rest.length

theorem placeOf_drop {n : Nat} (h : n ≤ t.lines.length) : placeOf t (t.lines.drop n) = n := by
  rw [placeOf, List.length_drop]
  omega

theorem drop_placeOf {taken rest : List Line} (h : t.lines.drop position = taken ++ rest) :
    t.lines.drop (placeOf t rest) = rest := by
  have hall : t.lines = t.lines.take position ++ taken ++ rest := by
    rw [List.append_assoc, ← h, List.take_append_drop]
  generalize t.lines.take position ++ taken = before at hall
  rw [placeOf, hall, List.length_append, Nat.add_sub_cancel]
  exact List.drop_left

theorem getElem?_eq_head?_drop (lines : List Line) (n : Nat) : lines[n]? = (lines.drop n).head? :=
  List.head?_drop.symm

/-- One step leaves the last of the lines after it. -/
theorem suffix_readStep {line : Line} {lines after : List Line} {step : Step} {next : StepId}
    (h : readStep fuel id line lines = .ok (step, after, next)) (hfuel : lines.length ≤ fuel) :
    ∃ taken, lines = taken ++ after := by
  obtain ⟨head, -, h⟩ := bind_eq_ok_iff.mp h
  obtain ⟨⟨sublist, rest, last⟩, hbelow, h⟩ := bind_eq_ok_iff.mp h
  cases h
  have hlines := List.takeWhile_append_dropWhile (p := continues line) (l := lines)
  have hlength : (lines.dropWhile (continues line)).length ≤ fuel :=
    (List.dropWhile_suffix _).length_le.trans hfuel
  generalize lines.dropWhile (continues line) = below at *
  unfold readBelow at hbelow
  split at hbelow
  · cases hbelow
    exact ⟨_, hlines.symm⟩
  · split at hbelow
    · obtain ⟨⟨steps, rest, last⟩, hread, hbelow⟩ := bind_eq_ok_iff.mp hbelow
      cases hbelow
      obtain ⟨⟨taken, htaken, -⟩, -, -⟩ := readList_taken hread hlength
      exact ⟨_, by rw [List.append_assoc, ← htaken]; exact hlines.symm⟩
    · cases hbelow
      exact ⟨_, hlines.symm⟩

/-- A reader by positions that gives what reading a list gives. -/
def ReturnsLists (t : Text) (fuel : Nat) : Prop :=
  ∀ indent kind id position, position ≤ t.lines.length → (t.lines.drop position).length ≤ fuel →
    Returns (readListAt? t t.lines indent kind position id)
      ((readList fuel indent kind id (t.lines.drop position)).map fun found =>
        (found.1, placeOf t found.2.1, found.2.2))

theorem returns_readBelowAt? (hlist : ReturnsLists t fuel) (line : Line) (hposition : position ≤ t.lines.length)
    (hfuel : (t.lines.drop position).length ≤ fuel) (id : StepId) :
    Returns (readBelowAt? t t.lines line position id)
      ((readBelow fuel line id (t.lines.drop position)).map fun found =>
        (found.1, placeOf t found.2.1, found.2.2)) := by
  have hread : ∀ indent, _ := fun indent => hlist indent none id position hposition hfuel
  have hplace := placeOf_drop hposition
  rw [readBelowAt?, getElem?_eq_head?_drop]
  cases hlines : t.lines.drop position with
  | nil =>
    rw [hlines] at hplace
    rw [← hplace]
    exact returns_pure _
  | cons first others =>
    rw [hlines] at hread hplace
    dsimp only [List.head?_cons, readBelow]
    split
    · exact (hread first.indent).bind_map fun found _ => returns_pure _
    · rw [← hplace]
      exact returns_pure _

theorem returns_readStepAt? (hlist : ReturnsLists t fuel) {line : Line} {lines : List Line}
    (hlines : t.lines.drop position = line :: lines) (hfuel : lines.length ≤ fuel) (id : StepId) :
    Returns (readStepAt? t t.lines position id)
      ((readStep fuel id line lines).map fun found => (found.1, placeOf t found.2.1, found.2.2)) := by
  have hline : t.lines[position]? = some line := by rw [getElem?_eq_head?_drop, hlines]; rfl
  have hnext : t.lines.drop (position + 1) = lines := by
    rw [← List.drop_drop, hlines]
    rfl
  -- what is below the step begins after the lines that continue it
  have hdrop : t.lines.drop (position + 1 + (lines.takeWhile (continues line)).length) =
      lines.dropWhile (continues line) := by
    have hleft := @List.drop_left _ (lines.takeWhile (continues line)) (lines.dropWhile (continues line))
    rw [List.takeWhile_append_dropWhile] at hleft
    rw [← List.drop_drop, hnext, hleft]
  have hposition : position + 1 + (lines.takeWhile (continues line)).length ≤ t.lines.length := by
    have hlength := congrArg List.length hlines
    have hbegins := (List.takeWhile_prefix (continues line) (l := lines)).length_le
    rw [List.length_drop, List.length_cons] at hlength
    omega
  have hbelow := returns_readBelowAt? hlist line hposition
    (by rw [hdrop]; exact (List.dropWhile_suffix _).length_le.trans hfuel) (id + 1)
  rw [hdrop] at hbelow
  rw [readStepAt?]
  refine returns_lift hline ?_
  refine (returns_headAt? line).bind_map fun head hhead => ?_
  have hstart : line.start + (Cursor.atStart line.text line.start).upTo head.content = head.content.offset :=
    (reaches_headOf hhead).offset_eq.symm
  simp only [hstart, hnext]
  refine returns_lift (slice?_content hlines hhead) ?_
  exact hbelow.bind_map fun found _ => returns_pure _

theorem returnsLists (t : Text) (fuel : Nat) : ReturnsLists t fuel := by
  -- the fuel counts the lines that are left, and the number of a line stands for the lines from it on
  induction fuel with
  | zero =>
    intro indent kind id position hposition hfuel
    have hnil := List.eq_nil_of_length_eq_zero (Nat.le_zero.mp hfuel)
    have hplace := placeOf_drop hposition
    rw [hnil] at hplace
    rw [readListAt?, getElem?_eq_head?_drop, hnil, ← hplace]
    exact returns_pure _
  | succ fuel ih =>
    intro indent kind id position hposition hfuel
    have hplace := placeOf_drop hposition
    rw [readListAt?, getElem?_eq_head?_drop]
    cases hlines : t.lines.drop position with
    | nil =>
      rw [hlines] at hplace
      rw [← hplace]
      exact returns_pure _
    | cons line lines =>
      have hlength : lines.length ≤ fuel := by
        rw [hlines, List.length_cons] at hfuel
        omega
      rw [hlines] at hplace
      rw [readList_cons, List.head?_cons]
      dsimp only
      split
      · rw [← hplace]
        exact returns_pure _
      split
      · exact returns_throw _
      refine (returns_readStepAt? ih hlines hlength id).bind_map fun found hfound => ?_
      obtain ⟨step, after, next⟩ := found
      obtain ⟨taken, htaken⟩ := suffix_readStep hfound hlength
      -- the number that comes back with the step is that of the first line after it
      have hrest : t.lines.drop (placeOf t after) = after := by
        refine @drop_placeOf t position (line :: taken) after ?_
        rw [hlines, htaken]
        rfl
      have hafter : after.length ≤ fuel := by
        rw [htaken, List.length_append] at hlength
        omega
      have hothers := ih indent (some step.kind) next (placeOf t after) (Nat.sub_le _ _) (by rwa [hrest])
      rw [hrest] at hothers
      dsimp only
      split
      · exact returns_throw _
      · exact hothers.bind_map fun found _ => returns_pure _

end Lists

/-- Reading an algorithm by positions never fails to give a result. -/
theorem returns_readAlgorithmAt? (t : Text) : Returns (readAlgorithmAt? t) (readAlgorithm t) := by
  unfold readAlgorithmAt? readAlgorithm
  cases hlines : t.lines with
  | nil => exact returns_pure _
  | cons first lines =>
    have hlist := returnsLists t (lines.length + 1) first.indent none 0 0 (Nat.zero_le _)
      (by rw [List.drop_zero, hlines]; exact Nat.le_refl _)
    rw [List.drop_zero, hlines] at hlist
    refine hlist.bind_of_map fun found hfound => ?_
    obtain ⟨steps, rest, last⟩ := found
    obtain ⟨⟨taken, htaken, -⟩, -, -⟩ := readList_taken hfound (Nat.le_refl _)
    have hrest : t.lines.drop (placeOf t rest) = rest := by
      refine @drop_placeOf t 0 taken rest ?_
      rw [List.drop_zero, hlines, htaken]
    dsimp only
    rw [← hlines, getElem?_eq_head?_drop, hrest]
    cases rest with
    | nil => exact returns_pure _
    | cons line rest => exact returns_throw _

end Errata.Step
