import Errata.Proofs.Grammar.Productions

/-!
# Reading grammar line by line

A text of grammar can also be read in one pass over its lines, which keeps the production that is being read
and writes more right-hand sides into it. Adding alternatives to a production that is no `one of` has no
result there. This never comes to pass, and the pass gives what reading by groups gives.
-/

namespace Errata.Grammar

open Text

/-! ## 1. One line after another -/

/-- A production whose lines are still being read. -/
structure Pending where
  production : Production
  isOneOf : Bool

/-- What has been read of a text. -/
structure Progress where
  /-- The indentation of the first line. -/
  base : Option Nat
  current : Option Pending
  /-- Whether the last header could not be read. -/
  skipping : Bool
  productions : List Production
  errors : List SyntaxError

/-- Adds alternatives to the `one of` that the first right-hand side begins with, if it does. -/
def extend? (offset : Nat) (symbols : List Symbol) (sides : List RightHandSide) :
    Option (List RightHandSide) :=
  match if sides.isEmpty then (Body.oneOf (some (offset, []))).rightHandSides else sides with
  | ⟨guard, .oneOf mark before :: others, start⟩ :: later =>
    some (⟨guard, .oneOf mark (before ++ symbols) :: others, start⟩ :: later)
  | _ => none

/-- The right-hand sides on the header's own line, and whether they are those of a `one of`. -/
def sidesOf? (tail : Cursor) : Except SyntaxError (Option (List RightHandSide × Bool)) :=
  match keyword? oneOfScan tail with
  | some alternatives =>
    if alternatives.isDone then .ok (some ([], true))
    else do
      let symbols ← alternativesAt alternatives
      return (extend? alternatives.offset symbols []).map (·, true)
  | none => do return some ([← rightHandSideAt tail], false)

def pendingOf? (source : Nat) (line : Line) : Except SyntaxError (Option Pending) :=
  match headerParts? line with
  | none => .error ⟨line.start, .production⟩
  | some parts => do
    let parameters ←
      parts.parameters.elim (.ok []) fun list => parametersOf list.offset (list.text.pieces ',')
    let sides ← parts.tail.elim (.ok (some ([], false))) sidesOf?
    return sides.map fun (rightHandSides, isOneOf) =>
      ⟨{ name := parts.name, offset := line.start, source, parameters, rightHandSides }, isOneOf⟩

namespace Progress

def start : Progress := ⟨none, none, false, [], []⟩

def isHeader (s : Progress) (line : Line) : Bool := s.base.all (line.indent ≤ ·)

def report (s : Progress) (e : SyntaxError) : Progress := { s with errors := s.errors ++ [e] }

/-- Ends the production that is being read. -/
def finish (s : Progress) : Progress :=
  match s.current with
  | none => s
  | some ⟨p, _⟩ =>
    if p.rightHandSides.isEmpty then { s with current := none }.report ⟨p.offset, .rightHandSide⟩
    else { s with current := none, productions := s.productions ++ [p] }

def setSides (s : Progress) (pending : Pending) (sides : List RightHandSide) : Progress :=
  { s with current := some { pending with
      production := { pending.production with rightHandSides := sides } } }

/-- Reads one line. There is no result if alternatives are added to what is not a `one of`. -/
def step? (source : Nat) (s : Progress) (line : Line) : Option Progress :=
  if s.isHeader line then
    let closed := { s.finish with base := some (s.base.getD line.indent) }
    match pendingOf? source line with
    | .error e => some ({ closed with skipping := true }.report e)
    | .ok none => none
    | .ok (some pending) => some { closed with current := some pending, skipping := false }
  else
    match s.current with
    | none =>
      if s.skipping then some s
      else some ({ s with skipping := true }.report ⟨line.start, .production⟩)
    | some pending =>
      let sides := pending.production.rightHandSides
      if pending.isOneOf then
        match alternativesAt (.atStart line.text line.start) with
        | .error e => some (s.report e)
        | .ok symbols => (extend? line.start symbols sides).map (s.setSides pending)
      else
        match rightHandSideAt (.atStart line.text line.start) with
        | .error e => some (s.report e)
        | .ok side => some (s.setSides pending (sides ++ [side]))

def run? (source : Nat) (s : Progress) (lines : List Line) : Option Progress :=
  lines.foldlM (step? source) s

end Progress

/-- The productions of a text, read line by line. -/
def readByLine? (source : Nat) (text : Text) : Option Compilation :=
  (Progress.start.run? source text.lines).map fun s =>
    { productions := s.finish.productions
      diagnostics := s.finish.errors.map (·.diagnostic source) }

/-! ## 2. Bodies -/

def Body.isOneOf : Body → Bool
  | .listed _ => false
  | .oneOf _ => true

def Pending.of (p : Production) (body : Body) : Pending :=
  ⟨{ p with rightHandSides := body.rightHandSides }, body.isOneOf⟩

/-- What `one of` begins can always be extended. -/
theorem extend?_rightHandSides (found : Option (Nat × List Symbol)) (offset : Nat)
    (symbols : List Symbol) :
    extend? offset symbols (Body.oneOf found).rightHandSides =
      some (Body.oneOf (addAlternatives found offset symbols)).rightHandSides := by
  cases found with
  | none => rfl
  | some before => rfl

theorem sidesOf?_eq (tail : Cursor) :
    sidesOf? tail = (headerBody tail).map fun body => some (body.rightHandSides, body.isOneOf) := by
  unfold sidesOf? headerBody
  cases keyword? oneOfScan tail with
  | none => cases rightHandSideAt tail <;> rfl
  | some alternatives =>
    by_cases hdone : alternatives.isDone = true
    · simp only [if_pos hdone]
      rfl
    · simp only [if_neg hdone]
      cases alternativesAt alternatives <;> rfl

theorem pendingOf?_eq (source : Nat) (line : Line) :
    pendingOf? source line =
      (headerOf source line).map fun begun => some (Pending.of begun.1 begun.2) := by
  cases hparts : headerParts? line with
  | none =>
    unfold pendingOf? headerOf
    rw [hparts]
    rfl
  | some parts =>
    rw [headerOf_eq source hparts]
    unfold pendingOf?
    rw [hparts]
    dsimp only
    generalize parts.parameters.elim _ _ = parameters
    cases parameters with
    | error e => rfl
    | ok parameters =>
      cases parts.tail with
      | none => rfl
      | some tail =>
        rw [Option.elim_some, Option.elim_some, sidesOf?_eq]
        cases headerBody tail <;> rfl

/-! ## 3. Groups -/

namespace Progress

variable {source : Nat} {s : Progress} {p : Production} {line : Line}

theorem current_finish (s : Progress) : s.finish.current = none := by
  unfold finish
  split
  · assumption
  · split
    · rfl
    · rfl

theorem finish_of_none (h : s.current = none) : s.finish = s := by
  rw [finish, h]

/-- The progress after a line under the header of `p`. -/
def take (s : Progress) (p : Production) : Except SyntaxError Body → Progress
  | .ok more => { s with current := some (Pending.of p more) }
  | .error e => s.report e

theorem step?_under {body : Body} (hcurrent : s.current = some (Pending.of p body))
    (hline : s.isHeader line = false) :
    s.step? source line = some (s.take p (body.add line)) := by
  rw [step?, if_neg (by rw [hline]; exact Bool.false_ne_true), hcurrent]
  unfold Body.add
  dsimp only
  cases body with
  | listed sides =>
    rw [if_neg (show ¬(Pending.of p (.listed sides)).isOneOf = true from Bool.false_ne_true)]
    dsimp only
    generalize rightHandSideAt _ = read
    cases read <;> rfl
  | oneOf found =>
    rw [if_pos (show (Pending.of p (.oneOf found)).isOneOf = true from rfl)]
    dsimp only
    generalize alternativesAt _ = read
    cases read with
    | error e => rfl
    | ok symbols =>
      -- the first right-hand side is a `one of`, as the body is
      show Option.map _ (extend? line.start symbols (Body.oneOf found).rightHandSides) = _
      rw [extend?_rightHandSides]
      rfl

/-- The lines under a header that was read are added to its body. -/
theorem run?_under {body : Body} {lines : List Line}
    (hcurrent : s.current = some (Pending.of p body)) (hlines : ∀ line ∈ lines, s.isHeader line = false) :
    s.run? source lines = some { s with
      current := some (Pending.of p (body.addAll lines).1)
      errors := s.errors ++ (body.addAll lines).2 } := by
  induction lines generalizing s body with
  | nil =>
    rw [Body.addAll, List.append_nil, ← hcurrent]
    rfl
  | cons line lines ih =>
    obtain ⟨hline, hlines⟩ := List.forall_mem_cons.mp hlines
    rw [run?, List.foldlM_cons, step?_under hcurrent hline, Body.addAll]
    cases body.add line with
    | ok more => exact ih rfl hlines
    | error e =>
      refine (ih (s := s.report e) hcurrent hlines).trans ?_
      rw [report, List.append_assoc]
      rfl

/-- Nothing is read under a header that has an error. -/
theorem run?_skipped {lines : List Line} (hcurrent : s.current = none) (hskipping : s.skipping = true)
    (hlines : ∀ line ∈ lines, s.isHeader line = false) : s.run? source lines = some s := by
  induction lines with
  | nil => rfl
  | cons line lines ih =>
    obtain ⟨hline, hlines⟩ := List.forall_mem_cons.mp hlines
    have hstep : s.step? source line = some s := by
      rw [step?, if_neg (by rw [hline]; exact Bool.false_ne_true), hcurrent]
      exact if_pos hskipping
    rw [run?, List.foldlM_cons, hstep]
    exact ih hlines

/-- A header ends the production before it, and a group is read as a whole. -/
theorem run?_group {header : Line} {lines : List Line} {indent : Nat}
    (hbase : s.base.getD header.indent = indent) (hheader : header.indent ≤ indent)
    (hlines : ∀ line ∈ lines, indent < line.indent) :
    ∃ s', s.run? source (header :: lines) = some s' ∧ s'.base = some indent ∧
      s'.finish.productions = s.finish.productions ++ (readGroup source header lines).1.toList ∧
      s'.finish.errors = s.finish.errors ++ (readGroup source header lines).2 := by
  -- the first header of a text sets the indentation, and each other is compared with it
  have hisHeader : s.isHeader header = true := by
    cases hb : s.base with
    | none => rw [isHeader, hb]; rfl
    | some b =>
      rw [hb, Option.getD_some] at hbase
      rw [isHeader, hb, hbase]
      exact decide_eq_true hheader
  have hunder : ∀ s' : Progress, s'.base = some indent → ∀ line ∈ lines, s'.isHeader line = false := by
    intro s' hs' line hline
    rw [isHeader, hs']
    exact decide_eq_false (Nat.not_le_of_lt (hlines line hline))
  rw [run?, List.foldlM_cons, step?, if_pos hisHeader, pendingOf?_eq, hbase]
  unfold readGroup
  cases hhead : headerOf source header with
  | error e =>
    -- the production before the header is finished, and nothing is begun
    refine ⟨_, run?_skipped (current_finish s) rfl (hunder _ rfl), rfl, ?_⟩
    rw [finish_of_none (by exact current_finish s)]
    exact ⟨(List.append_nil _).symm, rfl⟩
  | ok begun =>
    obtain ⟨p, body⟩ := begun
    refine ⟨_, run?_under rfl (hunder _ rfl), rfl, ?_⟩
    rw [← (exists_of_headerOf hhead).1]
    show (finish ⟨_, some (Pending.of p (body.addAll lines).1), _, _, _⟩).productions = _ ∧
      (finish ⟨_, some (Pending.of p (body.addAll lines).1), _, _, _⟩).errors = _
    unfold finish Pending.of
    cases hsides : (body.addAll lines).1.rightHandSides with
    | nil => simp [hsides, report]
    | cons first sides => simp [hsides]

/-- Groups are read one after another. -/
theorem run?_groups {indent : Nat} {groups : List (Line × List Line)}
    (hbase : ∀ g ∈ groups.head?, s.base.getD g.1.indent = indent)
    (hgroups : ∀ g ∈ groups, g.1.indent ≤ indent ∧ ∀ line ∈ g.2, indent < line.indent) :
    ∃ s', s.run? source (groups.flatMap fun g => g.1 :: g.2) = some s' ∧
      s'.finish.productions =
        s.finish.productions ++ groups.flatMap (fun g => (readGroup source g.1 g.2).1.toList) ∧
      s'.finish.errors = s.finish.errors ++ groups.flatMap (fun g => (readGroup source g.1 g.2).2) := by
  induction groups generalizing s with
  | nil => exact ⟨s, rfl, (List.append_nil _).symm, (List.append_nil _).symm⟩
  | cons g groups ih =>
    obtain ⟨⟨hheader, hlines⟩, hgroups⟩ := List.forall_mem_cons.mp hgroups
    -- what the first group leaves to finish is finished by the next header, or at the end
    obtain ⟨s₁, hrun₁, hbase₁, hproductions₁, herrors₁⟩ := run?_group (hbase g rfl) hheader hlines
    obtain ⟨s₂, hrun₂, hproductions₂, herrors₂⟩ :=
      ih (s := s₁) (fun g' _ => by rw [hbase₁, Option.getD_some]) hgroups
    refine ⟨s₂, ?_, ?_, ?_⟩
    · rw [List.flatMap_cons, run?, List.foldlM_append, ← run?, hrun₁]
      exact hrun₂
    · rw [hproductions₂, hproductions₁, List.append_assoc]
      rfl
    · rw [herrors₂, herrors₁, List.append_assoc]
      rfl

end Progress

/-! ## 4. Texts -/

/-- Reading line by line never fails, and gives what reading by groups gives. -/
theorem readByLine?_eq (source : Nat) (t : Text) : readByLine? source t = some (readSource source t) := by
  have hrun : ∃ s', Progress.start.run? source t.lines = some s' ∧
      s'.finish.productions = (groups t).flatMap (fun g => (readGroup source g.1 g.2).1.toList) ∧
      s'.finish.errors = (groups t).flatMap (fun g => (readGroup source g.1 g.2).2) := by
    cases hlines : t.lines with
    | nil =>
      have hnone : groups t = [] := by rw [groups, hlines]
      rw [hnone]
      exact ⟨Progress.start, rfl, rfl, rfl⟩
    | cons first lines =>
      rw [← hlines, ← flatMap_groups t]
      refine Progress.run?_groups (fun g hg => ?_) (indent_of_mem_groups hlines)
      have hhead : g.1 = first := by
        have hflat := flatMap_groups t
        obtain ⟨rest, hrest⟩ := List.head?_eq_some_iff.mp hg
        rw [hrest, hlines] at hflat
        exact (List.cons.inj hflat).1
      rw [hhead]
      rfl
  obtain ⟨s', hs', hproductions, herrors⟩ := hrun
  rw [readByLine?, hs', Option.map_some, hproductions, herrors]
  rw [readSource_eq, List.filterMap_eq_flatMap_toList]

theorem diagnostics_compile (sources : List Text) (checks : Bool) :
    (compile sources checks).diagnostics =
      (sources.zipIdx.flatMap fun entry => (readSource entry.2 entry.1).diagnostics) ++
        if checks then
          duplicates [] (compile sources checks).productions ++
            (compile sources checks).productions.flatMap unusedParameters
        else [] := by
  have hread := List.flatMap_map (fun entry : Text × Nat => readSource entry.2 entry.1)
    Compilation.diagnostics sources.zipIdx
  rw [← hread]
  cases checks with
  | false => exact (List.append_nil _).symm
  | true => exact List.append_assoc _ _ _

/-- Reading texts line by line never fails. Each production is written in its text as it says, and the
productions stand in the order of the texts and of the lines in them. -/
theorem compile_faithful (sources : List Text) (checks : Bool) :
    (∃ read, sources.zipIdx.mapM (fun entry => readByLine? entry.2 entry.1) = some read ∧
      (compile sources checks).productions = read.flatMap Compilation.productions ∧
      (compile sources checks).diagnostics = read.flatMap Compilation.diagnostics ++
        if checks then
          duplicates [] (compile sources checks).productions ++
            (compile sources checks).productions.flatMap unusedParameters
        else []) ∧
    (∀ p ∈ (compile sources checks).productions, ∃ t, sources[p.source]? = some t ∧ p.IsFaithful t) ∧
    (compile sources checks).productions.Pairwise fun p q =>
      p.source < q.source ∨ p.source = q.source ∧ p.offset < q.offset := by
  refine ⟨⟨sources.zipIdx.map fun entry => readSource entry.2 entry.1, ?_, ?_, ?_⟩, ?_, ?_⟩
  · simp only [readByLine?_eq]
    exact List.mapM_pure
  · rw [productions_compile, List.flatMap_map]
  · rw [diagnostics_compile, List.flatMap_map]
  · rw [productions_compile]
    intro p hp
    obtain ⟨⟨t, i⟩, hi, hp⟩ := List.mem_flatMap.mp hp
    obtain ⟨hfaithful, hsource⟩ := (readSource_faithful i t).1 p hp
    exact ⟨t, hsource ▸ List.mem_zipIdx_iff_getElem?.mp hi, hfaithful⟩
  · rw [productions_compile, List.pairwise_flatMap]
    refine ⟨fun entry _ => ?_, ?_⟩
    · obtain ⟨hsource, horder⟩ := readSource_faithful entry.2 entry.1
      refine horder.imp_of_mem fun {p q} hp hq hlt => .inr ⟨?_, hlt⟩
      rw [(hsource p hp).2, (hsource q hq).2]
    · have hindex : sources.zipIdx.Pairwise (·.2 < ·.2) := by
        rw [← List.pairwise_map (f := Prod.snd) (R := (· < ·)), List.zipIdx_map_snd]
        exact List.pairwise_lt_range'
      refine hindex.imp fun {a b} hlt p hp q hq => .inl ?_
      rw [((readSource_faithful a.2 a.1).1 p hp).2, ((readSource_faithful b.2 b.1).1 q hq).2]
      exact hlt

end Errata.Grammar
