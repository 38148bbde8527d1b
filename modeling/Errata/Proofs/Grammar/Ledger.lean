import Errata.Proofs.Grammar.Loop

/-!
# No line of grammar is lost

A ledger of a text has an entry for each header with the lines under it. The entry says what was read on
each of these lines, a right-hand side, alternatives or an error, and from this alone follow the production
and the errors of the header. All productions and all errors of a text are those of its ledger.
-/

namespace Errata.Grammar

open Text

/-! ## 1. Entries -/

/-- What the lines of one header account for. -/
inductive Entry where
  /-- The header has an error, and the lines under it account for nothing. -/
  | failed (header : Line) (e : SyntaxError) (under : List Line)
  /-- Each line has one right-hand side. There may be one on the header's own line. -/
  | listed (header : Line) (begun : Production) (inline : Option RightHandSide)
      (under : List (Line × Except SyntaxError RightHandSide))
  /-- Each line has alternatives. There may be some on the header's own line. -/
  | oneOf (header : Line) (begun : Production) (inline : Option (Nat × List Symbol))
      (under : List (Line × Except SyntaxError (List Symbol)))

def failure? {α : Type} : Except SyntaxError α → Option SyntaxError
  | .error e => some e
  | .ok _ => none

/-- The alternatives of several lines are those of one `one of`, which begins where the first do. -/
def gather : List (Nat × List Symbol) → Option (Nat × List Symbol)
  | [] => none
  | (offset, symbols) :: more => some (offset, symbols ++ more.flatMap Prod.snd)

namespace Entry

def header : Entry → Line
  | failed header _ _ => header
  | listed header _ _ _ => header
  | oneOf header _ _ _ => header

def under : Entry → List Line
  | failed _ _ under => under
  | listed _ _ _ under => under.map Prod.fst
  | oneOf _ _ _ under => under.map Prod.fst

/-- The right-hand sides that the lines account for. -/
def sides : Entry → List RightHandSide
  | failed _ _ _ => []
  | listed _ _ inline under => inline.toList ++ under.filterMap (·.2.toOption)
  | oneOf _ _ inline under =>
    (Body.oneOf (gather (inline.toList ++
      under.filterMap fun read => read.2.toOption.map (read.1.start, ·)))).rightHandSides

/-- The production as the header begins it, if the header was read. -/
def begun? : Entry → Option Production
  | failed _ _ _ => none
  | listed _ begun _ _ => some begun
  | oneOf _ begun _ _ => some begun

/-- A production is kept if it has right-hand sides. -/
def production? (entry : Entry) : Option Production :=
  if entry.sides = [] then none
  else entry.begun?.map fun begun => { begun with rightHandSides := entry.sides }

/-- The errors that the lines under the header account for. -/
def lineErrors : Entry → List SyntaxError
  | failed _ _ _ => []
  | listed _ _ _ under => under.filterMap (failure? ·.2)
  | oneOf _ _ _ under => under.filterMap (failure? ·.2)

/-- The errors that the header's own line accounts for. A production that is not kept is one. -/
def headerErrors (entry : Entry) : List SyntaxError :=
  match entry with
  | failed _ e _ => [e]
  | _ => if entry.sides = [] then [⟨entry.header.start, .rightHandSide⟩] else []

def errors (entry : Entry) : List SyntaxError := entry.lineErrors ++ entry.headerErrors

end Entry

/-- The error lies on the line, and is not that of a production without right-hand sides. -/
structure SyntaxError.IsOf (line : Line) (e : SyntaxError) : Prop where
  start_le : line.start ≤ e.offset
  le_stop : e.offset ≤ line.stop
  expected : e.expected ≠ .rightHandSide

/-- The entry says what reading the header and the lines gives. -/
def Entry.IsSettled (source : Nat) : Entry → Prop
  | failed header e _ => headerOf source header = .error e ∧ e.IsOf header
  | listed header begun inline under =>
    headerOf source header = .ok (begun, .listed inline.toList) ∧ begun.offset = header.start ∧
      ∀ read ∈ under, rightHandSideAt (.atStart read.1.text read.1.start) = read.2 ∧
        Ends (SyntaxError.IsOf read.1) (fun side => side.offset = read.1.start) read.2
  | oneOf header begun inline under =>
    headerOf source header = .ok (begun, .oneOf inline) ∧ begun.offset = header.start ∧
      (∀ found ∈ inline, found.2 ≠ []) ∧
      ∀ read ∈ under, alternativesAt (.atStart read.1.text read.1.start) = read.2 ∧
        Ends (SyntaxError.IsOf read.1) (fun symbols => symbols ≠ []) read.2

/-- The header's own line accounts for a production that begins there, or for one error: what is wrong on
the line, or that there are no right-hand sides. -/
def Entry.HeaderAccounts (entry : Entry) : Prop :=
  (∃ p, entry.production? = some p ∧ p.offset = entry.header.start ∧ entry.headerErrors = []) ∨
    ∃ e, entry.production? = none ∧ entry.headerErrors = [e] ∧
      (e.IsOf entry.header ∨ e = ⟨entry.header.start, .rightHandSide⟩)

/-- Each line of the text is in one entry, as the header if it is indented no more than the first line. -/
structure IsLedger (source : Nat) (t : Text) (entries : List Entry) : Prop where
  lines : entries.flatMap (fun entry => entry.header :: entry.under) = t.lines
  indent : ∀ first ∈ t.lines.head?, ∀ entry ∈ entries,
    entry.header.indent ≤ first.indent ∧ ∀ line ∈ entry.under, first.indent < line.indent
  settled : ∀ entry ∈ entries, entry.IsSettled source
  headers : ∀ entry ∈ entries, entry.HeaderAccounts

/-! ## 2. The entry of a group -/

def Entry.of (source : Nat) (header : Line) (under : List Line) : Entry :=
  match headerOf source header with
  | .error e => .failed header e under
  | .ok (begun, .listed sides) => .listed header begun sides.head?
    (under.map fun line => (line, rightHandSideAt (.atStart line.text line.start)))
  | .ok (begun, .oneOf found) => .oneOf header begun found
    (under.map fun line => (line, alternativesAt (.atStart line.text line.start)))

theorem Entry.header_of (source : Nat) (header : Line) (under : List Line) :
    (Entry.of source header under).header = header := by
  unfold Entry.of
  split <;> rfl

theorem Entry.under_of (source : Nat) (header : Line) (under : List Line) :
    (Entry.of source header under).under = under := by
  unfold Entry.of
  split
  · rfl
  · exact (List.map_map ..).trans (List.map_id _)
  · exact (List.map_map ..).trans (List.map_id _)

theorem gather_concat (found : List (Nat × List Symbol)) (offset : Nat) (symbols : List Symbol) :
    gather (found ++ [(offset, symbols)]) = addAlternatives (gather found) offset symbols := by
  cases found with
  | nil => simp [gather, addAlternatives]
  | cons first more => simp [gather, addAlternatives]

theorem gather_toList (found : Option (Nat × List Symbol)) : gather found.toList = found := by
  cases found with
  | none => rfl
  | some first => simp [gather]

theorem addAll_listed (sides : List RightHandSide) (lines : List Line) :
    let read := lines.map fun line => (line, rightHandSideAt (.atStart line.text line.start))
    (Body.listed sides).addAll lines =
      (.listed (sides ++ read.filterMap (·.2.toOption)), read.filterMap (failure? ·.2)) := by
  induction lines generalizing sides with
  | nil => simp [Body.addAll]
  | cons line lines ih =>
    have hadd : (Body.listed sides).add line =
        (rightHandSideAt (.atStart line.text line.start)).map fun side => .listed (sides ++ [side]) := by
      unfold Body.add
      dsimp only
      cases rightHandSideAt _ <;> rfl
    rw [Body.addAll, hadd]
    cases hread : rightHandSideAt (.atStart line.text line.start) with
    | error e => simp [Except.map, Except.toOption, failure?, hread, ih]
    | ok side => simp [Except.map, Except.toOption, failure?, hread, ih]

theorem addAll_oneOf (found : List (Nat × List Symbol)) (lines : List Line) :
    let read := lines.map fun line => (line, alternativesAt (.atStart line.text line.start))
    (Body.oneOf (gather found)).addAll lines =
      (.oneOf (gather (found ++ read.filterMap fun r => r.2.toOption.map (r.1.start, ·))),
        read.filterMap (failure? ·.2)) := by
  induction lines generalizing found with
  | nil => simp [Body.addAll]
  | cons line lines ih =>
    have hadd : (Body.oneOf (gather found)).add line =
        (alternativesAt (.atStart line.text line.start)).map fun symbols =>
          .oneOf (gather (found ++ [(line.start, symbols)])) := by
      simp only [gather_concat]
      unfold Body.add
      dsimp only
      cases alternativesAt _ <;> rfl
    rw [Body.addAll, hadd]
    cases hread : alternativesAt (.atStart line.text line.start) with
    | error e => simp [Except.map, Except.toOption, failure?, hread, ih]
    | ok symbols => simp [Except.map, Except.toOption, failure?, hread, ih]

/-- A header's own line has at most one right-hand side. -/
theorem listed_of_headerOf {source : Nat} {line : Line} {p : Production} {sides : List RightHandSide}
    (h : headerOf source line = .ok (p, .listed sides)) :
    ∃ inline : Option RightHandSide, sides = inline.toList := by
  obtain ⟨-, tail, hbody⟩ := exists_of_headerOf h
  cases tail with
  | none =>
    cases hbody
    exact ⟨none, rfl⟩
  | some tail =>
    rw [Option.elim_some] at hbody
    unfold headerBody at hbody
    split at hbody
    · split at hbody
      · cases hbody
      · obtain ⟨symbols, -, h⟩ := bind_eq_ok_iff.mp hbody
        cases h
    · obtain ⟨side, -, h⟩ := bind_eq_ok_iff.mp hbody
      cases h
      exact ⟨some side, rfl⟩

/-- The production and the errors of a group are those of its entry. -/
theorem readGroup_eq_entry (source : Nat) (header : Line) (under : List Line) :
    readGroup source header under =
      ((Entry.of source header under).production?, (Entry.of source header under).errors) := by
  unfold Entry.of
  cases hhead : headerOf source header with
  | error e =>
    rw [readGroup, hhead]
    rfl
  | ok begun =>
    obtain ⟨p, body⟩ := begun
    rw [readGroup_of_ok hhead]
    cases body with
    | listed sides =>
      obtain ⟨inline, rfl⟩ := listed_of_headerOf hhead
      dsimp only
      rw [addAll_listed, Option.head?_toList]
      rfl
    | oneOf found =>
      -- what stands on the header's own line is the first that is gathered
      have hall := addAll_oneOf found.toList under
      rw [gather_toList] at hall
      rw [hall]
      rfl

theorem SyntaxError.Follows.isOf {line : Line} {e : SyntaxError}
    (h : e.Follows (.atStart line.text line.start)) : e.IsOf line := by
  obtain ⟨d, hd, hoffset⟩ := h.leads
  exact ⟨hoffset ▸ hd.le, hoffset ▸ hd.le_stop, h.expected⟩

theorem Entry.isSettled_of {t : Text} (source : Nat) {header : Line} {under : List Line}
    (hheader : header ∈ t.lines) (hunder : ∀ line ∈ under, line ∈ t.lines) :
    (Entry.of source header under).IsSettled source := by
  have hends := ends_headerOf source hheader
  have hin : ∀ line ∈ under, (Cursor.atStart line.text line.start).In t := fun line hline =>
    holds_of_mem_lines (hunder line hline)
  unfold Entry.of
  cases hhead : headerOf source header with
  | error e => exact ⟨hhead, (hends.of_error hhead).isOf⟩
  | ok begun =>
    obtain ⟨p, body⟩ := begun
    obtain ⟨-, -, hoffset, -, hbody⟩ := hends.of_ok hhead
    cases body with
    | listed sides =>
      obtain ⟨inline, rfl⟩ := listed_of_headerOf hhead
      dsimp only
      rw [Option.head?_toList]
      refine ⟨hhead, hoffset, List.forall_mem_map.mpr fun line hline => ⟨rfl, ?_⟩⟩
      exact (ends_rightHandSideAt (hin line hline)).imp (fun e he => he.isOf)
        fun side hside => hside.2.1
    | oneOf found =>
      refine ⟨hhead, hoffset, fun inline hinline => (hbody inline.1 inline.2 hinline).2.1,
        List.forall_mem_map.mpr fun line hline => ⟨rfl, ?_⟩⟩
      exact (ends_alternativesAt (hin line hline)).imp (fun e he => he.isOf)
        fun symbols hsymbols => hsymbols.2 (isDone_skipBlanks_of_mem_lines (hunder line hline))

theorem Entry.IsSettled.headerAccounts {source : Nat} {entry : Entry} (h : entry.IsSettled source) :
    entry.HeaderAccounts := by
  -- a production that was begun is kept, or is the error that it has no right-hand sides
  have hbegun : ∀ begun, entry.begun? = some begun → begun.offset = entry.header.start →
      entry.headerErrors = (if entry.sides = [] then [⟨entry.header.start, .rightHandSide⟩] else []) →
      entry.HeaderAccounts := by
    intro begun hbegun hoffset herrors
    by_cases hsides : entry.sides = []
    · rw [if_pos hsides] at herrors
      exact .inr ⟨_, if_pos hsides, herrors, .inr rfl⟩
    · rw [if_neg hsides] at herrors
      refine .inl ⟨{ begun with rightHandSides := entry.sides }, ?_, hoffset, herrors⟩
      rw [Entry.production?, if_neg hsides, hbegun]
      rfl
  cases entry with
  | failed header e under => exact .inr ⟨e, rfl, rfl, .inl h.2⟩
  | listed header begun inline under => exact hbegun begun rfl h.2.1 rfl
  | oneOf header begun inline under => exact hbegun begun rfl h.2.1 rfl

/-! ## 3. The ledger of a text -/

def ledger (source : Nat) (t : Text) : List Entry :=
  (groups t).map fun g => Entry.of source g.1 g.2

theorem isSettled_of_mem_ledger {source : Nat} {t : Text} :
    ∀ entry ∈ ledger source t, entry.IsSettled source := by
  refine List.forall_mem_map.mpr fun g hg => ?_
  obtain ⟨hheader, hunder⟩ := List.forall_mem_cons.mp (mem_lines_of_mem_groups hg)
  exact Entry.isSettled_of source hheader hunder

theorem isLedger_ledger (source : Nat) (t : Text) : IsLedger source t (ledger source t) where
  lines := by
    rw [ledger, List.flatMap_map, ← flatMap_groups t]
    simp only [Entry.header_of, Entry.under_of]
  indent := by
    intro first hfirst
    obtain ⟨lines, hlines⟩ := List.head?_eq_some_iff.mp hfirst
    refine List.forall_mem_map.mpr fun g hg => ?_
    rw [Entry.header_of, Entry.under_of]
    exact indent_of_mem_groups hlines g hg
  settled := isSettled_of_mem_ledger
  headers := fun entry hentry => (isSettled_of_mem_ledger entry hentry).headerAccounts

theorem readSource_eq_ledger (source : Nat) (t : Text) :
    readSource source t =
      { productions := (ledger source t).filterMap Entry.production?
        diagnostics := ((ledger source t).flatMap Entry.errors).map (·.diagnostic source) } := by
  rw [readSource_eq, ledger, List.filterMap_map, List.flatMap_map]
  simp only [readGroup_eq_entry]
  rfl

/-- Every line of every text is accounted for once: the productions and the diagnostics are those of the
ledgers of the texts, and there are no others. -/
theorem compile_accounts (sources : List Text) :
    (∀ source t, Lined 0 t t.lines ∧ IsLedger source t (ledger source t)) ∧
    (compile sources false).productions =
      sources.zipIdx.flatMap (fun entry => (ledger entry.2 entry.1).filterMap Entry.production?) ∧
    (compile sources false).diagnostics =
      sources.zipIdx.flatMap fun entry =>
        ((ledger entry.2 entry.1).flatMap Entry.errors).map (·.diagnostic entry.2) := by
  refine ⟨fun source t => ⟨t.lined_lines, isLedger_ledger source t⟩, ?_, ?_⟩
  · rw [productions_compile]
    simp only [readSource_eq_ledger]
  · rw [diagnostics_compile, if_neg Bool.false_ne_true, List.append_nil]
    simp only [readSource_eq_ledger]

end Errata.Grammar
