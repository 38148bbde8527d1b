import Errata.Proofs.Grammar.Faithful
import Mathlib.Data.List.DropRight

/-!
# Productions stand as they are written

A header begins a production, and the lines under it add right-hand sides. The production, its name and its
parameters are written in the text at the positions that they record, and an error lies on the line that it
was found in.
-/

namespace Errata.Grammar

open Text

/-! ## 1. Headers -/

theorem leads_parametersAt (c : Cursor) :
    (∀ list, (parametersAt c).1 = some list →
      ∃ d more, c.Leads d ∧ d.offset = list.offset ∧ d.rest = list.text ++ more) ∧
      c.Leads (parametersAt c).2 := by
  unfold parametersAt
  split
  · rename_i rest hrest
    dsimp only
    split
    · refine ⟨fun list hlist => ?_, c.leads_advance _⟩
      cases hlist
      exact ⟨c.advance 1, _, c.leads_advance 1, rfl, (List.take_append_drop _ _).symm⟩
    · refine ⟨fun list hlist => ?_, .refl c⟩
      cases hlist
  · refine ⟨fun list hlist => ?_, .refl c⟩
    cases hlist

/-- The parts of a header are written in it. -/
structure HeaderParts.IsFaithful (c : Cursor) (parts : HeaderParts) : Prop where
  name : IsName parts.name ∧ parts.name <+: c.rest
  parameters : ∀ list, parts.parameters = some list →
    ∃ d more, c.Leads d ∧ d.offset = list.offset ∧ d.rest = list.text ++ more
  tail : ∀ d, parts.tail = some d → c.Leads d

theorem faithful_headerParts? {line : Line} {parts : HeaderParts} (h : headerParts? line = some parts) :
    parts.IsFaithful (.atStart line.text line.start) := by
  simp only [headerParts?, Option.bind_eq_bind, Option.bind_eq_some_iff] at h
  obtain ⟨⟨name, afterName⟩, hname, ⟨colons, tail⟩, hcolons, h⟩ := h
  have hafter := Cursor.leads_scan? hname
  obtain ⟨hlist, hparameters⟩ := leads_parametersAt afterName
  have hname' : IsName name.text ∧ name.text <+: line.text := by
    obtain ⟨n, hn, heq⟩ := Option.map_eq_some_iff.mp hname
    cases heq
    exact ⟨isName_take hn, List.take_prefix _ _⟩
  have hlists : ∀ list, (parametersAt afterName).1 = some list →
      ∃ d more, (Cursor.atStart line.text line.start).Leads d ∧ d.offset = list.offset ∧
        d.rest = list.text ++ more := by
    intro list hsome
    obtain ⟨d, more, hd, hrest⟩ := hlist list hsome
    exact ⟨d, more, hafter.trans hd, hrest⟩
  have htail := hafter.trans (hparameters.trans (Cursor.leads_scan? hcolons))
  split at h
  · cases h
    refine ⟨hname', hlists, fun d hd => ?_⟩
    cases hd
  · split at h
    · cases h
      refine ⟨hname', hlists, fun d hd => ?_⟩
      cases hd
      exact htail.trans tail.leads_skipBlanks
    · cases h

theorem isName_of_coversAll {t : Text} (h : nameScan.coversAll t = true) : IsName t := by
  obtain ⟨n, hn, htake⟩ := Scan.exists_of_coversAll h
  have hname := isName_take hn
  rwa [htake] at hname

/-- The parameter is written behind the cursor, where it says. -/
def Parameter.IsFaithful (c : Cursor) (p : Parameter) : Prop :=
  IsName p.name ∧ ∃ d, c.Leads d ∧ d.offset = p.offset ∧ p.name <+: d.rest

theorem Parameter.IsFaithful.of_leads {c d : Cursor} {p : Parameter} (h : p.IsFaithful d)
    (hd : c.Leads d) : p.IsFaithful c := by
  obtain ⟨hname, e, he, hat⟩ := h
  exact ⟨hname, e, hd.trans he, hat⟩

/-- A piece without its blanks stands behind those at its start. -/
theorem exists_leads_trim {c : Cursor} {piece more : Text} (hrest : c.rest = piece ++ more) :
    ∃ d, c.Leads d ∧ d.offset = c.offset + (piece.size - piece.trimStart.size) ∧
      piece.trim <+: d.rest := by
  obtain ⟨hsplit, hsize⟩ := piece.trimStart_append
  obtain ⟨htrim, -⟩ := piece.trimStart.trimEnd_append
  rw [← hsplit, List.append_assoc] at hrest
  obtain ⟨d, hd, hrest'⟩ := Cursor.exists_passes hrest
  refine ⟨d, ⟨_, hd⟩, by rw [hd.2, hsize], ?_⟩
  rw [hrest', ← htrim, List.append_assoc]
  exact List.prefix_append _ _

theorem ends_parametersOf {c : Cursor} {piece more : Text} {pieces : List Text}
    (hrest : c.rest = piece ++ (pieces.flatMap (',' :: ·) ++ more)) :
    Ends (SyntaxError.Follows c) (fun parameters => ∀ p ∈ parameters, p.IsFaithful c)
      (parametersOf c.offset (piece :: pieces)) := by
  induction pieces generalizing c piece with
  | nil =>
    obtain ⟨d, hd, hoffset, hname⟩ := exists_leads_trim hrest
    rw [parametersOf]
    split
    · rename_i hcovers
      exact List.forall_mem_singleton.mpr ⟨isName_of_coversAll hcovers, d, hd, hoffset, hname⟩
    · exact hoffset ▸ follows_of_leads hd (by decide)
  | cons next pieces ih =>
    obtain ⟨d, hd, hoffset, hname⟩ := exists_leads_trim hrest
    -- the next piece stands behind this one and its comma
    obtain ⟨e, he, hrest'⟩ : ∃ e, c.Passes (piece ++ [',']) e ∧
        e.rest = next ++ (pieces.flatMap (',' :: ·) ++ more) :=
      Cursor.exists_passes (by rw [hrest]; simp)
    have hoffset' : e.offset = c.offset + piece.size + 1 := by
      rw [he.2, size_append]
      rfl
    rw [parametersOf]
    split
    · rename_i hcovers
      rw [← hoffset']
      refine (ends_of_leads (ih hrest') ⟨_, he⟩).bind fun others hothers => ?_
      refine List.forall_mem_cons.mpr ⟨⟨isName_of_coversAll hcovers, d, hd, hoffset, hname⟩, ?_⟩
      exact fun p hp => (hothers p hp).of_leads ⟨_, he⟩
    · exact hoffset ▸ follows_of_leads hd (by decide)

/-! ## 2. Productions -/

/-- The right-hand sides read so far are written in the text and begin before `stop`. -/
def Body.IsFaithful (t : Text) (stop : Nat) : Body → Prop
  | .listed sides =>
    (∀ side ∈ sides, (∃ line ∈ t.lines, side.IsFaithful t line.stop) ∧ side.offset < stop) ∧
      sides.Pairwise (·.offset < ·.offset)
  | .oneOf found =>
    ∀ offset alternatives, found = some (offset, alternatives) →
      t.IsPosition offset ∧ alternatives ≠ [] ∧ Series t offset stop alternatives

theorem Body.isFaithful_nil (t : Text) (stop : Nat) : (Body.listed []).IsFaithful t stop :=
  ⟨List.forall_mem_nil _, .nil⟩

theorem Body.IsFaithful.rightHandSides {t : Text} {stop : Nat} {body : Body}
    (h : body.IsFaithful t stop) {line : Line} (hline : line ∈ t.lines) :
    (∀ side ∈ body.rightHandSides, ∃ line ∈ t.lines, side.IsFaithful t line.stop) ∧
      body.rightHandSides.Pairwise (·.offset < ·.offset) := by
  unfold Body.rightHandSides
  split
  · exact ⟨fun side hside => (h.1 side hside).1, h.2⟩
  · exact ⟨List.forall_mem_nil _, .nil⟩
  · rename_i offset alternatives
    obtain ⟨hoffset, hne, hseries⟩ := h offset alternatives rfl
    have hside : Symbol.IsFaithful t (.oneOf ⟨false, offset⟩ alternatives) :=
      .oneOf hoffset hne hseries.faithful hseries.order
    refine ⟨List.forall_mem_singleton.mpr ⟨line, hline, ⟨fun g hg => ?_,
      .inl (List.forall_mem_singleton.mpr hside), hoffset, List.cons_ne_nil _ _,
      List.pairwise_singleton _ _⟩⟩, List.pairwise_singleton _ _⟩
    cases hg

theorem isDone_keyword? {s : Scan} {c d : Cursor} (h : keyword? s c = some d) :
    d.skipBlanks.isDone = d.isDone := by
  obtain ⟨⟨f, e⟩, -, rfl⟩ := Option.map_eq_some_iff.mp h
  rw [Cursor.isDone, Cursor.isDone, Cursor.rest_skipBlanks, Cursor.rest_skipBlanks,
    List.dropWhile_idempotent]

theorem ends_headerBody {t : Text} {line : Line} {tail : Cursor} (hline : line ∈ t.lines)
    (htail : tail.In t) (hstop : tail.stop = line.stop) :
    Ends (SyntaxError.Follows tail) (Body.IsFaithful t line.stop) (headerBody tail) := by
  unfold headerBody
  split
  · rename_i alternatives hof
    have hlead := leads_keyword? hof
    split
    · intro offset found hfound
      cases hfound
    · rename_i hdone
      refine (ends_of_leads (ends_alternativesAt (hlead.in htail)) hlead).bind
        fun symbols hsymbols => ?_
      rintro offset found hfound
      cases hfound
      rw [hlead.stop_eq, hstop, isDone_keyword? hof] at hsymbols
      exact ⟨(hlead.in htail).isPosition, hsymbols.2 (Bool.eq_false_iff.mpr hdone), hsymbols.1⟩
  · refine (ends_rightHandSideAt htail).bind fun side hside => ?_
    rw [hstop] at hside
    refine ⟨List.forall_mem_singleton.mpr ⟨⟨line, hline, hside.1⟩, ?_⟩, List.pairwise_singleton _ _⟩
    rw [hside.2.1]
    exact hside.2.2

theorem headerOf_eq (source : Nat) {line : Line} {parts : HeaderParts}
    (h : headerParts? line = some parts) :
    headerOf source line =
      (parts.parameters.elim (.ok []) fun list => parametersOf list.offset (list.text.pieces ',')) >>=
        fun parameters => parts.tail.elim (.ok (.listed [])) headerBody >>=
          fun body => .ok (⟨parts.name, line.start, source, parameters, []⟩, body) := by
  obtain ⟨name, parameters, tail⟩ := parts
  unfold headerOf
  rw [h]
  cases parameters with
  | none => cases tail <;> rfl
  | some list => cases tail <;> rfl

/-- A production begins where its header does, with what its body has on the header's own line. -/
theorem exists_of_headerOf {source : Nat} {line : Line} {p : Production} {body : Body}
    (h : headerOf source line = .ok (p, body)) :
    p.offset = line.start ∧
      ∃ tail : Option Cursor, tail.elim (.ok (.listed [])) headerBody = .ok body := by
  cases hparts : headerParts? line with
  | none =>
    rw [headerOf, hparts] at h
    cases h
  | some parts =>
    rw [headerOf_eq source hparts] at h
    obtain ⟨parameters, -, h⟩ := bind_eq_ok_iff.mp h
    obtain ⟨body, hbody, h⟩ := bind_eq_ok_iff.mp h
    cases h
    exact ⟨rfl, parts.tail, hbody⟩

theorem ends_headerOf {t : Text} (source : Nat) {line : Line} (hline : line ∈ t.lines) :
    Ends (SyntaxError.Follows (.atStart line.text line.start))
      (fun found => (IsName found.1.name ∧ t.Holds line.start found.1.name) ∧
        (∀ p ∈ found.1.parameters, IsName p.name ∧ t.Holds p.offset p.name) ∧
        found.1.offset = line.start ∧ found.1.source = source ∧ found.2.IsFaithful t line.stop)
      (headerOf source line) := by
  have hstart : (Cursor.atStart line.text line.start).In t := holds_of_mem_lines hline
  cases hparts : headerParts? line with
  | none =>
    unfold headerOf
    rw [hparts]
    exact follows_of_leads (.refl _) (by decide)
  | some parts =>
    obtain ⟨hname, hlist, htail⟩ := faithful_headerParts? hparts
    -- each piece of the list of parameters stands behind the start of the line
    have hparameters : Ends (SyntaxError.Follows (.atStart line.text line.start))
        (fun parameters => ∀ p ∈ parameters, IsName p.name ∧ t.Holds p.offset p.name)
        (parts.parameters.elim (.ok []) fun list =>
          parametersOf list.offset (list.text.pieces ',')) := by
      cases hsome : parts.parameters with
      | none => exact List.forall_mem_nil _
      | some list =>
        obtain ⟨d, more, hd, hoffset, hrest⟩ := hlist list hsome
        obtain ⟨piece, pieces, hpieces, htext⟩ := list.text.pieces_eq_cons ','
        rw [htext, List.append_assoc] at hrest
        dsimp only [Option.elim_some]
        rw [hpieces, ← hoffset]
        refine (ends_of_leads (ends_parametersOf hrest) hd).imp (fun _ h => h) fun ps hps p hp => ?_
        obtain ⟨hisName, e, he, hat, more, hmore⟩ := hps p hp
        rw [← hat]
        exact ⟨hisName, ((hd.trans he).in hstart).holds hmore.symm⟩
    have hbody : Ends (SyntaxError.Follows (.atStart line.text line.start))
        (Body.IsFaithful t line.stop) (parts.tail.elim (.ok (.listed [])) headerBody) := by
      cases hsome : parts.tail with
      | none => exact Body.isFaithful_nil t line.stop
      | some tail =>
        have hlead := htail tail hsome
        exact ends_of_leads (ends_headerBody hline (hlead.in hstart) hlead.stop_eq) hlead
    rw [headerOf_eq source hparts]
    refine hparameters.bind fun parameters hall => hbody.bind fun body hfaithful => ?_
    obtain ⟨more, hmore⟩ := hname.2
    exact ⟨⟨hname.1, hstart.holds hmore.symm⟩, hall, rfl, rfl, hfaithful⟩

theorem isDone_skipBlanks_of_mem_lines {t : Text} {line : Line} (h : line ∈ t.lines) :
    (Cursor.atStart line.text line.start).skipBlanks.isDone = false := by
  obtain ⟨first, rest, htext, hfirst⟩ := exists_cons_of_mem_lines h
  rw [Cursor.isDone, Cursor.rest_skipBlanks, Cursor.atStart, htext, List.dropWhile_cons_of_neg]
  · rfl
  · rw [hfirst]
    exact Bool.false_ne_true

theorem Body.IsFaithful.add {t : Text} {stop : Nat} {body : Body} (h : body.IsFaithful t stop)
    {line : Line} (hline : line ∈ t.lines) (hstop : stop ≤ line.start) :
    Ends (SyntaxError.Follows (.atStart line.text line.start)) (Body.IsFaithful t line.stop)
      (body.add line) := by
  have hstart : (Cursor.atStart line.text line.start).In t := holds_of_mem_lines hline
  cases body with
  | listed sides =>
    refine (ends_rightHandSideAt hstart).bind fun side hside => ?_
    obtain ⟨hfaithful, hoffset, hlt⟩ := hside
    refine ⟨List.forall_mem_append.mpr ⟨fun s hs => ⟨(h.1 s hs).1, ?_⟩,
      List.forall_mem_singleton.mpr ⟨⟨line, hline, hfaithful⟩, hoffset ▸ hlt⟩⟩, ?_⟩
    · exact Nat.lt_trans (Nat.lt_of_lt_of_le (h.1 s hs).2 hstop) hlt
    · refine List.pairwise_append.mpr ⟨h.2, List.pairwise_singleton _ _, fun s hs s' hs' => ?_⟩
      rw [List.mem_singleton.mp hs', hoffset]
      exact Nat.lt_of_lt_of_le (h.1 s hs).2 hstop
  | oneOf found =>
    refine (ends_alternativesAt hstart).bind fun symbols hsymbols => ?_
    have hne := hsymbols.2 (isDone_skipBlanks_of_mem_lines hline)
    rintro offset alternatives heq
    cases found with
    | none =>
      cases heq
      exact ⟨hstart.isPosition, hne, hsymbols.1⟩
    | some before =>
      -- the alternatives of this line stand behind those of the lines before it
      obtain ⟨hoffset, hbefore, hseries⟩ := h before.1 before.2 rfl
      cases heq
      refine ⟨hoffset, List.append_ne_nil_of_left_ne_nil hbefore _, ?_⟩
      obtain ⟨first, hfirst⟩ := List.exists_mem_of_ne_nil _ hbefore
      have hlt := hseries.within first hfirst
      have hle : line.start ≤ line.stop := Nat.le_add_right _ _
      exact hseries.append hsymbols.1 (by simp only [Cursor.atStart]; omega) hstop (by omega)

theorem Body.IsFaithful.addAll {t : Text} {stop : Nat} {body : Body} (h : body.IsFaithful t stop)
    {lines : List Line} (hmem : ∀ line ∈ lines, line ∈ t.lines)
    (hstop : ∀ line ∈ lines, stop ≤ line.start) (horder : lines.Pairwise (fun a b => a.stop ≤ b.start)) :
    (∃ stop', (body.addAll lines).1.IsFaithful t stop') ∧
      ∀ e ∈ (body.addAll lines).2, ∃ line ∈ lines, e.On line := by
  induction lines generalizing body stop with
  | nil => exact ⟨⟨stop, h⟩, List.forall_mem_nil _⟩
  | cons line lines ih =>
    obtain ⟨hline, hmem⟩ := List.forall_mem_cons.mp hmem
    obtain ⟨hle, hstop⟩ := List.forall_mem_cons.mp hstop
    obtain ⟨hlater, horder⟩ := List.pairwise_cons.mp horder
    have hadd := h.add hline hle
    rw [Body.addAll]
    split
    · -- the body goes on to the end of the line
      rename_i more hmore
      obtain ⟨hbody, herrors⟩ := ih (hadd.of_ok hmore) hmem hlater horder
      exact ⟨hbody, fun e he => List.exists_mem_cons_of_exists (herrors e he)⟩
    · -- the body stays as it is, and the line has the error
      rename_i e herror
      obtain ⟨hbody, herrors⟩ := ih h hmem hstop horder
      refine ⟨hbody, List.forall_mem_cons.mpr ⟨⟨line, List.mem_cons_self, ?_⟩, fun e he => ?_⟩⟩
      · exact (hadd.of_error herror).leads
      · exact List.exists_mem_cons_of_exists (herrors e he)

theorem readGroup_of_ok {source : Nat} {header : Line} {p : Production} {body : Body}
    (h : headerOf source header = .ok (p, body)) (lines : List Line) :
    readGroup source header lines =
      (if (body.addAll lines).1.rightHandSides = [] then none
        else some { p with rightHandSides := (body.addAll lines).1.rightHandSides },
      (body.addAll lines).2 ++
        if (body.addAll lines).1.rightHandSides = [] then [⟨header.start, .rightHandSide⟩] else []) := by
  unfold readGroup
  rw [h]
  dsimp only
  split
  · rename_i hsides
    rw [hsides, if_pos rfl, if_pos rfl]
  · rename_i hsides
    rw [if_neg hsides, if_neg hsides, List.append_nil]

theorem readGroup_faithful {t : Text} (source : Nat) {header : Line} {lines : List Line}
    (hmem : ∀ line ∈ header :: lines, line ∈ t.lines)
    (horder : (header :: lines).Pairwise (fun a b => a.stop ≤ b.start)) :
    (∀ p, (readGroup source header lines).1 = some p →
      p.IsFaithful t ∧ p.source = source ∧ p.offset = header.start) ∧
      ∀ e ∈ (readGroup source header lines).2, ∃ line ∈ header :: lines, e.On line := by
  obtain ⟨hheader, hlines⟩ := List.forall_mem_cons.mp hmem
  obtain ⟨hlater, horder⟩ := List.pairwise_cons.mp horder
  have hends := ends_headerOf source hheader
  unfold readGroup
  split
  · rename_i e herror
    refine ⟨fun p hp => ?_, List.forall_mem_singleton.mpr ⟨header, List.mem_cons_self, ?_⟩⟩
    · cases hp
    · exact (hends.of_error herror).leads
  · rename_i production start hok
    obtain ⟨hname, hparameters, hoffset, hsource, hstart⟩ := hends.of_ok hok
    obtain ⟨⟨stop, hbody⟩, herrors⟩ := hstart.addAll hlines hlater horder
    obtain ⟨hsides, hsorted⟩ := hbody.rightHandSides hheader
    have hon : ∀ e ∈ (start.addAll lines).2, ∃ line ∈ header :: lines, e.On line :=
      fun e he => List.exists_mem_cons_of_exists (herrors e he)
    dsimp only
    split
    · refine ⟨fun p hp => ?_, List.forall_mem_append.mpr ⟨hon,
        List.forall_mem_singleton.mpr ⟨header, List.mem_cons_self, _, .refl _, rfl⟩⟩⟩
      cases hp
    · rename_i hne
      refine ⟨fun p hp => ?_, hon⟩
      cases hp
      exact ⟨⟨hoffset ▸ hname, hparameters, hsides, hne, hsorted⟩, hsource, hoffset⟩

/-! ## 3. Texts -/

theorem groupLines_append_flatMap (indent : Nat) (lines : List Line) :
    (groupLines indent lines).1 ++ (groupLines indent lines).2.flatMap (fun g => g.1 :: g.2) = lines := by
  induction lines with
  | nil => rfl
  | cons line lines ih =>
    rw [groupLines]
    dsimp only
    split
    · exact congrArg (line :: ·) ih
    · exact congrArg (line :: ·) ih

theorem indent_groupLines (indent : Nat) (lines : List Line) :
    (∀ line ∈ (groupLines indent lines).1, indent < line.indent) ∧
      ∀ g ∈ (groupLines indent lines).2, g.1.indent ≤ indent ∧ ∀ line ∈ g.2, indent < line.indent := by
  induction lines with
  | nil => exact ⟨List.forall_mem_nil _, List.forall_mem_nil _⟩
  | cons line lines ih =>
    rw [groupLines]
    dsimp only
    split
    · rename_i hlt
      exact ⟨List.forall_mem_cons.mpr ⟨hlt, ih.1⟩, ih.2⟩
    · rename_i hle
      exact ⟨List.forall_mem_nil _, List.forall_mem_cons.mpr ⟨⟨Nat.le_of_not_lt hle, ih.1⟩, ih.2⟩⟩

theorem indent_of_mem_groups {t : Text} {first : Line} {lines : List Line}
    (hlines : t.lines = first :: lines) :
    ∀ g ∈ groups t, g.1.indent ≤ first.indent ∧ ∀ line ∈ g.2, first.indent < line.indent := by
  unfold groups
  rw [hlines]
  exact (indent_groupLines _ _).2

/-- A text is its groups one after another. -/
theorem flatMap_groups (t : Text) : (groups t).flatMap (fun g => g.1 :: g.2) = t.lines := by
  unfold groups
  split
  · rename_i hlines
    exact hlines.symm
  · rename_i first lines hlines
    have hall := groupLines_append_flatMap first.indent (first :: lines)
    -- the first line is a header itself, so no lines stand before the groups
    have hnone : (groupLines first.indent (first :: lines)).1 = [] := by
      rw [groupLines]
      dsimp only
      rw [if_neg (Nat.lt_irrefl _)]
    rw [hnone, List.nil_append] at hall
    rw [hlines, hall]

theorem pairwise_groups (t : Text) :
    (∀ g ∈ groups t, (g.1 :: g.2).Pairwise (fun a b => a.stop ≤ b.start)) ∧
      (groups t).Pairwise (fun g g' => g.1.start < g'.1.start) := by
  have horder := t.pairwise_lines
  rw [← flatMap_groups t, List.pairwise_flatMap] at horder
  refine ⟨horder.1, horder.2.imp_of_mem fun {g g'} hg _ h => ?_⟩
  have hmem : g.1 ∈ t.lines := by
    rw [← flatMap_groups t]
    exact List.mem_flatMap.mpr ⟨g, hg, List.mem_cons_self⟩
  exact Nat.lt_of_lt_of_le (Line.start_lt_stop hmem) (h _ List.mem_cons_self _ List.mem_cons_self)

theorem mem_lines_of_mem_groups {t : Text} {g : Line × List Line} (h : g ∈ groups t) :
    ∀ line ∈ g.1 :: g.2, line ∈ t.lines := by
  intro line hline
  rw [← flatMap_groups t]
  exact List.mem_flatMap.mpr ⟨g, h, hline⟩

theorem readSource_eq (source : Nat) (t : Text) :
    readSource source t =
      { productions := (groups t).filterMap fun g => (readGroup source g.1 g.2).1
        diagnostics :=
          ((groups t).flatMap fun g => (readGroup source g.1 g.2).2).map (·.diagnostic source) } := by
  show Compilation.mk (((groups t).map _).filterMap _) ((((groups t).map _).flatMap _).map _) = _
  rw [List.filterMap_map, List.flatMap_map]
  rfl

theorem readSource_faithful (source : Nat) (t : Text) :
    (∀ p ∈ (readSource source t).productions, p.IsFaithful t ∧ p.source = source) ∧
      (readSource source t).productions.Pairwise (·.offset < ·.offset) := by
  have hread : ∀ g ∈ groups t, ∀ p, (readGroup source g.1 g.2).1 = some p →
      p.IsFaithful t ∧ p.source = source ∧ p.offset = g.1.start := fun g hg =>
    (readGroup_faithful source (mem_lines_of_mem_groups hg) ((pairwise_groups t).1 g hg)).1
  rw [readSource_eq]
  refine ⟨fun p hp => ?_, List.pairwise_filterMap.mpr ?_⟩
  · obtain ⟨g, hg, hp⟩ := List.mem_filterMap.mp hp
    obtain ⟨hfaithful, hsource, -⟩ := hread g hg p hp
    exact ⟨hfaithful, hsource⟩
  · refine (pairwise_groups t).2.imp_of_mem fun {g g'} hg hg' hlt p hp p' hp' => ?_
    rw [(hread g hg p hp).2.2, (hread g' hg' p' hp').2.2]
    exact hlt

theorem productions_compile (sources : List Text) (checks : Bool) :
    (compile sources checks).productions =
      sources.zipIdx.flatMap fun entry => (readSource entry.2 entry.1).productions := by
  have hread := List.flatMap_map (fun entry : Text × Nat => readSource entry.2 entry.1)
    Compilation.productions sources.zipIdx
  cases checks
  · exact hread
  · exact hread

end Errata.Grammar
