import Errata.Proofs.Text.Placement
import Errata.Text.Lines
import Mathlib.Data.List.TakeWhile

/-!
# The lines of a text

A text is put together again from its lines: before each line stands a gap of blanks, and blanks stand
after the last. The position of a line is the size of all that stands before it.
-/

namespace Errata

namespace Text

/-- All characters are blank. -/
def AllBlank (t : Text) : Prop := ∀ c ∈ t, isBlank c = true

theorem allBlank_nil : AllBlank [] := by simp [AllBlank]

theorem AllBlank.append {s t : Text} (hs : s.AllBlank) (ht : t.AllBlank) :
    AllBlank (s ++ t) := by
  intro c hc
  rcases List.mem_append.mp hc with h | h
  · exact hs c h
  · exact ht c h

theorem allBlank_newline : AllBlank ['\n'] := by
  intro c hc
  rw [List.mem_singleton.mp hc]
  decide

/-! ## 1. Trimming -/

theorem allBlank_takeWhile (t : Text) : AllBlank (t.takeWhile isBlank) :=
  fun _ hc => List.mem_takeWhile_imp hc

theorem trimStart_append (t : Text) :
    t.takeWhile isBlank ++ t.trimStart = t ∧
      size (t.takeWhile isBlank) = t.size - t.trimStart.size := by
  have hsplit : t.takeWhile isBlank ++ t.trimStart = t := List.takeWhile_append_dropWhile
  refine ⟨hsplit, ?_⟩
  have hsize := congrArg size hsplit
  rw [size_append] at hsize
  omega

/-- What trimming takes off at the start. -/
theorem take_length_sub_trimStart (t : Text) :
    t.take (t.length - t.trimStart.length) = t.takeWhile isBlank := by
  obtain ⟨hsplit, -⟩ := t.trimStart_append
  have hlength : t.length - t.trimStart.length = (t.takeWhile isBlank).length := by
    rw [← congrArg List.length hsplit, List.length_append, Nat.add_sub_cancel]
  rw [hlength, take_length_takeWhile]

/-- What trimming takes off at the end. -/
theorem trimEnd_append (t : Text) :
    t.trimEnd ++ t.drop t.trimEnd.length = t ∧ AllBlank (t.drop t.trimEnd.length) := by
  have hsplit : t.trimEnd ++ (t.reverse.takeWhile isBlank).reverse = t := by
    rw [trimEnd, ← List.reverse_append, List.takeWhile_append_dropWhile, List.reverse_reverse]
  have hdrop : t.drop t.trimEnd.length = (t.reverse.takeWhile isBlank).reverse := by
    rw [← congrArg (List.drop t.trimEnd.length) hsplit, List.drop_left]
  rw [hdrop]
  exact ⟨hsplit, fun c hc => allBlank_takeWhile _ c (List.mem_reverse.mp hc)⟩

theorem isBlank_head_trimStart {t rest : Text} {first : Char} (h : t.trimStart = first :: rest) :
    isBlank first = false := by
  have := List.head?_dropWhile_not isBlank t
  rw [trimStart] at h
  rw [h] at this
  exact this

theorem trimStart_eq_self {t : Text} (h : ∀ c ∈ t.head?, isBlank c = false) : t.trimStart = t := by
  cases t with
  | nil => rfl
  | cons c t => exact List.dropWhile_cons_of_neg (by rw [h c rfl]; exact Bool.false_ne_true)

theorem trimEnd_eq_self {t : Text} (h : ∀ c ∈ t.getLast?, isBlank c = false) : t.trimEnd = t := by
  have hreverse : trimStart t.reverse = t.reverse := by
    refine trimStart_eq_self fun c hc => h c ?_
    rwa [List.head?_reverse] at hc
  rw [trimEnd, ← trimStart, hreverse, List.reverse_reverse]

theorem isBlank_getLast_trimEnd (t : Text) : ∀ c ∈ t.trimEnd.getLast?, isBlank c = false := by
  intro c hc
  rw [trimEnd, List.getLast?_reverse] at hc
  obtain ⟨rest, hrest⟩ := List.head?_eq_some_iff.mp hc
  exact isBlank_head_trimStart hrest

/-- A text that trimming leaves as it is ends with a character that is not blank. -/
theorem isBlank_getLast_of_trim {t : Text} (h : t.trim = t) : ∀ c ∈ t.getLast?, isBlank c = false := by
  rw [← h]
  exact isBlank_getLast_trimEnd t.trimStart

theorem trimStart_of_trim {t : Text} (h : t.trim = t) : t.trimStart = t := by
  obtain ⟨hend, -⟩ := t.trimStart.trimEnd_append
  have hlength := congrArg List.length hend
  rw [List.length_append] at hlength
  have hsame := congrArg List.length h
  rw [trim] at hsame
  exact (List.dropWhile_suffix isBlank).eq_of_length_le (by rw [← trimStart]; omega)

/-! ## 2. Pieces -/

/-- A text is its first piece and then each further piece after a separator. -/
theorem pieces_eq_cons (separator : Char) (t : Text) :
    ∃ piece rest, t.pieces separator = piece :: rest ∧
      t = piece ++ rest.flatMap (separator :: ·) := by
  induction t with
  | nil => exact ⟨[], [], rfl, rfl⟩
  | cons c t ih =>
    obtain ⟨piece, rest, hpieces, ht⟩ := ih
    by_cases hc : c = separator
    · refine ⟨[], piece :: rest, by rw [pieces, if_pos hc, hpieces], ?_⟩
      rw [ht, hc]
      rfl
    · refine ⟨c :: piece, rest, by rw [pieces, if_neg hc, hpieces], ?_⟩
      rw [ht]
      rfl

theorem pieces_append_separator (separator : Char) (s t : Text) :
    (s ++ separator :: t).pieces separator = s.pieces separator ++ t.pieces separator := by
  induction s with
  | nil =>
    show pieces separator (separator :: t) = [] :: pieces separator t
    rw [pieces, if_pos rfl]
  | cons c s ih =>
    obtain ⟨piece, rest, hpieces, -⟩ := pieces_eq_cons separator s
    rw [hpieces] at ih
    rw [List.cons_append, pieces, pieces, ih, hpieces]
    split
    · rfl
    · rfl

theorem pieces_append_of_not_mem {separator : Char} {s t first : Text} {rest : List Text}
    (hs : separator ∉ s) (ht : t.pieces separator = first :: rest) :
    (s ++ t).pieces separator = (s ++ first) :: rest := by
  induction s with
  | nil => exact ht
  | cons c s ih =>
    have hc : c ≠ separator := fun h => hs (h ▸ List.mem_cons_self)
    have hrest := ih fun h => hs (List.mem_cons_of_mem c h)
    rw [List.cons_append, pieces, if_neg hc, hrest]
    rfl

theorem pieces_of_not_mem {separator : Char} {t : Text} (h : separator ∉ t) :
    t.pieces separator = [t] := by
  have hnil : pieces separator [] = [[]] := rfl
  have hpieces := pieces_append_of_not_mem h hnil
  rwa [List.append_nil] at hpieces

/-- The pieces are written in `t`, the first at `offset` and each other one behind the one before it and a
separator of one byte. -/
def HoldsPieces (t : Text) (offset : Nat) : List Text → Prop
  | [] => True
  | piece :: pieces => t.Holds offset piece ∧ HoldsPieces t (offset + piece.size + 1) pieces

theorem Holds.pieces {t text : Text} {offset : Nat} (h : t.Holds offset text) {separator : Char}
    (hsize : separator.utf8Size = 1) : t.HoldsPieces offset (text.pieces separator) := by
  obtain ⟨piece, rest, hpieces, htext⟩ := text.pieces_eq_cons separator
  rw [hpieces]
  rw [htext] at h
  clear hpieces htext
  induction rest generalizing offset piece with
  | nil => exact ⟨h.left, trivial⟩
  | cons next rest ih =>
    have htail : t.Holds (offset + piece.size + separator.utf8Size) _ := h.right.tail
    rw [hsize] at htail
    exact ⟨h.left, ih next htail⟩

/-- A piece without the blanks at its start. -/
theorem Holds.isPosition_trimStart {t piece : Text} {offset : Nat} (h : t.Holds offset piece) :
    t.IsPosition (offset + (piece.size - piece.trimStart.size)) := by
  obtain ⟨hsplit, hsize⟩ := piece.trimStart_append
  rw [← hsize]
  rw [← hsplit] at h
  exact h.left.stop

end Text

theorem Cursor.passes_skipBlanks (c : Cursor) :
    ∃ blanks : Text, blanks.AllBlank ∧ c.Passes blanks c.skipBlanks :=
  ⟨_, Text.allBlank_takeWhile c.rest, c.passes_skip Text.isBlank⟩

theorem Cursor.rest_skipBlanks (c : Cursor) : c.skipBlanks.rest = c.rest.dropWhile Text.isBlank := by
  have hpass := (c.passes_skip Text.isBlank).1
  exact List.append_cancel_left (hpass.symm.trans List.takeWhile_append_dropWhile.symm)

/-! ## 3. Lines -/

/-- A text that begins at `offset` consists of the given lines with blanks between and after them. -/
inductive Lined : Nat → Text → List Line → Prop
  | done {offset : Nat} {t : Text} (hblank : t.AllBlank) : Lined offset t []
  | line {offset : Nat} {line : Line} {rest : Text} {lines : List Line}
      (hgap : line.gap.AllBlank) (hstart : line.start = offset + line.gap.size)
      (hrest : Lined line.stop rest lines) :
      Lined offset (line.gap ++ (line.text ++ rest)) (line :: lines)

namespace Line

open Text

/-- A raw line is blanks, its text and blanks. -/
theorem raw_eq (raw : Text) :
    ∃ lead trail : Text, lead = raw.take (raw.length - raw.trimStart.length) ∧
      trail = raw.trimStart.drop raw.trimStart.trimEnd.length ∧
      lead.AllBlank ∧ trail.AllBlank ∧ raw = lead ++ (raw.trimStart.trimEnd ++ trail) := by
  obtain ⟨hsplit, htrail⟩ := trimEnd_append raw.trimStart
  refine ⟨_, _, rfl, rfl, ?_, htrail, ?_⟩
  · rw [take_length_sub_trimStart]
    exact allBlank_takeWhile raw
  · rw [hsplit, take_length_sub_trimStart]
    exact List.takeWhile_append_dropWhile.symm

/-- One raw line before others. What follows it is lined after any blanks that it leaves. -/
theorem lined_cons {offset : Nat} {gap raw rest : Text} {raws : List Text} (hgap : gap.AllBlank)
    (hrest : ∀ offset (left : Text), left.AllBlank →
      Lined offset (left ++ rest) (ofRaw (offset + left.size + 1) (left ++ ['\n']) raws)) :
    Lined offset (gap ++ (raw ++ rest)) (ofRaw (offset + gap.size) gap (raw :: raws)) := by
  obtain ⟨lead, trail, hlead, htrail, hleadBlank, htrailBlank, hraw⟩ := raw_eq raw
  have hsize : raw.size = lead.size + (raw.trimStart.trimEnd.size + trail.size) := by
    rw [← size_append, ← size_append, ← hraw]
  rw [ofRaw]
  simp only [← hlead, ← htrail]
  split
  · -- the line is blank and joins the gap
    rename_i hempty
    rw [List.isEmpty_iff.mp hempty, List.nil_append] at hraw
    have hblank : raw.AllBlank := hraw ▸ hleadBlank.append htrailBlank
    have h := hrest offset (gap ++ raw) (hgap.append hblank)
    rwa [List.append_assoc, size_append, ← Nat.add_assoc] at h
  · let line : Line :=
      ⟨gap ++ lead, lead.size, offset + gap.size + lead.size, raw.trimStart.trimEnd⟩
    have hnext : line.stop + trail.size + 1 = offset + gap.size + raw.size + 1 := by
      rw [hsize]
      show offset + gap.size + lead.size + raw.trimStart.trimEnd.size + trail.size + 1 = _
      omega
    have htext : gap ++ (raw ++ rest) = line.gap ++ (line.text ++ (trail ++ rest)) := by
      show _ = gap ++ lead ++ (raw.trimStart.trimEnd ++ (trail ++ rest))
      rw [List.append_assoc, ← List.append_assoc _ trail, ← List.append_assoc lead, ← hraw]
    have h := hrest line.stop trail htrailBlank
    rw [hnext] at h
    rw [htext]
    refine Lined.line (hgap.append hleadBlank) ?_ h
    show offset + gap.size + lead.size = offset + size (gap ++ lead)
    rw [size_append, Nat.add_assoc]

theorem lined_ofRaw (offset : Nat) {gap : Text} (hgap : gap.AllBlank) (raw : Text)
    (raws : List Text) :
    Lined offset (gap ++ (raw ++ raws.flatMap ('\n' :: ·)))
      (ofRaw (offset + gap.size) gap (raw :: raws)) := by
  induction raws generalizing offset gap raw with
  | nil =>
    apply lined_cons hgap
    intro offset left hleft
    rw [ofRaw]
    exact .done (by simpa using hleft)
  | cons next raws ih =>
    apply lined_cons hgap
    intro offset left hleft
    have h := ih offset (hleft.append allBlank_newline) next
    have hsize : offset + size (left ++ ['\n']) = offset + left.size + 1 := by
      rw [size_append, ← Nat.add_assoc]
      rfl
    rw [hsize, List.append_assoc] at h
    exact h

end Line

theorem Text.lined_lines (t : Text) : Lined 0 t t.lines := by
  obtain ⟨piece, rest, hpieces, ht⟩ := t.pieces_eq_cons '\n'
  have h := Line.lined_ofRaw 0 Text.allBlank_nil piece rest
  rw [List.nil_append, ← ht, ← hpieces] at h
  exact h

theorem Lined.holds {offset : Nat} {t : Text} {lines : List Line} (h : Lined offset t lines)
    {whole : Text} (ht : whole.Holds offset t) {line : Line} (hline : line ∈ lines) :
    whole.Holds line.start line.text := by
  induction h with
  | done => exact absurd hline List.not_mem_nil
  | @line offset first rest lines hgap hstart hrest ih =>
    have hfirst : whole.Holds first.start (first.text ++ rest) := by
      rw [hstart]
      exact ht.right
    rcases List.mem_cons.mp hline with rfl | hmem
    · exact hfirst.left
    · exact ih hfirst.right hmem

/-- Every line is written in the text where it says. -/
theorem Text.holds_of_mem_lines {t : Text} {line : Line} (h : line ∈ t.lines) :
    t.Holds line.start line.text :=
  t.lined_lines.holds t.holds_self h

section Pair

open Text

theorem Line.ofRaw_cons (offset : Nat) (gap : Text) {lead text : Text} (raws : List Text)
    (hlead : lead.AllBlank) (htext : text.trim = text) (hne : text ≠ []) :
    Line.ofRaw offset gap ((lead ++ text) :: raws) =
      { gap := gap ++ lead, indent := lead.size, start := offset + lead.size, text } ::
        Line.ofRaw (offset + size (lead ++ text) + 1) ['\n'] raws := by
  have hstart : trimStart (lead ++ text) = text := by
    rw [trimStart, List.dropWhile_append_of_pos hlead]
    exact trimStart_of_trim htext
  have hend : text.trimEnd = text := by
    have htrim := htext
    rwa [trim, trimStart_of_trim htext] at htrim
  have hleads : (lead ++ text).take ((lead ++ text).length - text.length) = lead := by
    rw [List.length_append, Nat.add_sub_cancel, List.take_left]
  have hempty : ¬text.isEmpty = true := fun h => hne (List.isEmpty_iff.mp h)
  rw [Line.ofRaw, hstart, hend, if_neg hempty, hleads, List.drop_length, List.nil_append]

/-- Two lines, the second of them indented. -/
theorem Text.lines_pair {first lead second : Text} (hfirst : first.trim = first) (hsecond : second.trim = second)
    (hlead : lead.AllBlank) (hne : first ≠ []) (hne' : second ≠ []) (hline : '\n' ∉ first)
    (hline' : '\n' ∉ lead ++ second) :
    (first ++ '\n' :: (lead ++ second)).lines =
      [⟨[], 0, 0, first⟩, ⟨'\n' :: lead, lead.size, first.size + 1 + lead.size, second⟩] := by
  rw [lines, pieces_append_separator, pieces_of_not_mem hline, pieces_of_not_mem hline']
  have hhead := Line.ofRaw_cons 0 [] [lead ++ second] allBlank_nil hfirst hne
  have htail := Line.ofRaw_cons (first.size + 1) ['\n'] [] hlead hsecond hne'
  rw [List.nil_append, Nat.zero_add, Nat.zero_add] at hhead
  rw [List.singleton_append, hhead, htail, Line.ofRaw]
  rfl

end Pair

/-! ## 4. The order of lines -/

section Order

open Text

/-- The text of a line is what trimming leaves of some text, and it is not empty. -/
theorem Line.text_of_mem_ofRaw {offset : Nat} {gap : Text} {raws : List Text} {line : Line}
    (h : line ∈ ofRaw offset gap raws) : line.text ≠ [] ∧ ∃ raw : Text, line.text = raw.trim := by
  induction raws generalizing offset gap with
  | nil => exact absurd h List.not_mem_nil
  | cons raw raws ih =>
    rw [ofRaw] at h
    split at h
    · exact ih h
    · rename_i hempty
      rcases List.mem_cons.mp h with rfl | h
      · exact ⟨fun hnil => hempty (List.isEmpty_iff.mpr hnil), raw, rfl⟩
      · exact ih h

theorem Text.exists_cons_of_mem_lines {t : Text} {line : Line} (h : line ∈ t.lines) :
    ∃ first rest, line.text = first :: rest ∧ isBlank first = false := by
  obtain ⟨hne, raw, htrim⟩ := Line.text_of_mem_ofRaw h
  obtain ⟨first, rest, htext⟩ := List.exists_cons_of_ne_nil hne
  refine ⟨first, rest, htext, ?_⟩
  -- the first character is also the first of the text that was trimmed at the end
  have hsplit := (trimEnd_append raw.trimStart).1
  rw [← trim, ← htrim, htext, List.cons_append] at hsplit
  exact isBlank_head_trimStart hsplit.symm

theorem Line.start_lt_stop {t : Text} {line : Line} (h : line ∈ t.lines) : line.start < line.stop := by
  obtain ⟨first, rest, htext, -⟩ := exists_cons_of_mem_lines h
  have := first.utf8Size_pos
  rw [Line.stop, htext, size_cons]
  omega

theorem Lined.ordered {offset : Nat} {t : Text} {lines : List Line} (h : Lined offset t lines) :
    (∀ line ∈ lines, offset ≤ line.start) ∧ lines.Pairwise (fun a b => a.stop ≤ b.start) := by
  induction h with
  | done => exact ⟨List.forall_mem_nil _, .nil⟩
  | @line offset line rest lines hgap hstart hrest ih =>
    obtain ⟨hle, hordered⟩ := ih
    have hstop : line.start ≤ line.stop := Nat.le_add_right _ _
    refine ⟨List.forall_mem_cons.mpr ⟨by omega, fun other hother => ?_⟩, hordered.cons hle⟩
    have := hle other hother
    omega

/-- Each line ends before the next one begins. -/
theorem Text.pairwise_lines (t : Text) : t.lines.Pairwise (fun a b => a.stop ≤ b.start) :=
  t.lined_lines.ordered.2

end Order

/-! ## 5. Lines between newlines -/

section Between

open Text

/-- The line stands in the text between two newlines, or between one of them and an end of the text, with
only blanks around what is kept of it, and what is kept begins with a character that is not blank. -/
def Text.HasLine (t : Text) (line : Line) : Prop :=
  ∃ before lead trail after : Text, t = before ++ (lead ++ (line.text ++ (trail ++ after))) ∧
    (before = [] ∨ before.getLast? = some '\n') ∧ (after = [] ∨ after.head? = some '\n') ∧
    '\n' ∉ lead ++ (line.text ++ trail) ∧ lead.AllBlank ∧ trail.AllBlank ∧
    (∃ first rest, line.text = first :: rest ∧ isBlank first = false) ∧
    line.indent = lead.size ∧ line.start = size (before ++ lead)

theorem Text.not_mem_of_mem_pieces {separator : Char} {t piece : Text} (h : piece ∈ t.pieces separator) :
    separator ∉ piece := by
  induction t generalizing piece with
  | nil =>
    rw [List.mem_singleton.mp h]
    exact List.not_mem_nil
  | cons c t ih =>
    obtain ⟨first, rest, hpieces, -⟩ := pieces_eq_cons separator t
    rw [hpieces] at ih
    rw [pieces, hpieces] at h
    split at h
    · rcases List.mem_cons.mp h with rfl | h
      · exact List.not_mem_nil
      · exact ih h
    · rename_i hc
      rcases List.mem_cons.mp h with rfl | h
      · rw [List.mem_cons, not_or]
        exact ⟨Ne.symm hc, ih List.mem_cons_self⟩
      · exact ih (List.mem_cons_of_mem _ h)

/-- The line of one raw line that is not blank. -/
theorem Line.hasLine_raw {before raw after gap : Text} (hbefore : before = [] ∨ before.getLast? = some '\n')
    (hafter : after = [] ∨ after.head? = some '\n') (hraw : '\n' ∉ raw) (hne : raw.trimStart.trimEnd ≠ []) :
    (before ++ (raw ++ after)).HasLine
      { gap := gap, indent := size (raw.take (raw.length - raw.trimStart.length)),
        start := before.size + size (raw.take (raw.length - raw.trimStart.length)),
        text := raw.trimStart.trimEnd } := by
  obtain ⟨lead, trail, hlead, -, hleadBlank, htrailBlank, hsplit⟩ := raw_eq raw
  rw [← hlead]
  obtain ⟨first, rest, htext⟩ := List.exists_cons_of_ne_nil hne
  refine ⟨before, lead, trail, after, ?_, hbefore, hafter, ?_, hleadBlank, htrailBlank, ⟨first, rest, htext, ?_⟩,
    rfl, (size_append _ _).symm⟩
  · show before ++ (raw ++ after) = before ++ (lead ++ (raw.trimStart.trimEnd ++ (trail ++ after)))
    rw [← List.append_assoc _ trail, ← List.append_assoc lead, ← hsplit]
  · show '\n' ∉ lead ++ (raw.trimStart.trimEnd ++ trail)
    rw [← hsplit]
    exact hraw
  · have hstart := (trimEnd_append raw.trimStart).1
    rw [htext, List.cons_append] at hstart
    exact isBlank_head_trimStart hstart.symm

theorem Line.hasLine_of_mem_ofRaw {before raw gap : Text} {raws : List Text}
    (hbefore : before = [] ∨ before.getLast? = some '\n') (hraws : ∀ r ∈ raw :: raws, '\n' ∉ r) {line : Line}
    (h : line ∈ ofRaw before.size gap (raw :: raws)) :
    (before ++ (raw ++ raws.flatMap ('\n' :: ·))).HasLine line := by
  induction raws generalizing before raw gap with
  | nil =>
    rw [ofRaw] at h
    split at h
    · exact absurd h List.not_mem_nil
    · rename_i hempty
      rw [ofRaw, List.mem_singleton] at h
      rw [h]
      exact hasLine_raw hbefore (.inl rfl) (hraws raw List.mem_cons_self) fun hnil =>
        hempty (List.isEmpty_iff.mpr hnil)
  | cons next raws ih =>
    obtain ⟨hraw, hnext⟩ := List.forall_mem_cons.mp hraws
    have hsize : before.size + raw.size + 1 = size (before ++ (raw ++ ['\n'])) := by
      rw [size_append, size_append]
      exact Nat.add_assoc _ _ _
    -- the other lines come after this one and its newline
    have hothers : ∀ gap, line ∈ ofRaw (before.size + raw.size + 1) gap (next :: raws) →
        (before ++ (raw ++ (next :: raws).flatMap ('\n' :: ·))).HasLine line := by
      intro gap hmem
      rw [hsize] at hmem
      have hline := ih (.inr (by rw [← List.append_assoc, List.getLast?_concat])) hnext hmem
      rw [List.append_assoc, List.append_assoc] at hline
      exact hline
    rw [ofRaw] at h
    split at h
    · exact hothers _ h
    · rename_i hempty
      rcases List.mem_cons.mp h with rfl | h
      · exact hasLine_raw hbefore (.inr rfl) hraw fun hnil => hempty (List.isEmpty_iff.mpr hnil)
      · exact hothers _ h

theorem Text.hasLine_of_mem_lines {t : Text} {line : Line} (h : line ∈ t.lines) : t.HasLine line := by
  obtain ⟨piece, rest, hpieces, ht⟩ := t.pieces_eq_cons '\n'
  have hraws : ∀ r ∈ piece :: rest, '\n' ∉ r := by
    rw [← hpieces]
    exact fun r hr => not_mem_of_mem_pieces hr
  have hempty : ([] : Text) = [] ∨ ([] : Text).getLast? = some '\n' := .inl rfl
  rw [lines, hpieces] at h
  have hline := Line.hasLine_of_mem_ofRaw hempty hraws h
  rwa [List.nil_append, ← ht] at hline

end Between

end Errata
