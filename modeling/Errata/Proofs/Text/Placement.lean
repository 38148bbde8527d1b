import Errata.Text.Cursor
import Errata.Text.Position

/-!
# Where pieces of a text stand

A text holds a piece at a position if the piece is written there. Cuts and slices succeed exactly at such
positions, and a cursor that moves on only ever stands at them.
-/

namespace Errata

namespace Text

/-- `piece` is written in `t` from position `offset` on. -/
def Holds (t : Text) (offset : Nat) (piece : Text) : Prop :=
  ∃ before after, t = before ++ piece ++ after ∧ before.size = offset

/-- `offset` lies between two characters of `t`, or at one of its ends. -/
def IsPosition (t : Text) (offset : Nat) : Prop := t.Holds offset []

section Holds

variable {t piece first second : Text} {offset inner : Nat}

theorem holds_self (t : Text) : t.Holds 0 t := ⟨[], [], by simp, rfl⟩

theorem Holds.left (h : t.Holds offset (first ++ second)) : t.Holds offset first := by
  obtain ⟨before, after, ht, hsize⟩ := h
  exact ⟨before, second ++ after, by simp [ht], hsize⟩

theorem Holds.right (h : t.Holds offset (first ++ second)) :
    t.Holds (offset + first.size) second := by
  obtain ⟨before, after, ht, hsize⟩ := h
  exact ⟨before ++ first, after, by simp [ht], by simp [hsize]⟩

theorem Holds.tail {c : Char} (h : t.Holds offset (c :: piece)) :
    t.Holds (offset + c.utf8Size) piece := by
  have hright : t.Holds offset ([c] ++ piece) := h
  exact hright.right

/-- What a piece holds the text holds too. -/
theorem Holds.trans (h : t.Holds offset piece) (hinner : piece.Holds inner second) :
    t.Holds (offset + inner) second := by
  obtain ⟨before, after, rfl, rfl⟩ := hinner
  exact (Holds.left h).right

theorem Holds.start (h : t.Holds offset piece) : t.IsPosition offset := by
  have hpiece : t.Holds offset ([] ++ piece) := h
  exact hpiece.left

theorem Holds.stop (h : t.Holds offset piece) : t.IsPosition (offset + piece.size) := by
  have hpiece : t.Holds offset (piece ++ []) := by simpa using h
  exact hpiece.right

theorem Holds.isPosition (h : t.Holds offset piece) (hinner : piece.IsPosition inner) :
    t.IsPosition (offset + inner) :=
  h.trans hinner

theorem isPosition_zero (t : Text) : t.IsPosition 0 := (holds_self t).start

theorem isPosition_size (t : Text) : t.IsPosition t.size := by
  simpa using (holds_self t).stop

theorem isPosition_size_take (t : Text) (n : Nat) : t.IsPosition (size (t.take n)) := by
  have h : t.Holds 0 (t.take n ++ t.drop n) := by simpa using holds_self t
  simpa using h.left.stop

theorem Holds.le_size (h : t.Holds offset piece) : offset + piece.size ≤ t.size := by
  obtain ⟨before, after, rfl, rfl⟩ := h
  simp only [size_append]
  omega

theorem IsPosition.le_size (h : t.IsPosition offset) : offset ≤ t.size := by
  simpa using Holds.le_size h

end Holds

/-! ## Cuts and slices -/

/-- Only the empty text has size zero. -/
theorem size_eq_zero_iff {t : Text} : t.size = 0 ↔ t = [] := by
  cases t with
  | nil => simp
  | cons c t =>
    have := c.utf8Size_pos
    simp only [size_cons, reduceCtorEq, iff_false]
    omega

theorem cut?_size_append (before after : Text) :
    cut? before.size (before ++ after) = some (before, after) := by
  induction before with
  | nil => simp [cut?]
  | cons c before ih =>
    obtain ⟨n, hn⟩ : ∃ n, size (c :: before) = n + 1 := by
      have := c.utf8Size_pos
      exact ⟨size (c :: before) - 1, by simp only [size_cons]; omega⟩
    have hle : c.utf8Size ≤ n + 1 := by rw [← hn, size_cons]; omega
    have hrest : n + 1 - c.utf8Size = size before := by rw [← hn, size_cons]; omega
    rw [hn, List.cons_append, cut?, if_pos hle, hrest, ih]
    rfl

theorem slice?_of_holds {t piece : Text} {offset : Nat} (h : t.Holds offset piece) :
    t.slice? offset (offset + piece.size) = some piece := by
  obtain ⟨before, after, rfl, rfl⟩ := h
  rw [slice?, if_pos (Nat.le_add_right _ _), List.append_assoc, cut?_size_append]
  rw [Option.bind_some, Nat.add_sub_cancel_left, cut?_size_append]
  rfl

/-- Between two positions of a text stands a piece of it. -/
theorem holds_of_isPosition {t : Text} {start stop : Nat} (hstart : t.IsPosition start)
    (hstop : t.IsPosition stop) (hle : start ≤ stop) :
    ∃ piece, t.Holds start piece ∧ start + piece.size = stop := by
  obtain ⟨before, after, ht, rfl⟩ := hstart
  obtain ⟨before', after', ht', rfl⟩ := hstop
  simp only [List.append_nil] at ht ht'
  rw [ht] at ht'
  rcases List.append_eq_append_iff.mp ht' with ⟨piece, hbefore, hafter⟩ | ⟨piece, hbefore, hafter⟩
  · exact ⟨piece, ⟨before, after', by simp [ht, hafter], rfl⟩, by simp [hbefore]⟩
  · have hpiece : piece = [] := by
      rw [← size_eq_zero_iff]
      rw [hbefore, size_append] at hle
      omega
    exact ⟨[], ⟨before, after, by simp [ht], rfl⟩, by simp [hbefore, hpiece]⟩

/-- A position of two texts after one another is one of the first or one of the second. -/
theorem IsPosition.of_append {first second : Text} {n : Nat} (h : IsPosition (first ++ second) n) :
    (n ≤ first.size → first.IsPosition n) ∧
      (first.size ≤ n → second.IsPosition (n - first.size)) := by
  obtain ⟨before, after, happend, rfl⟩ := h
  rw [List.append_nil] at happend
  rcases List.append_eq_append_iff.mp happend with ⟨gap, hbefore, hsecond⟩ | ⟨gap, hfirst, hafter⟩
  · rw [hbefore, size_append]
    refine ⟨fun hle => ?_, fun _ => ⟨gap, after, by simp [hsecond], by omega⟩⟩
    have hend : first.size + size gap = first.size := by omega
    rw [hend]
    exact first.isPosition_size
  · refine ⟨fun _ => ⟨before, gap, by simp [hfirst], rfl⟩, fun hle => ?_⟩
    have hzero : before.size - first.size = 0 := by
      rw [hfirst, size_append]
      omega
    rw [hzero]
    exact second.isPosition_zero

theorem take_length_takeWhile (p : Char → Bool) (t : Text) :
    t.take (t.takeWhile p).length = t.takeWhile p :=
  (List.prefix_iff_eq_take.mp <| List.takeWhile_prefix p).symm

/-- What is taken before the end stops at a character that is not taken. -/
theorem exists_of_takeWhile_lt {p : Char → Bool} {t : Text}
    (h : (t.takeWhile p).length < t.length) :
    ∃ c rest, t = t.takeWhile p ++ c :: rest ∧ p c = false := by
  have hsplit : t.takeWhile p ++ t.dropWhile p = t := List.takeWhile_append_dropWhile
  cases hrest : t.dropWhile p with
  | nil =>
    rw [hrest, List.append_nil] at hsplit
    rw [hsplit] at h
    exact absurd h (Nat.lt_irrefl _)
  | cons c rest =>
    rw [hrest] at hsplit
    have hhead := List.head?_dropWhile_not p t
    rw [hrest] at hhead
    exact ⟨c, rest, hsplit.symm, hhead⟩

theorem size_take_le (t : Text) {m n : Nat} (h : m ≤ n) : size (t.take m) ≤ size (t.take n) := by
  have htake : t.take m = (t.take n).take m := by rw [List.take_take, Nat.min_eq_left h]
  rw [htake]
  exact (isPosition_size_take (t.take n) m).le_size

/-- What is found is written where it is found. -/
theorem prefix_of_find? {t needle : Text} {n : Nat} (h : t.find? needle = some n) :
    needle <+: t.drop n := by
  induction t generalizing n with
  | nil =>
    unfold find? at h
    split at h
    · rename_i hempty
      cases h
      rw [List.isEmpty_iff.mp hempty]
      exact List.nil_prefix
    · cases h
  | cons c t ih =>
    rw [find?] at h
    split at h
    · rename_i hhere
      cases h
      exact List.isPrefixOf_iff_prefix.mp hhere
    · obtain ⟨m, hm, rfl⟩ := Option.map_eq_some_iff.mp h
      exact ih hm

end Text

theorem Scan.exists_of_one {p : Char → Bool} {t : Text} {n : Nat} (h : Scan.one p t = some n) :
    ∃ first rest, t = first :: rest ∧ p first = true ∧ n = 1 := by
  cases t with
  | nil => cases h
  | cons first rest =>
    rw [Scan.one] at h
    split at h
    · rename_i hp
      cases h
      exact ⟨first, rest, rfl, hp, rfl⟩
    · cases h

/-- A scan that covers a text matches all of it. -/
theorem Scan.exists_of_coversAll {s : Scan} {t : Text} (h : s.coversAll t = true) :
    ∃ n, s t = some n ∧ t.take n = t := by
  obtain ⟨n, hn⟩ := Option.isSome_iff_exists.mp h
  obtain ⟨a, b, ha, hb, -⟩ := Scan.seq_cons_eq_some_iff.mp hn
  obtain ⟨m, _, hm, -⟩ := Scan.seq_cons_eq_some_iff.mp hb
  have hdrop : t.drop a = [] := by
    unfold Scan.done at hm
    split at hm
    · rename_i hempty
      exact List.isEmpty_iff.mp hempty
    · cases hm
  exact ⟨a, ha, List.take_of_length_le (List.drop_eq_nil_iff.mp hdrop)⟩

/-! ## Fragments and cursors -/

/-- The fragment is written in `t` where it says. -/
def Fragment.In (t : Text) (f : Fragment) : Prop := t.Holds f.offset f.text

/-- What is left to read is written in `t` where the cursor stands. -/
def Cursor.In (t : Text) (c : Cursor) : Prop := t.Holds c.offset c.rest

theorem Fragment.In.isPosition {t : Text} {f : Fragment} (h : f.In t) : t.IsPosition f.offset :=
  h.start

theorem Fragment.In.isPosition_stop {t : Text} {f : Fragment} (h : f.In t) :
    t.IsPosition f.stop :=
  h.stop

namespace Cursor

/-- From `c` the text `passed` leads to `d`. -/
def Passes (c : Cursor) (passed : Text) (d : Cursor) : Prop :=
  c.rest = passed ++ d.rest ∧ d.offset = c.offset + passed.size

theorem Passes.trans {b c d : Cursor} {first second : Text} (h : b.Passes first c)
    (h' : c.Passes second d) : b.Passes (first ++ second) d := by
  refine ⟨by rw [h.1, h'.1, List.append_assoc], ?_⟩
  rw [h'.2, h.2, Text.size_append]
  omega

theorem passes_advance (c : Cursor) (n : Nat) : c.Passes (c.rest.take n) (c.advance n) :=
  ⟨(List.take_append_drop n c.rest).symm, rfl⟩

theorem exists_passes {c : Cursor} {passed more : Text} (h : c.rest = passed ++ more) :
    ∃ d, c.Passes passed d ∧ d.rest = more := by
  refine ⟨c.advance passed.length, ?_, by rw [rest_advance, h, List.drop_left]⟩
  have hpass := c.passes_advance passed.length
  rwa [h, List.take_left] at hpass

theorem passes_head {c : Cursor} {first : Char} {rest : Text} (h : c.rest = first :: rest) :
    c.Passes [first] (c.advance 1) := by
  have hpass := c.passes_advance 1
  rwa [h] at hpass

theorem passes_skip (c : Cursor) (p : Char → Bool) : c.Passes (c.rest.takeWhile p) (c.skip p) := by
  have h := c.passes_advance (c.rest.takeWhile p).length
  rw [Text.take_length_takeWhile] at h
  exact h

theorem passes_scan? {c d : Cursor} {s : Scan} {f : Fragment} (h : c.scan? s = some (f, d)) :
    f.offset = c.offset ∧ c.Passes f.text d := by
  obtain ⟨n, _, hn⟩ := Option.map_eq_some_iff.mp h
  simp only [Prod.mk.injEq] at hn
  rw [← hn.1, ← hn.2]
  exact ⟨rfl, c.passes_advance n⟩

section In

variable {t passed : Text} {c d : Cursor}

theorem Passes.in (h : c.Passes passed d) (hc : c.In t) : d.In t := by
  have hheld : t.Holds c.offset (passed ++ d.rest) := by rw [← h.1]; exact hc
  have hright := hheld.right
  rw [← h.2] at hright
  exact hright

theorem In.holds {piece more : Text} (h : c.In t) (hrest : c.rest = piece ++ more) :
    t.Holds c.offset piece := by
  have hheld : t.Holds c.offset (piece ++ more) := by rw [← hrest]; exact h
  exact hheld.left

theorem In.isPosition (h : c.In t) : t.IsPosition c.offset := h.start

theorem In.advance (h : c.In t) (n : Nat) : (c.advance n).In t := (c.passes_advance n).in h

theorem In.skip (h : c.In t) (p : Char → Bool) : (c.skip p).In t := (c.passes_skip p).in h

theorem In.skipBlanks (h : c.In t) : c.skipBlanks.In t := h.skip Text.isBlank

theorem In.fragment (h : c.In t) (n : Nat) : (c.fragment n).In t := by
  have hheld : t.Holds c.offset (c.rest.take n ++ c.rest.drop n) := by
    rw [List.take_append_drop]; exact h
  exact hheld.left

theorem In.scan? (h : c.In t) {s : Scan} {f : Fragment} (hscan : c.scan? s = some (f, d)) :
    f.In t ∧ d.In t := by
  obtain ⟨n, _, hn⟩ := Option.map_eq_some_iff.mp hscan
  simp only [Prod.mk.injEq] at hn
  rw [← hn.1, ← hn.2]
  exact ⟨h.fragment n, h.advance n⟩

end In

/-- Position of the end of what is left to read. -/
def stop (c : Cursor) : Nat := c.offset + c.rest.size

/-- Some text leads from `c` to `d`. -/
def Leads (c d : Cursor) : Prop := ∃ passed, c.Passes passed d

section Leads

variable {t : Text} {b c d : Cursor}

theorem Leads.refl (c : Cursor) : c.Leads c := ⟨[], rfl, rfl⟩

theorem Leads.trans (h : b.Leads c) (h' : c.Leads d) : b.Leads d :=
  ⟨_, h.choose_spec.trans h'.choose_spec⟩

theorem leads_advance (c : Cursor) (n : Nat) : c.Leads (c.advance n) := ⟨_, c.passes_advance n⟩

theorem leads_skipBlanks (c : Cursor) : c.Leads c.skipBlanks := ⟨_, c.passes_skip Text.isBlank⟩

theorem leads_scan? {s : Scan} {f : Fragment} (h : c.scan? s = some (f, d)) : c.Leads d :=
  ⟨_, (passes_scan? h).2⟩

theorem Leads.in (h : c.Leads d) (hc : c.In t) : d.In t := h.choose_spec.in hc

theorem Leads.stop_eq (h : c.Leads d) : d.stop = c.stop := by
  obtain ⟨passed, hrest, hoffset⟩ := h
  rw [stop, stop, hrest, hoffset, Text.size_append, Nat.add_assoc]

theorem Leads.le (h : c.Leads d) : c.offset ≤ d.offset := by
  obtain ⟨passed, -, hoffset⟩ := h
  omega

theorem Leads.lt (h : c.Leads d) (hlength : d.rest.length < c.rest.length) : c.offset < d.offset := by
  obtain ⟨passed, hrest, hoffset⟩ := h
  have hne : passed.size ≠ 0 := by
    rw [ne_eq, Text.size_eq_zero_iff]
    rintro rfl
    rw [hrest, List.nil_append] at hlength
    exact Nat.lt_irrefl _ hlength
  omega

theorem Leads.le_stop (h : c.Leads d) : d.offset ≤ c.stop := by
  rw [← h.stop_eq]
  exact Nat.le_add_right _ _

end Leads

end Cursor

end Errata
