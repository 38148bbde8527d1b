import Errata.Proofs.Markup.Token

/-!
# What tokens are written as

Comments and declarations go through the mark that ends them, end tags are written with the name that they
close, and raw text ends where the end tag of its element begins.
-/

namespace Errata

namespace Text

/-! ## 1. Marks -/

/-- The piece, behind which `after` stands, goes through the first mark, or to the end of the text if there
is none. -/
structure GoesThrough (mark piece after : Text) : Prop where
  first : ∀ before behind, piece = before ++ mark ++ behind → behind = []
  last : mark <:+ piece ∨ after = []

theorem exists_find?_le (before mark after : Text) :
    ∃ n, find? (before ++ mark ++ after) mark = some n ∧ n ≤ before.length := by
  induction before with
  | nil =>
    refine ⟨0, ?_, Nat.le_refl _⟩
    cases mark with
    | nil => cases after with
      | nil => rfl
      | cons c after => rfl
    | cons c mark =>
      have hprefix : (c :: mark).isPrefixOf (c :: (mark ++ after)) = true :=
        List.isPrefixOf_iff_prefix.mpr (List.prefix_append (c :: mark) after)
      show find? (c :: (mark ++ after)) (c :: mark) = some 0
      rw [find?, if_pos hprefix]
  | cons c before ih =>
    obtain ⟨n, hn, hle⟩ := ih
    show ∃ m, find? (c :: (before ++ mark ++ after)) mark = some m ∧ m ≤ before.length + 1
    rw [find?]
    split
    · exact ⟨0, rfl, Nat.zero_le _⟩
    · rw [hn]
      exact ⟨n + 1, rfl, Nat.succ_le_succ hle⟩

theorem goesThrough_take (mark : String) (t : Text) :
    GoesThrough mark.toList (t.take (Markup.widthThrough mark t)) (t.drop (Markup.widthThrough mark t)) := by
  unfold Markup.widthThrough
  split
  · rename_i n hn
    obtain ⟨rest, hrest⟩ := prefix_of_find? hn
    have htake : t.take (n + mark.toList.length) = t.take n ++ mark.toList := by
      rw [List.take_add, ← hrest, List.take_left]
    have hle : n ≤ t.length := by
      by_contra hlt
      rw [List.drop_eq_nil_of_le (by omega)] at hrest
      obtain ⟨hmark, -⟩ := List.append_eq_nil_iff.mp hrest
      obtain ⟨m, hm, hzero⟩ := exists_find?_le [] mark.toList t
      rw [hmark] at hm hn
      rw [List.nil_append, List.nil_append, hn] at hm
      cases hm
      rw [List.length_nil] at hzero
      omega
    refine ⟨fun before behind hpiece => ?_, .inl ⟨_, htake.symm⟩⟩
    -- an earlier mark would have been found first
    have ht : t = before ++ mark.toList ++ (behind ++ t.drop (n + mark.toList.length)) := by
      rw [← List.append_assoc, ← hpiece, List.take_append_drop]
    obtain ⟨m, hm, hfirst⟩ := exists_find?_le before mark.toList (behind ++ t.drop (n + mark.toList.length))
    rw [← ht, hn] at hm
    cases hm
    have hlength := congrArg List.length (htake.symm.trans hpiece)
    simp only [List.length_append, List.length_take] at hlength
    exact List.length_eq_zero_iff.mp (by omega)
  · rename_i hnone
    rw [List.take_length, List.drop_length]
    refine ⟨fun before behind hpiece => ?_, .inr rfl⟩
    obtain ⟨m, hm, -⟩ := exists_find?_le before mark.toList behind
    rw [← hpiece, hnone] at hm
    cases hm

/-- What has not all characters of the mark is gone through. -/
theorem prefix_take_widthThrough (mark : String) {c : Char} (hc : c ∈ mark.toList) {before t : Text}
    (hbefore : c ∉ before) (h : before <+: t) : before <+: t.take (Markup.widthThrough mark t) := by
  rw [List.prefix_take_iff]
  refine ⟨h, ?_⟩
  obtain ⟨after, rfl⟩ := h
  by_contra hlt
  have hthrough := (goesThrough_take mark (before ++ after)).last
  rw [List.take_append_of_le_length (by omega)] at hthrough
  rcases hthrough with ⟨init, hinit⟩ | hnil
  · refine hbefore (List.mem_of_mem_take (i := Markup.widthThrough mark (before ++ after)) ?_)
    rw [← hinit]
    exact List.mem_append_right _ hc
  · have := List.drop_eq_nil_iff.mp hnil
    rw [List.length_append] at this
    omega

/-! ## 2. Capital letters -/

theorem eq_of_toLower_eq {c d : Char} (h : c.toLower = d) (hd : d.toNat < 97) : c = d := by
  unfold Char.toLower at h
  split at h
  · rename_i hc
    exfalso
    rw [← h] at hd
    have hlow : 65 ≤ c.toNat := hc.1
    have hhigh : c.toNat ≤ 90 := hc.2
    have hsum : (c.val + 32).toNat < 97 := hd
    rw [UInt32.toNat_add] at hsum
    simp at hsum
    omega
  · exact h

theorem exists_prefix_of_toLower {needle t : Text} (h : needle <+: toLower t) :
    ∃ written, written <+: t ∧ toLower written = needle := by
  refine ⟨t.take needle.length, List.take_prefix _ _, ?_⟩
  rw [toLower, List.map_take]
  exact (List.prefix_iff_eq_take.mp h).symm

end Text

/-- The span has the piece of the text, behind which `after` stands. -/
def Span.Cuts (span : Span) (text piece after : Text) : Prop :=
  ∃ before, text = before ++ piece ++ after ∧ before.size = span.start ∧
    Text.size (before ++ piece) = span.stop

/-- All that is left of the text stands before the cursor. -/
def Cursor.At (text : Text) (c : Cursor) : Prop :=
  ∃ before, text = before ++ c.rest ∧ before.size = c.offset

namespace Cursor.At

variable {text : Text} {c : Cursor}

theorem isIn (h : c.At text) : c.In text := by
  obtain ⟨before, htext, hsize⟩ := h
  exact ⟨before, [], by rw [List.append_nil, htext], hsize⟩

theorem cuts (h : c.At text) (n : Nat) :
    Span.Cuts ⟨c.offset, (c.advance n).offset⟩ text (c.rest.take n) (c.rest.drop n) := by
  obtain ⟨before, htext, hsize⟩ := h
  refine ⟨before, ?_, hsize, ?_⟩
  · rw [List.append_assoc, List.take_append_drop, htext]
  · rw [Text.size_append, hsize]
    rfl

theorem advance (h : c.At text) (n : Nat) : (c.advance n).At text := by
  obtain ⟨before, htext, -, hstop⟩ := h.cuts n
  exact ⟨before ++ c.rest.take n, htext, hstop⟩

theorem offset_of_done (h : c.At text) (hrest : c.rest = []) : c.offset = text.size := by
  obtain ⟨before, htext, hsize⟩ := h
  rw [htext, hrest, List.append_nil, hsize]

end Cursor.At

theorem Cursor.offset_advance_add (c : Cursor) (n m : Nat) :
    (c.advance (n + m)).offset = ((c.advance n).advance m).offset := by
  show c.offset + Text.size (c.rest.take (n + m)) =
    c.offset + Text.size (c.rest.take n) + Text.size ((c.rest.drop n).take m)
  rw [List.take_add, Text.size_append]
  omega

namespace Markup

open Text

/-! ## 3. Tokens -/

/-- A comment or a declaration, behind which `after` stands. -/
inductive IsComment (piece after : Text) : Prop
  | comment (hstart : "<!--".toList <+: piece) (hthrough : GoesThrough "-->".toList piece after)
  | declaration (hstart : "<!".toList <+: piece ∨ "<?".toList <+: piece)
      (hother : ¬ "<!--".toList <+: piece) (hthrough : GoesThrough ">".toList piece after)

/-- The name of a tag, in capital or small letters. -/
def IsName (written : Text) : Prop :=
  ∃ first others, written = first :: others ∧ isAsciiLetter first = true ∧
    ∀ c ∈ others, isNameChar c = true

/-- An end tag of the given name. -/
def IsEndTag (name piece : Text) : Prop :=
  ∃ written blanks, piece = "</".toList ++ written ++ blanks ++ ">".toList ∧ IsName written ∧
    (∀ c ∈ blanks, isBlank c = true) ∧ toLower written = name

/-- The piece begins as an end tag of the given name does. -/
def BeginsEndTag (name piece : Text) : Prop :=
  ∃ written rest, piece = "</".toList ++ written ++ rest ∧ toLower written = name

theorem IsEndTag.begins {name piece : Text} (h : IsEndTag name piece) : BeginsEndTag name piece := by
  obtain ⟨written, blanks, hpiece, -, -, hname⟩ := h
  exact ⟨written, blanks ++ ">".toList, by rw [hpiece, List.append_assoc], hname⟩

/-- What the token from `a` to `b` is written as. -/
inductive Token.Reads (text : Text) (a b : Nat) : Token → Prop
  | text : Reads text a b (.text ⟨a, b⟩)
  | comment {piece after : Text} (hcuts : Span.Cuts ⟨a, b⟩ text piece after)
      (hcomment : IsComment piece after) : Reads text a b (.comment ⟨a, b⟩)
  | startTag {tag : Tag} : Reads text a b (.startTag tag ⟨a, b⟩)
  | rawElement {tag : Tag} {m k : Nat} (hm : text.IsPosition m) (hk : text.IsPosition k) (ham : a ≤ m)
      (hmk : m ≤ k) {piece after : Text} (hcuts : Span.Cuts ⟨k, b⟩ text piece after)
      (hend : BeginsEndTag tag.name piece) :
      Reads text a b (.rawElement tag ⟨a, m⟩ ⟨m, k⟩ (some ⟨k, b⟩))
  | rawToEnd {tag : Tag} {m : Nat} (hm : text.IsPosition m) (ham : a ≤ m) (hmb : m ≤ b)
      (hb : b = text.size) : Reads text a b (.rawElement tag ⟨a, m⟩ ⟨m, b⟩ none)
  | endTag {name piece after : Text} (hcuts : Span.Cuts ⟨a, b⟩ text piece after)
      (hend : IsEndTag name piece) : Reads text a b (.endTag name ⟨a, b⟩)

theorem isName_of_word {t : Text} {n : Nat} (h : Scan.word isNameChar t = some n) :
    IsName (t.take n) := by
  obtain ⟨a, b, ha, hb, rfl⟩ := Scan.seq_cons_eq_some_iff.mp h
  obtain ⟨k, z, hk, hz, rfl⟩ := Scan.seq_cons_eq_some_iff.mp hb
  cases hz
  cases hk
  cases t with
  | nil => cases ha
  | cons first rest =>
    rw [Scan.one] at ha
    split at ha
    · rename_i hfirst
      cases ha
      refine ⟨first, rest.takeWhile isNameChar, ?_, hfirst, fun c hc => List.mem_takeWhile_imp hc⟩
      rw [Nat.add_zero, Nat.add_comm, List.take_succ_cons]
      exact congrArg (first :: ·) (take_length_takeWhile isNameChar rest)
    · cases ha

theorem isEndTag_of_endTag? {t name : Text} {n : Nat} (h : endTag? t = some (name, n)) :
    IsEndTag name (t.take n) := by
  simp only [endTag?, Option.bind_eq_bind, Option.bind_eq_some_iff] at h
  obtain ⟨k, hk, m, hm, heq⟩ := h
  cases heq
  -- the mark and the name
  obtain ⟨two, w, htwo, hw, rfl⟩ := Scan.seq_cons_eq_some_iff.mp hk
  obtain ⟨⟨u, rfl⟩, rfl⟩ := Scan.literal_eq_some_iff.mp htwo
  obtain ⟨w, z, hword, hz, rfl⟩ := Scan.seq_cons_eq_some_iff.mp hw
  cases hz
  rw [List.drop_left] at hword
  rw [Nat.add_zero, List.drop_length_add_append] at hm
  -- the blanks and the end
  obtain ⟨b, one, hb, hone, rfl⟩ := Scan.seq_cons_eq_some_iff.mp hm
  cases hb
  obtain ⟨one, z, hchar, hz, rfl⟩ := Scan.seq_cons_eq_some_iff.mp hone
  cases hz
  obtain ⟨hhead, rfl⟩ := Scan.char_eq_some_iff.mp hchar
  refine ⟨u.take w, (u.drop w).takeWhile isBlank, ?_, isName_of_word hword,
    fun c hc => List.mem_takeWhile_imp hc, ?_⟩
  · have hlast : ((u.drop w).drop ((u.drop w).takeWhile isBlank).length).take 1 = ">".toList := by
      rw [List.take_one, hhead]
      rfl
    rw [Nat.add_zero, Nat.add_zero, Nat.add_assoc, List.take_length_add_append, List.take_add, List.take_add,
      hlast, take_length_takeWhile]
    simp only [List.append_assoc]
  · rw [Nat.add_zero, List.take_length_add_append]
    rfl

theorem span_cuts {text : Text} {c : Cursor} (hc : c.At text) (n m : Nat) :
    (spanOf c n (n + m)).Cuts text ((c.rest.drop n).take m) (c.rest.drop (n + m)) := by
  rw [spanOf, c.offset_advance_add, ← List.drop_drop]
  exact (hc.advance n).cuts m

theorem beginsEndTag_of_find? {name t : Text} {i : Nat} (hname : name ∈ rawTextNames)
    (h : (toLower t).find? ("</".toList ++ name) = some i) :
    BeginsEndTag name ((t.drop i).take (widthThrough ">" (t.drop i))) := by
  have hprefix := prefix_of_find? h
  rw [toLower, ← List.map_drop] at hprefix
  obtain ⟨written, hwritten, hlower⟩ := exists_prefix_of_toLower hprefix
  -- no letter is the mark that ends the tag
  have hmark : '>' ∉ written := by
    intro hmem
    have hmem' : '>' ∈ toLower written := List.mem_map.mpr ⟨'>', hmem, rfl⟩
    have hno : ∀ name ∈ rawTextNames, '>' ∉ "</".toList ++ name := by decide
    rw [hlower] at hmem'
    exact hno name hname hmem'
  obtain ⟨rest, hrest⟩ := prefix_take_widthThrough ">" (by decide) hmark hwritten
  rw [← hrest]
  obtain ⟨first, written, rfl, hfirst, hlower⟩ := List.map_eq_cons_iff.mp hlower
  obtain ⟨second, written, rfl, hsecond, hlower⟩ := List.map_eq_cons_iff.mp hlower
  rw [eq_of_toLower_eq hfirst (by decide), eq_of_toLower_eq hsecond (by decide)]
  exact ⟨written, rest, rfl, hlower⟩

theorem reads_rawElement {text : Text} {c : Cursor} (hc : c.At text) {tag : Tag} {n : Nat}
    (hname : tag.name ∈ rawTextNames) :
    (rawElement c tag n).1.Reads text c.offset (c.advance (rawElement c tag n).2).offset := by
  have hstart : c.offset ≤ (c.advance n).offset := Nat.le_add_right _ _
  unfold rawElement
  dsimp only
  split
  · rename_i i hi
    have hcuts := span_cuts hc (n + i) (widthThrough ">" ((c.rest.drop n).drop i))
    have hend := beginsEndTag_of_find? hname hi
    rw [← List.drop_drop] at hcuts
    exact .rawElement (hc.advance n).isIn.isPosition (hc.advance (n + i)).isIn.isPosition hstart
      (offset_advance_le c (by omega)) hcuts hend
  · have hdone : (c.advance c.rest.length).rest = [] := List.drop_length
    have hstop := (hc.advance c.rest.length).offset_of_done hdone
    refine .rawToEnd (hc.advance n).isIn.isPosition hstart ?_ hstop
    rw [hstop]
    exact (hc.advance n).isIn.isPosition.le_size

theorem reads_nextToken {text : Text} {c : Cursor} (hc : c.At text) :
    (nextToken c).1.Reads text c.offset (c.advance (nextToken c).2).offset := by
  unfold nextToken
  split
  · rename_i hstarts
    refine .comment (hc.cuts _) (.comment ?_ (goesThrough_take _ _))
    exact prefix_take_widthThrough _ (c := '>') (by decide) (by decide) (List.isPrefixOf_iff_prefix.mp hstarts)
  rename_i hother
  split
  · rename_i hstarts
    refine .comment (hc.cuts _) (.declaration ?_ ?_ (goesThrough_take _ _))
    · rcases Bool.or_eq_true_iff.mp hstarts with hstarts | hstarts
      · left
        exact prefix_take_widthThrough _ (c := '>') (by decide) (by decide)
          (List.isPrefixOf_iff_prefix.mp hstarts)
      · right
        exact prefix_take_widthThrough _ (c := '>') (by decide) (by decide)
          (List.isPrefixOf_iff_prefix.mp hstarts)
    · intro hcomment
      exact hother (List.isPrefixOf_iff_prefix.mpr (hcomment.trans (List.take_prefix _ _)))
  split
  · rename_i hend
    exact .endTag (hc.cuts _) (isEndTag_of_endTag? hend)
  split
  · split
    · rename_i hraw
      rw [Bool.and_eq_true] at hraw
      exact reads_rawElement hc (List.contains_iff_mem.mp hraw.1)
    · exact .startTag
  · exact .text

end Markup

end Errata
