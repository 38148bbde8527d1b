import Errata.Expression.Reader
import Errata.Proofs.Except
import Errata.Proofs.Text.Lines

/-!
# The items of a step's content

The items tile the content: they stand one after another from its start to its end, and so do the items
between parentheses and in the values of a record.
-/

namespace Errata

open Text

/-! ## 1. Tilings -/

/-- What stands between the name of a field and its value. -/
def IsFieldSign (s : Text) : Prop :=
  ∃ before after : Text, s = before ++ ':' :: after ∧ before.AllBlank ∧ after.AllBlank

/-- What stands after a field that others follow: a comma, or a brace if the list ends there. -/
def fieldMark (closed : Bool) (others : List Field) : Char :=
  if closed && others.isEmpty then '\x7d' else ','

theorem utf8Size_fieldMark (closed : Bool) (others : List Field) :
    (fieldMark closed others).utf8Size = 1 := by
  unfold fieldMark
  split
  · rfl
  · rfl

mutual

/-- The item is written as `s` from position `a` on. -/
def Item.Spells (a : Nat) (s : Text) : Item → Prop
  | .leaf _ fragment => fragment = ⟨s, a⟩ ∧ s ≠ []
  | .paren span inner =>
    ∃ body, s = '(' :: (body ++ [')']) ∧ span = ⟨a, a + s.size⟩ ∧ Expression.Tiles (a + 1) body inner
  | .record span fields =>
    ∃ body, s = '\x7b' :: body ∧ span = ⟨a, a + s.size⟩ ∧ fields ≠ [] ∧
      Field.Listed true (a + 1) body fields

/-- The items are written one after another as `s` from position `a` on, no text next to another. -/
def Expression.Tiles (a : Nat) (s : Text) : List Item → Prop
  | [] => s = []
  | item :: items =>
    ∃ first rest, s = first ++ rest ∧ item.Spells a first ∧
      (item.text?.isSome → items.head?.bind Item.text? = none) ∧
      Expression.Tiles (a + first.size) rest items

/-- The field is written as `s` from position `a` on. -/
def Field.Spells (a : Nat) (s : Text) : Field → Prop
  | ⟨name, value⟩ =>
    ∃ gap sign body, s = gap ++ (name.text ++ (sign ++ body)) ∧ gap.AllBlank ∧ IsFieldSign sign ∧
      name.offset = a + gap.size ∧ Expression.Tiles (name.stop + sign.size) body value

/-- The fields are written as `s` from position `a` on, each with its mark after it. -/
def Field.Listed (closed : Bool) (a : Nat) (s : Text) : List Field → Prop
  | [] => s = []
  | field :: fields =>
    ∃ first rest, s = first ++ fieldMark closed fields :: rest ∧ field.Spells a first ∧
      Field.Listed closed (a + first.size + 1) rest fields

end

namespace Expression

/-- An item is added at the end. -/
theorem Tiles.concat {a : Nat} {s last : Text} {items : List Item} {item : Item}
    (h : Tiles a s items) (hitem : item.Spells (a + s.size) last)
    (hapart : item.text? = none ∨ items.getLast?.bind Item.text? = none) :
    Tiles a (s ++ last) (items ++ [item]) := by
  induction items generalizing a s with
  | nil =>
    cases h
    exact ⟨last, [], by simp, hitem, fun _ => rfl, rfl⟩
  | cons first items ih =>
    obtain ⟨one, rest, rfl, hfirst, hnext, hrest⟩ := h
    rw [size_append, ← Nat.add_assoc] at hitem
    refine ⟨one, rest ++ last, by simp, hfirst, ?_, ?_⟩
    · intro htext
      cases items with
      | nil =>
        -- the new item stands next to the first one
        rcases hapart with hnone | hlast
        · exact hnone
        · obtain ⟨t, ht⟩ := Option.isSome_iff_exists.mp htext
          have hfirst : first.text? = none := hlast
          rw [ht] at hfirst
          cases hfirst
      | cons second items => exact hnext htext
    · refine ih hrest hitem ?_
      cases items with
      | nil => exact .inr rfl
      | cons second items => simpa using hapart

/-- The last of several items stands at the end. If it is a text, the one before it is none. -/
theorem Tiles.of_concat {a : Nat} {s : Text} {items : List Item} {item : Item} (h : Tiles a s (items ++ [item])) :
    ∃ front last, s = front ++ last ∧ Tiles a front items ∧ item.Spells (a + front.size) last ∧
      (item.text?.isSome → items.getLast?.bind Item.text? = none) := by
  induction items generalizing a s with
  | nil =>
    obtain ⟨one, rest, rfl, hone, -, hrest⟩ := h
    cases hrest
    exact ⟨[], one, List.append_nil _, rfl, hone, fun _ => rfl⟩
  | cons first items ih =>
    obtain ⟨one, rest, rfl, hone, hnext, hrest⟩ := h
    obtain ⟨front, last, rfl, hfront, hlast, hapart⟩ := ih hrest
    refine ⟨one ++ front, last, (List.append_assoc _ _ _).symm, ⟨one, front, rfl, hone, ?_, hfront⟩, ?_, ?_⟩
    · intro hfirst
      have hsecond := hnext hfirst
      cases items with
      | nil => rfl
      | cons second items => exact hsecond
    · rw [size_append, ← Nat.add_assoc]
      exact hlast
    · intro htext
      cases items with
      | nil =>
        -- only the first item is before it, and two texts do not stand next to each other
        show first.text? = none
        by_contra hfirst
        have hnone : item.text? = none := hnext (Option.isSome_iff_ne_none.mpr hfirst)
        rw [hnone] at htext
        cases htext
      | cons second items => exact hapart htext

end Expression

/-- A field is added at the end. -/
theorem Field.Listed.concat {a : Nat} {s last : Text} {fields : List Field} {field : Field}
    (h : Field.Listed false a s fields) (hfield : field.Spells (a + s.size) last) (closed : Bool) :
    Field.Listed closed a (s ++ (last ++ [fieldMark closed []])) (fields ++ [field]) := by
  induction fields generalizing a s with
  | nil =>
    cases h
    exact ⟨last, [], rfl, hfield, rfl⟩
  | cons first fields ih =>
    obtain ⟨one, rest, rfl, hfirst, hrest⟩ := h
    have hmark : fieldMark closed (fields ++ [field]) = fieldMark false fields := by
      simp [fieldMark]
    have hsize : a + size (one ++ fieldMark false fields :: rest) = a + size one + 1 + size rest := by
      rw [size_append, size_cons, utf8Size_fieldMark]
      omega
    rw [hsize] at hfield
    refine ⟨one, rest ++ (last ++ [fieldMark closed []]), ?_, hfirst, ih hrest hfield⟩
    show _ = one ++ fieldMark closed (fields ++ [field]) :: _
    rw [hmark]
    simp

/-! ## 2. Reading -/

namespace Expression

/-- What stands before the sequence that is being read: from position `a` on, `s` opens the given
frames. -/
def Opened (a : Nat) (s : Text) : List Frame → Prop
  | [] => s = []
  | .paren start before :: frames =>
    ∃ outer text : Text, s = outer ++ (text ++ ['(']) ∧ start = a + outer.size + text.size ∧
      Opened a outer frames ∧ Tiles (a + outer.size) text before.reverse
  | .record start before fields name :: frames =>
    ∃ outer text done gap sign : Text,
      s = outer ++ (text ++ '\x7b' :: (done ++ (gap ++ (name.text ++ sign)))) ∧
      start = a + outer.size + text.size ∧ Opened a outer frames ∧
      Tiles (a + outer.size) text before.reverse ∧ Field.Listed false (start + 1) done fields.reverse ∧
      gap.AllBlank ∧ IsFieldSign sign ∧ name.offset = start + 1 + done.size + gap.size

/-- The content up to the cursor is `outer`, which opens the frames, then `text`, which is tiled by the
items, and then the pending characters. -/
structure Reading.Tracks (content : Fragment) (outer text : Text) (r : Reading) : Prop where
  whole : content.text = outer ++ (text ++ (r.pending.reverse ++ r.cursor.rest))
  opened : Opened content.offset outer r.frames
  items : Tiles (content.offset + outer.size) text r.items.reverse
  last : r.items.head?.bind Item.text? = none
  pendingStart : r.pendingStart = content.offset + outer.size + text.size
  offset : r.cursor.offset = r.pendingStart + size r.pending.reverse

namespace Reading

variable {content : Fragment} {outer text : Text} {r : Reading}

theorem tracks_resume {c : Cursor} {frames : List Frame} {items : List Item}
    (hwhole : content.text = outer ++ (text ++ c.rest))
    (hoffset : c.offset = content.offset + outer.size + text.size)
    (hopened : Opened content.offset outer frames)
    (hitems : Tiles (content.offset + outer.size) text items.reverse)
    (hlast : items.head?.bind Item.text? = none) :
    (resume c frames items).Tracks content outer text :=
  ⟨hwhole, hopened, hitems, hlast, hoffset, rfl⟩

/-- The pending characters are the last item. -/
theorem Tracks.allItems (h : r.Tracks content outer text) :
    Tiles (content.offset + outer.size) (text ++ r.pending.reverse) r.allItems.reverse := by
  unfold Reading.allItems
  split
  · rename_i hempty
    rw [List.isEmpty_iff.mp hempty, List.reverse_nil, List.append_nil]
    exact h.items
  · rename_i hne
    rw [List.reverse_cons]
    refine h.items.concat ⟨?_, ?_⟩ (.inr ?_)
    · rw [h.pendingStart]
    · simpa using hne
    · rw [List.getLast?_reverse]
      exact h.last

theorem Tracks.takeChar (h : r.Tracks content outer text) {c : Char} {rest : Text}
    (hrest : r.cursor.rest = c :: rest) : (r.takeChar c).Tracks content outer text := by
  obtain ⟨hpass, hoffset⟩ := Cursor.passes_head hrest
  refine ⟨?_, h.opened, h.items, h.last, h.pendingStart, ?_⟩
  · rw [h.whole, hpass]
    simp [Reading.takeChar]
  · show (r.cursor.advance 1).offset = r.pendingStart + size (c :: r.pending).reverse
    rw [hoffset, h.offset, List.reverse_cons, size_append, Nat.add_assoc]

/-- An item that is no text is read after the pending characters. -/
theorem Tracks.push (h : r.Tracks content outer text) {item : Item} {s : Text} {d : Cursor}
    (hitem : item.Spells r.cursor.offset s) (htext : item.text? = none)
    (hpass : r.cursor.Passes s d) :
    (resume d r.frames (item :: r.allItems)).Tracks content outer
      (text ++ r.pending.reverse ++ s) := by
  have hoffset : content.offset + outer.size + size (text ++ r.pending.reverse) = r.cursor.offset := by
    rw [h.offset, h.pendingStart, size_append]
    omega
  apply tracks_resume
  · rw [h.whole, hpass.1]
    simp
  · rw [hpass.2, size_append, ← Nat.add_assoc, hoffset]
  · exact h.opened
  · rw [List.reverse_cons]
    refine h.allItems.concat ?_ (.inl htext)
    rw [hoffset]
    exact hitem
  · exact htext

theorem Tracks.takeLeaf (h : r.Tracks content outer text) {kind : Leaf} (hkind : kind ≠ .text)
    {n : Nat} (hn : 0 < n) {c : Char} {rest : Text} (hrest : r.cursor.rest = c :: rest) :
    ∃ text', (r.takeLeaf kind n).Tracks content outer text' := by
  refine ⟨_, h.push ⟨rfl, ?_⟩ ?_ (r.cursor.passes_advance n)⟩
  · rw [hrest]
    obtain ⟨m, rfl⟩ := Nat.exists_eq_succ_of_ne_zero (Nat.ne_of_gt hn)
    exact List.cons_ne_nil _ _
  · cases kind with
    | text => exact absurd rfl hkind
    | _ => rfl

theorem delimited?_ne_text {c : Char} {kind : Leaf} {token : Scan}
    (h : delimited? c = some (kind, token)) : kind ≠ .text := by
  unfold delimited? at h
  split at h <;> cases h <;> decide

/-! ## 3. Fields -/

theorem isFieldSign_of_scan {t : Text} {n : Nat}
    (h : Scan.seq [.blanks, .char ':', .blanks] t = some n) : IsFieldSign (t.take n) := by
  obtain ⟨a, b, ha, hb, rfl⟩ := Scan.seq_cons_eq_some_iff.mp h
  obtain ⟨one, d, hone, hd, rfl⟩ := Scan.seq_cons_eq_some_iff.mp hb
  obtain ⟨k, m, hk, hm, rfl⟩ := Scan.seq_cons_eq_some_iff.mp hd
  obtain ⟨hhead, rfl⟩ := Scan.char_eq_some_iff.mp hone
  obtain ⟨rest, hrest⟩ := List.head?_eq_some_iff.mp hhead
  cases ha
  cases hk
  cases hm
  rw [hrest, List.drop_succ_cons, List.drop_zero, List.take_add, take_length_takeWhile, hrest,
    Nat.add_zero, Nat.add_comm 1, List.take_succ_cons]
  refine ⟨_, _, rfl, allBlank_takeWhile t, ?_⟩
  rw [take_length_takeWhile]
  exact allBlank_takeWhile rest

theorem fieldNameAt?_passes {c d : Cursor} {name : Fragment} (h : fieldNameAt? c = some (name, d)) :
    ∃ gap sign : Text, gap.AllBlank ∧ IsFieldSign sign ∧ name.offset = c.offset + gap.size ∧
      c.Passes (gap ++ (name.text ++ sign)) d := by
  simp only [fieldNameAt?, Option.bind_eq_bind, Option.bind_eq_some_iff] at h
  obtain ⟨⟨field, afterName⟩, hname, ⟨sign, value⟩, hsign, heq⟩ := h
  cases heq
  obtain ⟨gap, hgap, hskip⟩ := c.passes_skipBlanks
  obtain ⟨hoffset, hpassName⟩ := Cursor.passes_scan? hname
  obtain ⟨-, hpassSign⟩ := Cursor.passes_scan? hsign
  obtain ⟨n, hn, hfragment⟩ := Option.map_eq_some_iff.mp hsign
  cases hfragment
  refine ⟨gap, _, hgap, isFieldSign_of_scan hn, ?_, ?_⟩
  · rw [hoffset, hskip.2]
  · exact hskip.trans (hpassName.trans hpassSign)

/-- The next field of a record is begun after `done`. -/
theorem ends_enterField {start : Nat} {before : List Item} {fields : List Field}
    {frames : List Frame} {c : Cursor} {done : Text} {E : StepError → Prop}
    (hwhole : content.text = outer ++ (text ++ '\x7b' :: (done ++ c.rest)))
    (hstart : start = content.offset + outer.size + text.size)
    (hoffset : c.offset = start + 1 + done.size) (hopened : Opened content.offset outer frames)
    (hbefore : Tiles (content.offset + outer.size) text before.reverse)
    (hdone : Field.Listed false (start + 1) done fields.reverse) (herror : E (.unclosedRecord start)) :
    Ends E (fun s => ∃ outer' text', s.Tracks content outer' text')
      (enterField start before fields frames c) := by
  unfold enterField
  split
  · exact herror
  · rename_i name value hname
    obtain ⟨gap, sign, hgap, hsign, hnameOffset, hpass⟩ := fieldNameAt?_passes hname
    rw [hoffset] at hnameOffset
    refine ⟨outer ++ (text ++ '\x7b' :: (done ++ (gap ++ (name.text ++ sign)))), [],
      tracks_resume ?_ ?_ ?_ rfl rfl⟩
    · rw [hwhole, hpass.1]
      simp
    · rw [hpass.2, hoffset, hstart]
      simp only [size_append, size_cons, size_nil]
      show _ = content.offset + (outer.size + (text.size + (1 + _))) + 0
      omega
    · exact ⟨outer, text, done, gap, sign, rfl, hstart, hopened, hbefore, hdone, hgap, hsign,
        hnameOffset⟩

/-! ## 4. Steps -/

variable {t : Text}

theorem Tracks.isPosition (h : r.Tracks content outer text) (ht : content.In t) :
    t.IsPosition r.cursor.offset := by
  have hheld : t.Holds content.offset ((outer ++ text ++ r.pending.reverse) ++ r.cursor.rest) := by
    have hcontent : t.Holds content.offset content.text := ht
    rw [h.whole] at hcontent
    simpa using hcontent
  have hoffset : r.cursor.offset = content.offset + size (outer ++ text ++ r.pending.reverse) := by
    rw [h.offset, h.pendingStart, size_append, size_append]
    omega
  rw [hoffset]
  exact hheld.left.stop

theorem isPosition_opening {a start : Nat} {s outer text rest : Text} (hs : t.Holds a s)
    (hsplit : s = outer ++ (text ++ rest)) (hstart : start = a + outer.size + text.size) :
    t.IsPosition start := by
  rw [hsplit, ← List.append_assoc] at hs
  rw [hstart, Nat.add_assoc, ← size_append]
  exact hs.left.stop

theorem Tracks.holds_outer (h : r.Tracks content outer text) (ht : content.In t) :
    t.Holds content.offset outer := by
  have hcontent : t.Holds content.offset content.text := ht
  rw [h.whole] at hcontent
  exact hcontent.left

theorem ends_stepOpen (h : r.Tracks content outer text) (ht : content.In t) {c : Char} {rest : Text}
    (hrest : r.cursor.rest = c :: rest) :
    Ends (fun e => t.IsPosition e.offset) (fun s => ∃ outer' text', s.Tracks content outer' text')
      (r.stepOpen c) := by
  have hposition := h.isPosition ht
  have hchar : ∃ outer' text', (r.takeChar c).Tracks content outer' text' :=
    ⟨outer, text, h.takeChar hrest⟩
  have hstart : r.cursor.offset = content.offset + outer.size + size (text ++ r.pending.reverse) := by
    rw [h.offset, h.pendingStart, size_append]
    omega
  have hwhole : content.text = outer ++ ((text ++ r.pending.reverse) ++ c :: rest) := by
    rw [h.whole, hrest]
    simp
  obtain ⟨hpass, hoffset⟩ := Cursor.passes_head hrest
  have hadvance : (r.cursor.advance 1).rest = rest := by
    rw [hrest] at hpass
    exact (List.cons_inj_right c).mp hpass.symm
  unfold Reading.stepOpen
  split
  · -- the frame keeps the items before the parenthesis
    refine ⟨outer ++ ((text ++ r.pending.reverse) ++ ['(']), [], tracks_resume ?_ ?_ ?_ rfl rfl⟩
    · rw [hwhole, hadvance]
      simp
    · rw [hoffset, hstart]
      simp only [size_append, size_nil]
      omega
    · exact ⟨outer, _, rfl, hstart, h.opened, h.allItems⟩
  · exact hposition
  · -- a brace opens a record only before a field name
    split
    · have hnone : Field.Listed false (r.cursor.offset + 1) [] [].reverse := rfl
      have hinside : (r.cursor.advance 1).offset = r.cursor.offset + 1 + size [] := hoffset
      refine ends_enterField ?_ hstart hinside h.opened h.allItems hnone hposition
      rw [hwhole, hadvance]
      rfl
    · exact hchar
  · -- figures and other tags
    split
    · split
      · exact hposition
      · rename_i n hwidth
        exact ⟨outer, h.takeLeaf (by decide) (Figure.width?_pos hwidth) hrest⟩
    · split
      · rename_i n htag
        exact ⟨outer, h.takeLeaf (by decide) (Scan.seq_char_pos htag) hrest⟩
      · exact hchar
  · -- a delimiter that does not begin a token is text
    split
    · exact hchar
    · rename_i kind token hkind
      split
      · exact hchar
      · rename_i n hapart
        exact ⟨outer, h.takeLeaf (delimited?_ne_text hkind)
          (delimited?_pos hkind (apart?_eq_some hapart)) hrest⟩

/-- A parenthesis is closed and becomes an item. -/
theorem Tracks.closeParen (h : r.Tracks content outer text) {start : Nat} {before : List Item}
    {frames : List Frame} (hframes : r.frames = .paren start before :: frames) {rest : Text}
    (hrest : r.cursor.rest = ')' :: rest) :
    ∃ outer' text', (resume (r.cursor.advance 1) frames
      (.paren ⟨start, (r.cursor.advance 1).offset⟩ r.finished :: before)).Tracks content outer'
        text' := by
  obtain ⟨hpass, hoffset⟩ := Cursor.passes_head hrest
  have hopened := h.opened
  rw [hframes] at hopened
  obtain ⟨outer', text', houter, hstart, hopened', hbefore⟩ := hopened
  let body : Text := text ++ r.pending.reverse
  let written : Text := '(' :: (body ++ [')'])
  have hsize : size written = body.size + 2 := by
    rw [size_cons, size_append]
    show 1 + (size body + 1) = _
    omega
  have hbodyStart : content.offset + outer.size = start + 1 := by
    rw [houter, hstart]
    simp only [size_append]
    show content.offset + (outer'.size + (text'.size + 1)) = _
    omega
  have hafter : (r.cursor.advance 1).offset = start + size written := by
    rw [hoffset, h.offset, h.pendingStart, hbodyStart, hsize, size_append]
    show start + 1 + text.size + size r.pending.reverse + 1 = _
    omega
  have hitem : Item.Spells start written (.paren ⟨start, (r.cursor.advance 1).offset⟩ r.finished) := by
    refine ⟨body, rfl, by rw [hafter], ?_⟩
    rw [← hbodyStart]
    exact h.allItems
  refine ⟨outer', text' ++ written, tracks_resume ?_ ?_ hopened' ?_ rfl⟩
  · rw [h.whole, houter, hpass]
    simp [written, body]
  · rw [hafter, hstart, size_append]
    omega
  · rw [List.reverse_cons]
    exact hbefore.concat (hstart ▸ hitem) (.inl rfl)

/-- The value of a record's field has been read. -/
theorem Tracks.field (h : r.Tracks content outer text) {start : Nat} {before : List Item}
    {fields : List Field} {name : Fragment} {frames : List Frame}
    (hframes : r.frames = .record start before fields name :: frames) :
    ∃ outer' text' done written : Text,
      content.text = outer' ++ (text' ++ '\x7b' :: (done ++ (written ++ r.cursor.rest))) ∧
      start = content.offset + outer'.size + text'.size ∧
      r.cursor.offset = start + 1 + done.size + written.size ∧
      Opened content.offset outer' frames ∧
      Tiles (content.offset + outer'.size) text' before.reverse ∧
      Field.Listed false (start + 1) done fields.reverse ∧
      Field.Spells (start + 1 + done.size) written ⟨name, r.finished⟩ := by
  have hopened := h.opened
  rw [hframes] at hopened
  obtain ⟨outer', text', done, gap, sign, houter, hstart, hopened', hbefore, hdone, hgap, hsign,
    hname⟩ := hopened
  let body : Text := text ++ r.pending.reverse
  have hvalue : name.stop + sign.size = content.offset + outer.size := by
    rw [Fragment.stop, hname, houter, hstart]
    simp only [size_append, size_cons]
    show _ = content.offset + (outer'.size + (text'.size + (1 + _)))
    omega
  refine ⟨outer', text', done, gap ++ (name.text ++ (sign ++ body)), ?_, hstart, ?_, hopened', hbefore,
    hdone, gap, sign, body, rfl, hgap, hsign, hname, ?_⟩
  · rw [h.whole, houter]
    simp [body]
  · rw [h.offset, h.pendingStart, ← hvalue, Fragment.stop, hname]
    simp only [size_append, body]
    omega
  · rw [hvalue]
    exact h.allItems

/-- A record is closed and becomes an item. -/
theorem Tracks.closeRecord (h : r.Tracks content outer text) {start : Nat} {before : List Item}
    {fields : List Field} {name : Fragment} {frames : List Frame}
    (hframes : r.frames = .record start before fields name :: frames) {rest : Text}
    (hrest : r.cursor.rest = '\x7d' :: rest) :
    ∃ outer' text', (resume (r.cursor.advance 1) frames
      (.record ⟨start, (r.cursor.advance 1).offset⟩ (⟨name, r.finished⟩ :: fields).reverse ::
        before)).Tracks content outer' text' := by
  obtain ⟨hpass, hoffset⟩ := Cursor.passes_head hrest
  obtain ⟨outer', text', done, written, hwhole, hstart, hcursor, hopened, hbefore, hdone,
    hfield⟩ := h.field hframes
  let body : Text := done ++ (written ++ ['\x7d'])
  have hlisted : Field.Listed true (start + 1) body (⟨name, r.finished⟩ :: fields).reverse := by
    rw [List.reverse_cons]
    exact hdone.concat hfield true
  have hafter : (r.cursor.advance 1).offset = start + size ('\x7b' :: body) := by
    rw [hoffset, hcursor]
    show _ = start + (1 + size (done ++ (written ++ ['\x7d'])))
    rw [size_append, size_append]
    omega
  refine ⟨outer', text' ++ '\x7b' :: body, tracks_resume ?_ ?_ hopened ?_ rfl⟩
  · rw [hwhole, hpass]
    simp [body]
  · rw [hafter, hstart, size_append]
    omega
  · rw [List.reverse_cons]
    refine hbefore.concat ?_ (.inl rfl)
    rw [← hstart]
    exact ⟨body, rfl, by rw [hafter], by simp, hlisted⟩

/-- A comma ends the value of a field, and another field follows. -/
theorem ends_nextField (h : r.Tracks content outer text) (ht : content.In t) {start : Nat}
    {before : List Item} {fields : List Field} {name : Fragment} {frames : List Frame}
    (hframes : r.frames = .record start before fields name :: frames) {rest : Text}
    (hrest : r.cursor.rest = ',' :: rest) :
    Ends (fun e => t.IsPosition e.offset) (fun s => ∃ outer' text', s.Tracks content outer' text')
      (enterField start before (⟨name, r.finished⟩ :: fields) frames (r.cursor.advance 1)) := by
  obtain ⟨hpass, hoffset⟩ := Cursor.passes_head hrest
  obtain ⟨outer', text', done, written, hwhole, hstart, hcursor, hopened, hbefore, hdone,
    hfield⟩ := h.field hframes
  have hlisted : Field.Listed false (start + 1) (done ++ (written ++ [',']))
      (⟨name, r.finished⟩ :: fields).reverse := by
    rw [List.reverse_cons]
    exact hdone.concat hfield false
  refine ends_enterField ?_ hstart ?_ hopened hbefore hlisted ?_
  · rw [hwhole, hpass]
    simp
  · rw [hoffset, hcursor]
    simp only [size_append]
    omega
  · exact isPosition_opening ht hwhole hstart

theorem ends_step (h : r.Tracks content outer text) (ht : content.In t) {c : Char} {rest : Text}
    (hrest : r.cursor.rest = c :: rest) :
    Ends (fun e => t.IsPosition e.offset) (fun s => ∃ outer' text', s.Tracks content outer' text')
      (r.step c) := by
  -- the innermost frame says which characters end its sequence
  unfold Reading.step
  split
  · rename_i start before frames hframes
    split
    · rename_i hc
      subst hc
      exact h.closeParen hframes hrest
    · exact ends_stepOpen h ht hrest
  · rename_i start before fields name frames hframes
    dsimp only
    split
    · rename_i hc
      subst hc
      exact ends_nextField h ht hframes hrest
    · split
      · rename_i hc
        subst hc
        exact h.closeRecord hframes hrest
      · exact ends_stepOpen h ht hrest
  · exact ends_stepOpen h ht hrest

/-! ## 5. Whole contents -/

theorem ends_finish (h : r.Tracks content outer text) (ht : content.In t)
    (hrest : r.cursor.rest = []) :
    Ends (fun e => t.IsPosition e.offset) (Tiles content.offset content.text) r.finish := by
  have hopened := h.opened
  have houter := h.holds_outer ht
  unfold Reading.finish
  split
  · rename_i hframes
    rw [hframes] at hopened
    have hwhole := h.whole
    have hitems := h.allItems
    rw [hopened] at hwhole hitems
    rw [hwhole, hrest, List.append_nil]
    exact hitems
  · rename_i start before frames hframes
    rw [hframes] at hopened
    obtain ⟨outer', text', hsplit, hstart, -, -⟩ := hopened
    exact isPosition_opening houter hsplit hstart
  · rename_i start before fields name frames hframes
    rw [hframes] at hopened
    obtain ⟨outer', text', done, gap, sign, hsplit, hstart, -⟩ := hopened
    exact isPosition_opening houter hsplit hstart

theorem ends_run (h : r.Tracks content outer text) (ht : content.In t) :
    Ends (fun e => t.IsPosition e.offset) (Tiles content.offset content.text) r.run := by
  fun_induction Reading.run r generalizing outer text with
  | case1 r hrest => exact ends_finish h ht hrest
  | case2 r c rest hrest e herror =>
    have hstep := ends_step h ht hrest
    rw [herror] at hstep
    exact hstep
  | case3 r c rest hrest s hok _ ih =>
    have hstep := ends_step h ht hrest
    rw [hok] at hstep
    obtain ⟨outer', text', htracks⟩ := hstep
    exact ih htracks

end Reading

/-- The items of a content tile it. An error is at a position of the text that the content stands in. -/
theorem ends_parse {t : Text} {content : Fragment} (ht : content.In t) :
    Ends (fun e => t.IsPosition e.offset) (Tiles content.offset content.text) (parse content) :=
  Reading.ends_run (Reading.tracks_resume rfl rfl rfl rfl rfl) ht

end Expression

/-! ## 6. Where items stand -/

mutual

theorem Item.Spells.leaves {t : Text} {kind : Leaf} {f : Fragment} :
    ∀ {item : Item} {a : Nat} {s : Text}, item.Spells a s → t.Holds a s → f ∈ item.leaves kind →
      f.In t
  | .leaf k fragment, a, s, h, ht, hf => by
    rw [Item.leaves] at hf
    split at hf
    · rw [List.mem_singleton.mp hf, h.1]
      exact ht
    · exact absurd hf List.not_mem_nil
  | .paren span inner, a, s, h, ht, hf => by
    obtain ⟨body, hs, -, hinner⟩ := h
    rw [hs] at ht
    exact hinner.leaves ht.tail.left hf
  | .record span fields, a, s, h, ht, hf => by
    obtain ⟨body, hs, -, -, hfields⟩ := h
    rw [hs] at ht
    exact hfields.leaves ht.tail hf

theorem Expression.Tiles.leaves {t : Text} {kind : Leaf} {f : Fragment} :
    ∀ {items : List Item} {a : Nat} {s : Text}, Expression.Tiles a s items → t.Holds a s →
      f ∈ Expression.leaves kind items → f.In t
  | [], _, _, _, _, hf => absurd hf List.not_mem_nil
  | item :: items, a, s, h, ht, hf => by
    obtain ⟨first, rest, rfl, hfirst, -, hrest⟩ := h
    rcases List.mem_append.mp hf with hf | hf
    · exact hfirst.leaves ht.left hf
    · exact hrest.leaves ht.right hf

theorem Field.Spells.leaves {t : Text} {kind : Leaf} {f : Fragment} :
    ∀ {field : Field} {a : Nat} {s : Text}, field.Spells a s → t.Holds a s → f ∈ field.leaves kind →
      f.In t
  | ⟨name, value⟩, a, s, h, ht, hf => by
    obtain ⟨gap, sign, body, rfl, -, -, hname, hvalue⟩ := h
    have hbody := ht.right.right.right
    rw [← hname] at hbody
    exact hvalue.leaves hbody hf

theorem Field.Listed.leaves {t : Text} {kind : Leaf} {f : Fragment} {closed : Bool} :
    ∀ {fields : List Field} {a : Nat} {s : Text}, Field.Listed closed a s fields → t.Holds a s →
      f ∈ Field.leavesAll kind fields → f.In t
  | [], _, _, _, _, hf => absurd hf List.not_mem_nil
  | field :: fields, a, s, h, ht, hf => by
    obtain ⟨first, rest, rfl, hfirst, hrest⟩ := h
    rcases List.mem_append.mp hf with hf | hf
    · exact hfirst.leaves ht.left hf
    · have htail := ht.right.tail
      rw [utf8Size_fieldMark] at htail
      exact hrest.leaves htail hf

end

/-- The item is written somewhere in `t`. -/
def Item.Placed (t : Text) (item : Item) : Prop := ∃ a s, t.Holds a s ∧ item.Spells a s

namespace Item

theorem Spells.start {a : Nat} {s : Text} {item : Item} (h : item.Spells a s) : item.start = a := by
  cases item with
  | leaf kind fragment =>
    obtain ⟨rfl, -⟩ := h
    rfl
  | paren span inner =>
    obtain ⟨body, -, rfl, -⟩ := h
    rfl
  | record span fields =>
    obtain ⟨body, -, rfl, -⟩ := h
    rfl

theorem Spells.stop {a : Nat} {s : Text} {item : Item} (h : item.Spells a s) :
    item.stop = a + s.size := by
  cases item with
  | leaf kind fragment =>
    obtain ⟨rfl, -⟩ := h
    rfl
  | paren span inner =>
    obtain ⟨body, -, rfl, -⟩ := h
    rfl
  | record span fields =>
    obtain ⟨body, -, rfl, -⟩ := h
    rfl

variable {t : Text} {item : Item}

theorem Placed.start (h : item.Placed t) : t.IsPosition item.start := by
  obtain ⟨a, s, hheld, hspells⟩ := h
  rw [hspells.start]
  exact hheld.start

theorem Placed.stop (h : item.Placed t) : t.IsPosition item.stop := by
  obtain ⟨a, s, hheld, hspells⟩ := h
  rw [hspells.stop]
  exact hheld.stop

theorem Placed.var (h : item.Placed t) {token : Fragment} (htoken : item.var? = some token) :
    token.In t := by
  obtain ⟨a, s, hheld, hspells⟩ := h
  unfold var? at htoken
  split at htoken
  · cases htoken
    rw [hspells.1]
    exact hheld
  · cases htoken

end Item

/-- The items tile a part of `t`. -/
def Expression.Placed (t : Text) (items : Expression) : Prop := ∃ a s, t.Holds a s ∧ Tiles a s items

namespace Expression

variable {t : Text} {items : Expression}

theorem Tiles.mem {a : Nat} {s : Text} (h : Tiles a s items) (hheld : t.Holds a s) :
    ∀ item ∈ items, item.Placed t := by
  induction items generalizing a s with
  | nil => exact List.forall_mem_nil _
  | cons first items ih =>
    obtain ⟨one, rest, rfl, hfirst, -, hrest⟩ := h
    exact List.forall_mem_cons.mpr ⟨⟨a, one, hheld.left, hfirst⟩, ih hrest hheld.right⟩

theorem Placed.mem (h : Placed t items) : ∀ item ∈ items, item.Placed t := by
  obtain ⟨a, s, hheld, htiles⟩ := h
  exact htiles.mem hheld

theorem Placed.leaves (h : Placed t items) {kind : Leaf} :
    ∀ f ∈ Expression.leaves kind items, f.In t := by
  obtain ⟨a, s, hheld, htiles⟩ := h
  exact fun f hf => htiles.leaves hheld hf

/-- Behind the opening parenthesis the items inside follow. -/
theorem Placed.paren {span : Span} {inner : List Item} (h : Item.Placed t (.paren span inner)) :
    t.IsPosition (span.start + 1) ∧ Placed t inner := by
  obtain ⟨a, s, hheld, body, rfl, rfl, hinner⟩ := h
  exact ⟨hheld.tail.start, _, _, hheld.tail.left, hinner⟩

end Expression

end Errata
