import Errata.Proofs.Expression.Order

/-!
# Tokens and faults of a step's content

Each character that is read does one of a few things, which `Moves` lists. From the list follows what every
item without items in it is, a token that its form matches at its place or a text without a closing
parenthesis, and what stands where reading fails.
-/

namespace Errata

open Text

/-! ## 1. What one character does -/

namespace Expression

/-- The first `n` characters of a text are an item of the given kind. -/
def IsTokenOf (t : Text) (n : Nat) : Leaf → Prop
  | .text => ')' ∉ t.take n
  | .var => varToken t = some n
  | .enumValue => enumToken t = some n
  | .figure => Figure.startTag.startsIn t = true ∧ Figure.width? t = some n
  | .nonterminal => nonterminalToken t = some n
  | .inert => starToken t = some n ∨ codeToken t = some n ∨ tagToken t = some n

theorem isTokenOf_delimited? {c : Char} {kind : Leaf} {token : Scan} {t : Text} {n : Nat}
    (h : delimited? c = some (kind, token)) (hn : token t = some n) : IsTokenOf t n kind := by
  unfold delimited? at h
  split at h <;> cases h
  · exact hn
  · exact hn
  · exact .inl hn
  · exact hn
  · exact .inr (.inl hn)

namespace Reading

/-- What becomes of a reading at the character `c`. -/
inductive Moves (r : Reading) (c : Char) : Except StepError Reading → Prop
  | char (hc : c ≠ ')') : Moves r c (.ok (r.takeChar c))
  | leaf {kind : Leaf} {n : Nat} (hkind : kind ≠ .text) (hn : IsTokenOf r.cursor.rest n kind) :
      Moves r c (.ok (r.takeLeaf kind n))
  | openParen (hc : c = '(') :
      Moves r c (.ok (resume (r.cursor.advance 1) (.paren r.cursor.offset r.allItems :: r.frames) []))
  | closeParen {start : Nat} {before : List Item} {frames : List Frame} (hc : c = ')')
      (hframes : r.frames = .paren start before :: frames) :
      Moves r c (.ok (resume (r.cursor.advance 1) frames
        (.paren ⟨start, (r.cursor.advance 1).offset⟩ r.finished :: before)))
  | openRecord (hc : c = '\x7b') :
      Moves r c (enterField r.cursor.offset r.allItems [] r.frames (r.cursor.advance 1))
  | nextField {start : Nat} {before : List Item} {fields : List Field} {name : Fragment}
      {frames : List Frame} (hframes : r.frames = .record start before fields name :: frames) :
      Moves r c (enterField start before (⟨name, r.finished⟩ :: fields) frames (r.cursor.advance 1))
  | closeRecord {start : Nat} {before : List Item} {fields : List Field} {name : Fragment}
      {frames : List Frame} (hframes : r.frames = .record start before fields name :: frames) :
      Moves r c (.ok (resume (r.cursor.advance 1) frames
        (.record ⟨start, (r.cursor.advance 1).offset⟩ (⟨name, r.finished⟩ :: fields).reverse :: before)))
  | closeNothing (hc : c = ')') : Moves r c (.error (.unbalanced r.cursor.offset ')'))
  | openFigure (h : Figure.startTag.startsIn r.cursor.rest = true) :
      Moves r c (.error (.unclosedFigure r.cursor.offset))

theorem moves_stepOpen (r : Reading) (c : Char) : r.Moves c (r.stepOpen c) := by
  unfold Reading.stepOpen
  split
  · exact .openParen rfl
  · exact .closeNothing rfl
  · split
    · exact .openRecord rfl
    · exact .char (by decide)
  · -- figures and other tags
    split
    · rename_i hstart
      split
      · exact .openFigure hstart
      · rename_i n hwidth
        exact .leaf (by decide) ⟨hstart, hwidth⟩
    · split
      · rename_i n htag
        exact .leaf (by decide) (.inr (.inr htag))
      · exact .char (by decide)
  · rename_i hparen _ _
    split
    · exact .char hparen
    · rename_i kind token hkind
      split
      · exact .char hparen
      · rename_i n hapart
        exact .leaf (delimited?_ne_text hkind) (isTokenOf_delimited? hkind (apart?_eq_some hapart))

theorem moves_step (r : Reading) (c : Char) : r.Moves c (r.step c) := by
  unfold Reading.step
  split
  · rename_i start before frames hframes
    split
    · rename_i hc
      exact .closeParen hc hframes
    · exact r.moves_stepOpen c
  · rename_i start before fields name frames hframes
    dsimp only
    split
    · exact .nextField hframes
    · split
      · exact .closeRecord hframes
      · exact r.moves_stepOpen c
  · exact r.moves_stepOpen c

end Reading

end Expression

/-! ## 2. Tokens -/

theorem Expression.mem_leaves_iff {kind : Leaf} {f : Fragment} {items : List Item} :
    f ∈ Expression.leaves kind items ↔ ∃ item ∈ items, f ∈ item.leaves kind := by
  induction items with
  | nil => simp [Expression.leaves]
  | cons item items ih => simp [Expression.leaves, ih]

theorem Field.mem_leavesAll_iff {kind : Leaf} {f : Fragment} {fields : List Field} :
    f ∈ Field.leavesAll kind fields ↔
      ∃ field ∈ fields, f ∈ Expression.leaves kind field.value := by
  induction fields with
  | nil => simp [Field.leavesAll]
  | cons field fields ih =>
    obtain ⟨name, value⟩ := field
    simp [Field.leavesAll, Field.leaves, ih]

/-- The fragment stands in the content where it says, and is an item of the kind there. -/
def Fragment.IsRead (f content : Fragment) (kind : Leaf) : Prop :=
  ∃ (before rest : Text) (n : Nat), content.text = before ++ rest ∧
    f = ⟨rest.take n, content.offset + before.size⟩ ∧ Expression.IsTokenOf rest n kind

/-- All tokens and texts in the item, also those in parentheses and records, are read from the content. -/
def Item.IsRead (content : Fragment) (item : Item) : Prop :=
  ∀ kind, ∀ f ∈ item.leaves kind, f.IsRead content kind

section

variable {content : Fragment}

theorem Item.isRead_leaf_iff {kind : Leaf} {f : Fragment} :
    (Item.leaf kind f).IsRead content ↔ f.IsRead content kind := by
  constructor
  · intro h
    exact h kind f (by rw [Item.leaves, if_pos rfl]; exact List.mem_singleton_self f)
  · intro h k g hg
    rw [Item.leaves] at hg
    split at hg
    · rename_i hk
      rw [List.mem_singleton.mp hg, ← hk]
      exact h
    · exact absurd hg List.not_mem_nil

theorem Item.isRead_paren_iff {span : Span} {inner : List Item} :
    (Item.paren span inner).IsRead content ↔ ∀ item ∈ inner, item.IsRead content := by
  simp only [Item.IsRead, Item.leaves, Expression.mem_leaves_iff]
  grind

theorem Item.isRead_record {span : Span} {fields : List Field}
    (h : ∀ field ∈ fields, ∀ item ∈ field.value, item.IsRead content) :
    (Item.record span fields).IsRead content := by
  intro kind f hf
  obtain ⟨field, hfield, hf⟩ := Field.mem_leavesAll_iff.mp hf
  obtain ⟨item, hitem, hf⟩ := Expression.mem_leaves_iff.mp hf
  exact h field hfield item hitem kind f hf

end

/-! ## 3. Faults -/

/-- The error is at a place in the content where the sign stands that is not closed or closes nothing. -/
inductive StepError.PointsInto (content : Fragment) : StepError → Prop
  | opening {d : Nat} (h : content.text.Holds d ['(']) :
      PointsInto content (.unbalanced (content.offset + d) '(')
  | closing {d : Nat} (h : content.text.Holds d [')']) :
      PointsInto content (.unbalanced (content.offset + d) ')')
  | figure {d : Nat} (h : content.text.Holds d "<figure".toList) :
      PointsInto content (.unclosedFigure (content.offset + d))
  | record {d : Nat} (h : content.text.Holds d ['\x7b']) :
      PointsInto content (.unclosedRecord (content.offset + d))

theorem Fragment.lt_stop_of_holds {content : Fragment} {d : Nat} {sign : Text} (h : content.text.Holds d sign)
    (hsign : 0 < sign.size) : content.offset + d < content.stop := by
  have := h.le_size
  rw [Fragment.stop]
  omega

theorem StepError.PointsInto.inside {content : Fragment} {e : StepError} (h : e.PointsInto content) :
    content.offset ≤ e.offset ∧ e.offset < content.stop := by
  cases h with
  | opening h => exact ⟨Nat.le_add_right _ _, Fragment.lt_stop_of_holds h (by decide)⟩
  | closing h => exact ⟨Nat.le_add_right _ _, Fragment.lt_stop_of_holds h (by decide)⟩
  | figure h => exact ⟨Nat.le_add_right _ _, Fragment.lt_stop_of_holds h (by decide)⟩
  | record h => exact ⟨Nat.le_add_right _ _, Fragment.lt_stop_of_holds h (by decide)⟩

/-! ## 4. Steps of reading -/

namespace Expression

/-- All items that a frame keeps are read from the content. -/
def Frame.IsRead (content : Fragment) : Frame → Prop
  | .paren _ before => ∀ item ∈ before, item.IsRead content
  | .record _ before fields _ =>
    (∀ item ∈ before, item.IsRead content) ∧ ∀ field ∈ fields, ∀ item ∈ field.value, item.IsRead content

namespace Reading

/-- All that a reading has found so far is read from the content. -/
structure IsRead (content : Fragment) (r : Reading) : Prop where
  items : ∀ item ∈ r.items, item.IsRead content
  frames : ∀ frame ∈ r.frames, frame.IsRead content
  pending : ')' ∉ r.pending

/-- The reading stands somewhere in the content and has read what is before it. -/
def Follows (content : Fragment) (r : Reading) : Prop :=
  (∃ outer text, r.Tracks content outer text) ∧ r.IsRead content

variable {content : Fragment} {outer text : Text} {r : Reading}

theorem isRead_resume {c : Cursor} {frames : List Frame} {items : List Item}
    (hitems : ∀ item ∈ items, item.IsRead content) (hframes : ∀ frame ∈ frames, frame.IsRead content) :
    (resume c frames items).IsRead content :=
  ⟨hitems, hframes, List.not_mem_nil⟩

theorem Tracks.text_eq (h : r.Tracks content outer text) :
    content.text = (outer ++ text ++ r.pending.reverse) ++ r.cursor.rest ∧
      r.cursor.offset = content.offset + size (outer ++ text ++ r.pending.reverse) := by
  refine ⟨by rw [h.whole]; simp only [List.append_assoc], ?_⟩
  rw [h.offset, h.pendingStart, size_append, size_append]
  omega

/-- What is left begins with `sign`, which therefore stands in the content at the cursor. -/
theorem Tracks.exists_holds (h : r.Tracks content outer text) {sign rest : Text}
    (hrest : r.cursor.rest = sign ++ rest) :
    ∃ d, r.cursor.offset = content.offset + d ∧ content.text.Holds d sign := by
  obtain ⟨htext, hoffset⟩ := h.text_eq
  rw [hrest, ← List.append_assoc] at htext
  exact ⟨_, hoffset, _, rest, htext, rfl⟩

theorem IsRead.allItems (hread : r.IsRead content) (h : r.Tracks content outer text) :
    ∀ item ∈ r.allItems, item.IsRead content := by
  unfold Reading.allItems
  split
  · exact hread.items
  · refine List.forall_mem_cons.mpr ⟨Item.isRead_leaf_iff.mpr ?_, hread.items⟩
    refine ⟨outer ++ text, r.pending.reverse ++ r.cursor.rest, r.pending.reverse.length, ?_, ?_, ?_⟩
    · rw [h.whole, List.append_assoc]
    · rw [List.take_left, h.pendingStart, size_append, Nat.add_assoc]
    · show ')' ∉ (r.pending.reverse ++ r.cursor.rest).take r.pending.reverse.length
      rw [List.take_left, List.mem_reverse]
      exact hread.pending

theorem IsRead.finished (hread : r.IsRead content) (h : r.Tracks content outer text) :
    ∀ item ∈ r.finished, item.IsRead content := fun item hitem =>
  hread.allItems h item (List.mem_reverse.mp hitem)

theorem IsRead.takeChar (hread : r.IsRead content) {c : Char} (hc : c ≠ ')') :
    (r.takeChar c).IsRead content := by
  refine ⟨hread.items, hread.frames, ?_⟩
  show ')' ∉ c :: r.pending
  rw [List.mem_cons, not_or]
  exact ⟨Ne.symm hc, hread.pending⟩

theorem IsRead.takeLeaf (hread : r.IsRead content) (h : r.Tracks content outer text) {kind : Leaf} {n : Nat}
    (hn : IsTokenOf r.cursor.rest n kind) : (r.takeLeaf kind n).IsRead content := by
  obtain ⟨htext, hoffset⟩ := h.text_eq
  refine isRead_resume (List.forall_mem_cons.mpr ⟨Item.isRead_leaf_iff.mpr ?_, hread.allItems h⟩) hread.frames
  refine ⟨_, _, n, htext, ?_, hn⟩
  rw [Cursor.fragment, hoffset]

/-- The name of a record's next field is read, or the record is not closed. -/
theorem ends_isRead_enterField {start : Nat} {before : List Item} {fields : List Field}
    {frames : List Frame} {c : Cursor} (hbefore : ∀ item ∈ before, item.IsRead content)
    (hfields : ∀ field ∈ fields, ∀ item ∈ field.value, item.IsRead content)
    (hframes : ∀ frame ∈ frames, frame.IsRead content)
    (hstart : ∃ d, start = content.offset + d ∧ content.text.Holds d ['\x7b']) :
    Ends (StepError.PointsInto content) (IsRead content) (enterField start before fields frames c) := by
  unfold enterField
  split
  · obtain ⟨d, rfl, hholds⟩ := hstart
    exact .record hholds
  · exact isRead_resume (List.forall_mem_nil _) (List.forall_mem_cons.mpr ⟨⟨hbefore, hfields⟩, hframes⟩)

theorem holds_of_split {s first second rest : Text} {sign : Char} (h : s = first ++ (second ++ sign :: rest)) :
    s.Holds (first.size + second.size) [sign] :=
  ⟨first ++ second, rest, by rw [h]; simp, size_append _ _⟩

theorem ends_isRead_moves (h : r.Tracks content outer text) (hread : r.IsRead content) {c : Char}
    {rest : Text} (hrest : r.cursor.rest = c :: rest) {x : Except StepError Reading} (hx : r.Moves c x) :
    Ends (StepError.PointsInto content) (IsRead content) x := by
  cases hx with
  | char hc => exact hread.takeChar hc
  | leaf _ hn => exact hread.takeLeaf h hn
  | openParen =>
    exact isRead_resume (List.forall_mem_nil _) (List.forall_mem_cons.mpr ⟨hread.allItems h, hread.frames⟩)
  | closeParen _ hframes =>
    have hall := hread.frames
    rw [hframes] at hall
    obtain ⟨hbefore, hothers⟩ := List.forall_mem_cons.mp hall
    exact isRead_resume
      (List.forall_mem_cons.mpr ⟨Item.isRead_paren_iff.mpr (hread.finished h), hbefore⟩) hothers
  | openRecord hc =>
    subst hc
    exact ends_isRead_enterField (hread.allItems h) (List.forall_mem_nil _) hread.frames
      (h.exists_holds hrest)
  | nextField hframes =>
    obtain ⟨outer', text', done, written, htext, hstart, -⟩ := h.field hframes
    have hall := hread.frames
    rw [hframes] at hall
    obtain ⟨⟨hbefore, hfields⟩, hothers⟩ := List.forall_mem_cons.mp hall
    refine ends_isRead_enterField hbefore (List.forall_mem_cons.mpr ⟨hread.finished h, hfields⟩) hothers
      ⟨_, ?_, holds_of_split htext⟩
    rw [hstart, Nat.add_assoc]
  | closeRecord hframes =>
    have hall := hread.frames
    rw [hframes] at hall
    obtain ⟨⟨hbefore, hfields⟩, hothers⟩ := List.forall_mem_cons.mp hall
    refine isRead_resume (List.forall_mem_cons.mpr ⟨Item.isRead_record ?_, hbefore⟩) hothers
    intro field hfield
    rcases List.mem_cons.mp (List.mem_reverse.mp hfield) with rfl | hfield
    · exact hread.finished h
    · exact hfields field hfield
  | closeNothing hc =>
    subst hc
    have hsign : r.cursor.rest = [')'] ++ rest := hrest
    obtain ⟨d, hoffset, hholds⟩ := h.exists_holds hsign
    rw [hoffset]
    exact .closing hholds
  | openFigure hstart =>
    obtain ⟨n, hn⟩ := Option.isSome_iff_exists.mp hstart
    obtain ⟨a, -, ha, -⟩ := Scan.seq_cons_eq_some_iff.mp hn
    obtain ⟨more, hmore⟩ := (Scan.literal_eq_some_iff.mp ha).1
    obtain ⟨d, hoffset, hholds⟩ := h.exists_holds hmore.symm
    rw [hoffset]
    exact .figure hholds

/-! ## 5. Whole contents -/

theorem ends_follows_step (h : r.Follows content) {c : Char} {rest : Text} (hrest : r.cursor.rest = c :: rest) :
    Ends (StepError.PointsInto content) (Follows content) (r.step c) := by
  obtain ⟨⟨outer, text, htracks⟩, hread⟩ := h
  have hends := ends_isRead_moves htracks hread hrest (r.moves_step c)
  obtain ⟨t, hin⟩ := content.exists_in
  refine (hends.and fun s hs => ?_).imp (fun e he => he) fun s hs => ⟨hs.2, hs.1⟩
  exact (ends_step htracks hin hrest).of_ok hs

theorem ends_follows_finish (h : r.Follows content) :
    Ends (StepError.PointsInto content) (fun items => ∀ item ∈ items, item.IsRead content) r.finish := by
  obtain ⟨⟨outer, text, htracks⟩, hread⟩ := h
  have hopened := htracks.opened
  have hwhole := htracks.whole
  unfold Reading.finish
  split
  · exact hread.finished htracks
  · rename_i start before frames hframes
    rw [hframes] at hopened
    obtain ⟨outer', text', rfl, rfl, -⟩ := hopened
    rw [List.append_assoc, List.append_assoc] at hwhole
    rw [Nat.add_assoc]
    exact .opening (holds_of_split hwhole)
  · rename_i start before fields name frames hframes
    rw [hframes] at hopened
    obtain ⟨outer', text', done, gap, sign, rfl, rfl, -⟩ := hopened
    rw [List.append_assoc, List.append_assoc, List.cons_append] at hwhole
    rw [Nat.add_assoc]
    exact .record (holds_of_split hwhole)

theorem ends_follows_run (h : r.Follows content) :
    Ends (StepError.PointsInto content) (fun items => ∀ item ∈ items, item.IsRead content) r.run := by
  fun_induction Reading.run r with
  | case1 r _ => exact ends_follows_finish h
  | case2 r c rest hrest e herror => exact (ends_follows_step h hrest).of_error herror
  | case3 r c rest hrest s hok _ ih => exact ih ((ends_follows_step h hrest).of_ok hok)

end Reading

/-- The items of a content are read from it. If there is an error, it points at what is not closed or closes
nothing. -/
theorem ends_isRead_parse (content : Fragment) :
    Ends (StepError.PointsInto content) (fun items => ∀ item ∈ items, item.IsRead content)
      (parse content) :=
  Reading.ends_follows_run ⟨⟨[], [], Reading.tracks_resume rfl rfl rfl rfl rfl⟩,
    Reading.isRead_resume (List.forall_mem_nil _) (List.forall_mem_nil _)⟩

/-- A token or text that a content ends with is an item of its kind on its own. -/
theorem exists_isTokenOf_last {content : Fragment} {items : Expression} (h : parse content = .ok items)
    {kind : Leaf} {f : Fragment} (hlast : items.getLast? = some (.leaf kind f)) :
    ∃ (before : Text) (n : Nat), content.text = before ++ f.text ∧
      f.offset = content.offset + before.size ∧ IsTokenOf f.text n kind := by
  have hread := (ends_isRead_parse content).of_ok h (.leaf kind f) (List.mem_of_getLast? hlast)
  obtain ⟨before, rest, n, htext, rfl, htoken⟩ := Item.isRead_leaf_iff.mp hread
  -- it ends where the content ends, so nothing is left after it
  have hstop : content.offset + before.size + size (rest.take n) = content.offset + content.text.size :=
    (tiles_of_parse h).covers.last _ hlast
  have hsize : size (rest.take n) + size (rest.drop n) = rest.size := by
    rw [← size_append, List.take_append_drop]
  rw [htext, size_append] at hstop
  have hnone : rest.drop n = [] := size_eq_zero_iff.mp (by omega)
  have hall : rest.take n = rest := by
    have hsplit := List.take_append_drop n rest
    rwa [hnone, List.append_nil] at hsplit
  rw [hall]
  exact ⟨before, n, htext, rfl, htoken⟩

end Expression

end Errata
