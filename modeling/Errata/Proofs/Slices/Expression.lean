import Errata.Proofs.Expression.Tokens
import Errata.Proofs.Slices.Text

/-!
# Reading expressions by positions

The content of a step is read here with a position in it, and with the position where the text since the
last item begins. The text is sliced when the next item has been read. No slice fails, and the items are the
same.
-/

namespace Errata.Expression

open Text

/-! ## 1. Reading -/

/-- A reading that keeps positions in the content. -/
structure Marks where
  position : Nat
  /-- Where the text since the last item begins. -/
  text : Nat
  frames : List Frame
  items : List Item

/-- The number of bytes of the figure that a text begins with. -/
def figureBytes? (t : Text) : Option (Option Nat) :=
  match Figure.endPlace? 0 (Figure.tags t) with
  | none => some none
  | some place => do
    let start := size (t.take place)
    let ending ← t.from? start
    return (ending.findIdx? (· == '>')).map fun n => start + size (ending.take n) + 1

/-- The number of characters that a scan matches, if no word stands directly before or after. -/
def apartAt? (c : Cursor) (s : Scan) : Option (Option Nat) :=
  if c.previous.any Text.isTokenChar then some none
  else
    match s c.rest with
    | none => some none
    | some n => do
      let after ← c.rest.from? (size (c.rest.take n))
      return if after.head?.any Text.isTokenChar then none else some n

namespace Marks

/-- Goes on at a position with the given openings and items. -/
def resume (position : Nat) (frames : List Frame) (items : List Item) : Marks :=
  ⟨position, position, frames, items⟩

def takeChar (m : Marks) (c : Char) : Marks := { m with position := m.position + c.utf8Size }

section

variable (content : Fragment)

def cursor? (position : Nat) : Option Cursor :=
  (Cursor.atStart content.text content.offset).move? position

/-- The items read so far with the text up to the position, the last first. -/
def allItems? (m : Marks) : Option (List Item) :=
  if m.text < m.position then do
    let text ← content.text.slice? m.text m.position
    return .leaf .text ⟨text, content.offset + m.text⟩ :: m.items
  else some m.items

/-- Takes the next bytes as an item. -/
def takeItem? (m : Marks) (item : Item) (bytes : Nat) : Option Marks := do
  return resume (m.position + bytes) m.frames (item :: (← m.allItems? content))

/-- Reads the name of a record's next field. -/
def enterField? (start : Nat) (before : List Item) (fields : List Field) (frames : List Frame)
    (position : Nat) : Faulting StepError Marks := do
  let c ← cursor? content position
  match fieldNameAt? c with
  | none => throw (.unclosedRecord start)
  | some (name, value) => return resume (position + c.upTo value) (.record start before fields name :: frames) []

/-- Reads what begins with a character that closes nothing, at the given cursor. -/
def stepOpen? (m : Marks) (cursor : Cursor) (c : Char) : Faulting StepError Marks :=
  match c with
  | '(' => do
    let items ← m.allItems? content
    return resume (m.position + 1) (.paren (content.offset + m.position) items :: m.frames) []
  | ')' => throw (.unbalanced (content.offset + m.position) ')')
  | '\x7b' =>
    if recordOpening.startsIn cursor.rest then do
      let items ← m.allItems? content
      enterField? content (content.offset + m.position) items [] m.frames (m.position + 1)
    else return m.takeChar c
  | '<' =>
    if Figure.startTag.startsIn cursor.rest then do
      match ← (figureBytes? cursor.rest : Option (Option Nat)) with
      | none => throw (.unclosedFigure (content.offset + m.position))
      | some bytes =>
        let text ← cursor.rest.upTo? bytes
        m.takeItem? content (.leaf .figure ⟨text, content.offset + m.position⟩) bytes
    else match tagToken cursor.rest with
      | some n => m.takeItem? content (.leaf .inert (cursor.fragment n)) (cursor.upTo (cursor.advance n))
      | none => return m.takeChar c
  | _ =>
    match delimited? c with
    | none => return m.takeChar c
    | some (kind, token) => do
      match ← (apartAt? cursor token : Option (Option Nat)) with
      | none => return m.takeChar c
      | some n => m.takeItem? content (.leaf kind (cursor.fragment n)) (cursor.upTo (cursor.advance n))

/-- Reads on from the next character `c`, at the given cursor. -/
def step? (m : Marks) (cursor : Cursor) (c : Char) : Faulting StepError Marks :=
  match m.frames with
  | .paren start before :: frames =>
    if c = ')' then do
      let items ← m.allItems? content
      let span : Span := ⟨start, content.offset + (m.position + 1)⟩
      return resume (m.position + 1) frames (.paren span items.reverse :: before)
    else m.stepOpen? content cursor c
  | .record start before fields name :: frames =>
    if c = ',' then do
      let field : Field := ⟨name, (← m.allItems? content).reverse⟩
      enterField? content start before (field :: fields) frames (m.position + 1)
    else if c = '\x7d' then do
      let field : Field := ⟨name, (← m.allItems? content).reverse⟩
      let span : Span := ⟨start, content.offset + (m.position + 1)⟩
      return resume (m.position + 1) frames (.record span (field :: fields).reverse :: before)
    else m.stepOpen? content cursor c
  | [] => m.stepOpen? content cursor c

def finish? (m : Marks) : Faulting StepError Expression :=
  match m.frames with
  | [] => do return (← m.allItems? content).reverse
  | .paren start _ :: _ => throw (.unbalanced start '(')
  | .record start .. :: _ => throw (.unclosedRecord start)

/-- Reads to the end of the content. -/
def run? (m : Marks) : Faulting StepError Expression := do
  let cursor ← cursor? content m.position
  match cursor.rest with
  | [] => m.finish? content
  | c :: _ => do
    let again : Marks → Faulting StepError Expression := by apply run?
    again (← m.step? content cursor c)
partial_fixpoint

end

end Marks

/-- The items of a step's content. -/
def parseAt? (content : Fragment) : Faulting StepError Expression := (Marks.resume 0 [] []).run? content

/-! ## 2. Tokens -/

theorem apartAt?_eq (c : Cursor) (s : Scan) : apartAt? c s = some (apart? c s) := by
  unfold apartAt? apart?
  split
  · rfl
  · cases s c.rest with
    | none => rfl
    | some n =>
      dsimp only
      rw [from?_size_take]
      rfl

theorem figureBytes?_eq (t : Text) :
    figureBytes? t = some ((Figure.width? t).map fun n => size (t.take n)) := by
  unfold figureBytes? Figure.width?
  cases Figure.endPlace? 0 (Figure.tags t) with
  | none => rfl
  | some place =>
    dsimp only
    rw [from?_size_take]
    simp only [Option.bind_eq_bind, Option.bind_some]
    cases hclose : (t.drop place).findIdx? (· == '>') with
    | none => rfl
    | some n =>
      obtain ⟨hlt, hchar, -⟩ := List.findIdx?_eq_some_iff_getElem.mp hclose
      have hget : (t.drop place)[n]? = some '>' := by
        rw [List.getElem?_eq_getElem hlt]
        exact congrArg some (beq_iff_eq.mp hchar)
      have hsize : size (t.take (place + n + 1)) = size (t.take place) + size ((t.drop place).take n) + 1 := by
        rw [Nat.add_assoc, List.take_add, size_append, List.take_add_one, hget, size_append, ← Nat.add_assoc]
        rfl
      show some (some _) = some (some (size (t.take (place + n + 1))))
      rw [hsize]

/-! ## 3. Positions of a reading -/

namespace Reading

variable {content : Fragment} {r : Reading}

/-- The position of the cursor and that of the pending text. -/
def marks (content : Fragment) (r : Reading) : Marks where
  position := (Cursor.atStart content.text content.offset).upTo r.cursor
  text := r.pendingStart - content.offset
  frames := r.frames
  items := r.items

/-- The cursor stands in the content directly after the pending text. -/
def Fits (content : Fragment) (r : Reading) : Prop :=
  ∃ before, (Cursor.atStart content.text content.offset).Passing (before ++ r.pending.reverse) r.cursor ∧
    r.pendingStart = content.offset + before.size

theorem Fits.reaches (h : r.Fits content) : (Cursor.atStart content.text content.offset).Reaches r.cursor := by
  obtain ⟨before, hpassing, -⟩ := h
  exact ⟨_, hpassing⟩

theorem fits_resume {c : Cursor} (h : (Cursor.atStart content.text content.offset).Reaches c)
    (frames : List Frame) (items : List Item) : (resume c frames items).Fits content := by
  obtain ⟨passed, h⟩ := h
  refine ⟨passed, ?_, h.passes.2⟩
  rw [resume, List.reverse_nil, List.append_nil]
  exact h

theorem Fits.takeChar (h : r.Fits content) {c : Char} {rest : Text} (hrest : r.cursor.rest = c :: rest) :
    (r.takeChar c).Fits content := by
  obtain ⟨before, hpassing, hstart⟩ := h
  have hone : r.cursor.Passing [c] (r.cursor.advance 1) := by
    have h := r.cursor.passing_advance 1
    rwa [hrest] at h
  refine ⟨before, ?_, hstart⟩
  rw [Reading.takeChar, List.reverse_cons, ← List.append_assoc]
  exact hpassing.trans hone

theorem Fits.offset (h : r.Fits content) : content.offset + (r.marks content).position = r.cursor.offset :=
  h.reaches.offset_eq.symm

theorem Fits.cursor? (h : r.Fits content) : Marks.cursor? content (r.marks content).position = some r.cursor :=
  h.reaches.move?

theorem Fits.allItems? (h : r.Fits content) : (r.marks content).allItems? content = some r.allItems := by
  have hoffset := h.offset
  obtain ⟨before, ⟨⟨hrest, hstop⟩, -⟩, hstart⟩ := h
  have htext : (r.marks content).text = before.size := by
    rw [marks, hstart, Nat.add_sub_cancel_left]
  have hposition : (r.marks content).position = before.size + size r.pending.reverse := by
    have hstop : r.cursor.offset = content.offset + _ := hstop
    rw [size_append] at hstop
    omega
  unfold Marks.allItems? Reading.allItems
  rw [htext, hposition]
  -- without pending text nothing is sliced
  by_cases hempty : r.pending.isEmpty
  · have hnil := List.isEmpty_iff.mp hempty
    rw [if_pos hempty, if_neg (by simp [hnil])]
    rfl
  · have hpos : 0 < size r.pending.reverse := by
      refine Nat.pos_of_ne_zero fun hzero => hempty ?_
      rw [size_eq_zero_iff, List.reverse_eq_nil_iff] at hzero
      rw [hzero]
      rfl
    have hholds : content.text.Holds before.size r.pending.reverse := ⟨before, r.cursor.rest, hrest, rfl⟩
    rw [if_neg hempty, if_pos (by omega), slice?_of_holds hholds, hstart]
    rfl

theorem Fits.takeItem? (h : r.Fits content) {d : Cursor} (hd : r.cursor.Reaches d) (item : Item) :
    (r.marks content).takeItem? content item (r.cursor.upTo d) =
      some ((resume d r.frames (item :: r.allItems)).marks content) := by
  have hposition : (r.marks content).position + r.cursor.upTo d =
      (Cursor.atStart content.text content.offset).upTo d := Cursor.upTo_add h.reaches hd
  rw [Marks.takeItem?, h.allItems?, hposition]
  rfl

theorem reaches_fieldNameAt? {c d : Cursor} {name : Fragment} (h : fieldNameAt? c = some (name, d)) :
    c.Reaches d := by
  simp only [fieldNameAt?, Option.bind_eq_bind, Option.bind_eq_some_iff] at h
  obtain ⟨⟨field, afterName⟩, hname, ⟨sign, value⟩, hsign, h⟩ := h
  cases h
  exact (c.reaches_skipBlanks.trans (Cursor.reaches_scan? hname)).trans (Cursor.reaches_scan? hsign)

theorem returns_enterField? {c : Cursor} (h : (Cursor.atStart content.text content.offset).Reaches c) (start : Nat)
    (before : List Item) (fields : List Field) (frames : List Frame) :
    Returns (Marks.enterField? content start before fields frames
        ((Cursor.atStart content.text content.offset).upTo c))
      ((enterField start before fields frames c).map (marks content)) := by
  unfold Marks.enterField? enterField
  refine returns_lift h.move? ?_
  cases hname : fieldNameAt? c with
  | none => exact returns_throw _
  | some found =>
    obtain ⟨name, value⟩ := found
    dsimp only
    rw [Cursor.upTo_add h (reaches_fieldNameAt? hname)]
    exact returns_pure _

/-- The position after the next character. -/
theorem Fits.position_advance (h : r.Fits content) {c : Char} {rest : Text} (hrest : r.cursor.rest = c :: rest) :
    (Cursor.atStart content.text content.offset).upTo (r.cursor.advance 1) =
      (r.marks content).position + c.utf8Size := by
  rw [← Cursor.upTo_add h.reaches (r.cursor.reaches_advance 1), Cursor.upTo_advance_one hrest]
  rfl

theorem Fits.marks_takeChar (h : r.Fits content) {c : Char} {rest : Text} (hrest : r.cursor.rest = c :: rest) :
    (r.takeChar c).marks content = (r.marks content).takeChar c := by
  show Marks.mk _ _ _ _ = Marks.mk _ _ _ _
  rw [show (r.takeChar c).cursor = r.cursor.advance 1 from rfl, h.position_advance hrest]
  rfl

theorem marks_resume (c : Cursor) (frames : List Frame) (items : List Item) :
    (resume c frames items).marks content =
      Marks.resume ((Cursor.atStart content.text content.offset).upTo c) frames items := rfl

theorem returns_takeItem? (h : r.Fits content) {d : Cursor} (hd : r.cursor.Reaches d) (item : Item) :
    Returns (liftM ((r.marks content).takeItem? content item (r.cursor.upTo d)) : Faulting StepError Marks)
      (.ok ((resume d r.frames (item :: r.allItems)).marks content)) := by
  rw [h.takeItem? hd]
  rfl

/-- What becomes of a character that opens and closes nothing. -/
theorem stepOpen_delimited {c : Char} (hparen : c ≠ '(') (hclose : c ≠ ')') (hbrace : c ≠ '\x7b') (hangle : c ≠ '<') :
    r.stepOpen c = match delimited? c with
      | none => .ok (r.takeChar c)
      | some (kind, token) =>
        match apart? r.cursor token with
        | none => .ok (r.takeChar c)
        | some n => .ok (r.takeLeaf kind n) := by
  unfold stepOpen
  split
  · exact (hparen rfl).elim
  · exact (hclose rfl).elim
  · exact (hbrace rfl).elim
  · exact (hangle rfl).elim
  · rfl

theorem returns_stepOpen? (h : r.Fits content) {c : Char} {rest : Text} (hrest : r.cursor.rest = c :: rest) :
    Returns ((r.marks content).stepOpen? content r.cursor c) ((r.stepOpen c).map (marks content)) := by
  -- most characters open nothing, and one that does may still turn out to be text
  have hchar : Returns (pure ((r.marks content).takeChar c) : Faulting StepError Marks)
      (Except.map (marks content) (.ok (r.takeChar c))) := by
    rw [← h.marks_takeChar hrest]
    exact returns_pure _
  have hnext := h.position_advance hrest
  have hadvance := h.reaches.trans (r.cursor.reaches_advance 1)
  unfold Marks.stepOpen?
  rw [h.offset, h.allItems?]
  split
  · refine returns_lift rfl ?_
    show Returns _ (.ok ((resume _ _ _).marks content))
    rw [marks_resume, hnext]
    exact returns_pure _
  · exact returns_throw _
  · show Returns _ (Except.map _ (if recordOpening.startsIn r.cursor.rest then _ else _))
    split
    · refine returns_lift rfl ?_
      have hfield := returns_enterField? hadvance r.cursor.offset r.allItems [] r.frames
      rw [hnext] at hfield
      exact hfield
    · exact hchar
  · show Returns _ (Except.map _ (if Figure.startTag.startsIn r.cursor.rest then _ else _))
    split
    · -- a figure is sliced to its end
      refine returns_lift (figureBytes?_eq r.cursor.rest) ?_
      cases hwidth : Figure.width? r.cursor.rest with
      | none => exact returns_throw _
      | some n =>
        refine returns_lift (upTo?_size_take r.cursor.rest n) ?_
        have hitem := returns_takeItem? h (r.cursor.reaches_advance n) (.leaf .figure (r.cursor.fragment n))
        rw [r.cursor.upTo_advance] at hitem
        exact hitem
    · cases tagToken r.cursor.rest with
      | none => exact hchar
      | some n => exact returns_takeItem? h (r.cursor.reaches_advance n) _
  · rename_i hparen hclose hbrace hangle
    rw [stepOpen_delimited hparen hclose hbrace hangle]
    cases delimited? c with
    | none => exact hchar
    | some found =>
      refine returns_lift (apartAt?_eq r.cursor found.2) ?_
      dsimp only
      cases apart? r.cursor found.2 with
      | none => exact hchar
      | some n => exact returns_takeItem? h (r.cursor.reaches_advance n) _

theorem returns_step? (h : r.Fits content) {c : Char} {rest : Text} (hrest : r.cursor.rest = c :: rest) :
    Returns ((r.marks content).step? content r.cursor c) ((r.step c).map (marks content)) := by
  have hopen := returns_stepOpen? h hrest
  have hnext := h.position_advance hrest
  have hadvance := h.reaches.trans (r.cursor.reaches_advance 1)
  -- the signs that close a frame have one byte
  have hoffset : ∀ {sign : Char}, c = sign → sign.utf8Size = 1 →
      (r.cursor.advance 1).offset = content.offset + ((r.marks content).position + 1) := by
    intro sign hsign hsize
    rw [hsign, hsize] at hnext
    rw [← hnext]
    exact hadvance.offset_eq
  unfold Marks.step? step
  rw [show (r.marks content).frames = r.frames from rfl, h.allItems?]
  cases r.frames with
  | nil => exact hopen
  | cons frame frames =>
    cases frame with
    | paren start before =>
      dsimp only
      split
      · rename_i hc
        refine returns_lift rfl ?_
        show Returns _ (.ok ((resume _ _ _).marks content))
        rw [marks_resume, hnext, hoffset hc rfl, hc]
        exact returns_pure _
      · exact hopen
    | record start before fields name =>
      dsimp only
      split
      · rename_i hc
        refine returns_lift rfl ?_
        have hfield := returns_enterField? hadvance start before (⟨name, r.finished⟩ :: fields) frames
        rw [hnext, hc] at hfield
        exact hfield
      split
      · rename_i hc
        refine returns_lift rfl ?_
        show Returns _ (.ok ((resume _ _ _).marks content))
        rw [marks_resume, hnext, hoffset hc rfl, hc]
        exact returns_pure _
      · exact hopen

theorem returns_finish? (h : r.Fits content) : Returns ((r.marks content).finish? content) r.finish := by
  unfold Marks.finish? finish
  rw [show (r.marks content).frames = r.frames from rfl, h.allItems?]
  cases r.frames with
  | nil => exact returns_pure _
  | cons frame frames =>
    cases frame with
    | paren start before => exact returns_throw _
    | record start before fields name => exact returns_throw _

/-- What a step leaves is again in the content. -/
theorem Fits.step (h : r.Fits content) {c : Char} {rest : Text} (hrest : r.cursor.rest = c :: rest) {s : Reading}
    (hstep : r.step c = .ok s) : s.Fits content := by
  have hadvance : ∀ n, _ := fun n => h.reaches.trans (r.cursor.reaches_advance n)
  have hfield : ∀ {start before fields frames}, enterField start before fields frames (r.cursor.advance 1) = .ok s →
      s.Fits content := by
    intro start before fields frames hs
    unfold enterField at hs
    split at hs
    · cases hs
    · rename_i hname
      cases hs
      exact fits_resume ((hadvance 1).trans (reaches_fieldNameAt? hname)) _ _
  have hmoves := r.moves_step c
  rw [hstep] at hmoves
  generalize hresult : Except.ok s = result at hmoves
  cases hmoves with
  | char hc =>
    cases hresult
    exact h.takeChar hrest
  | leaf hkind hn =>
    cases hresult
    exact fits_resume (hadvance _) _ _
  | openParen hc =>
    cases hresult
    exact fits_resume (hadvance 1) _ _
  | closeParen hc hframes =>
    cases hresult
    exact fits_resume (hadvance 1) _ _
  | openRecord hc => exact hfield hresult.symm
  | nextField hframes => exact hfield hresult.symm
  | closeRecord hframes =>
    cases hresult
    exact fits_resume (hadvance 1) _ _
  | closeNothing hc => cases hresult
  | openFigure hopens => cases hresult

theorem returns_run? (h : r.Fits content) : Returns ((r.marks content).run? content) r.run := by
  fun_induction Reading.run r with
  | case1 r hrest =>
    rw [Marks.run?]
    refine returns_lift h.cursor? ?_
    rw [hrest]
    exact returns_finish? h
  | case2 r c rest hrest e hstep =>
    have hreturns := returns_step? h hrest
    rw [Marks.run?]
    refine returns_lift h.cursor? ?_
    rw [hrest]
    rw [hstep] at hreturns
    refine Returns.bind_of_map (g := run) hreturns fun s' hs => ?_
    cases hs
  | case3 r c rest hrest s hstep hlt ih =>
    have hreturns := returns_step? h hrest
    rw [Marks.run?]
    refine returns_lift h.cursor? ?_
    rw [hrest]
    rw [hstep] at hreturns
    refine Returns.bind_of_map (g := run) hreturns fun s' hs => ?_
    cases hs
    exact ih (h.step hrest hstep)

end Reading

/-- Parsing by positions never fails to give a result. -/
theorem returns_parseAt? (content : Fragment) : Returns (parseAt? content) (parse content) := by
  have hfits := Reading.fits_resume (Cursor.Reaches.refl (.atStart content.text content.offset)) [] []
  have hmarks : (Reading.start content).marks content = .resume 0 [] [] := by
    rw [Reading.start, Reading.marks_resume, Cursor.upTo_self]
  have hrun := Reading.returns_run? hfits
  rw [Reading.start] at hmarks
  rw [hmarks] at hrun
  exact hrun

end Errata.Expression
