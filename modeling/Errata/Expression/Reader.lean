import Errata.Expression.Basic
import Errata.Expression.Figure
import Errata.Step.Basic

/-!
An expression is read from left to right. What has been opened and not closed is kept on a stack; what is
neither a token nor a bracket is text.
-/

namespace Errata.Expression

/-- Something opened and not yet closed, with the items that stand before it, the last first. -/
inductive Frame where
  | paren (start : Nat) (before : List Item)
  /-- A record whose field `name` is being read; the fields before it stand last first. -/
  | record (start : Nat) (before : List Item) (fields : List Field) (name : Fragment)

structure Reading where
  cursor : Cursor
  frames : List Frame
  /-- The items since the innermost opening, the last first. -/
  items : List Item
  /-- The characters since the last item, the last first. -/
  pending : Text
  /-- Where these characters begin. -/
  pendingStart : Nat

/-! ## Tokens -/

def varToken : Scan := .seq [.char '_', .some1 Text.isAsciiAlphanum, .char '_']

def enumToken : Scan :=
  .seq [.char '~', .some1 fun c => !(c == '~' || Text.isBlank c || c == '<' || c == '>'), .char '~']

/-- A value between stars, which holds no newline and has no blank at either end. -/
def starToken : Scan
  | '*' :: t =>
    let value := t.takeWhile (· ≠ '*')
    if value.length < t.length && !value.contains '\n' && !value.head?.all Text.isBlank &&
      !value.getLast?.all Text.isBlank
    then some (value.length + 2) else none
  | _ => none

def nonterminalToken : Scan :=
  .seq [.char '|', .word Text.isAsciiAlphanum,
    .optional (.seq [.char '[', .many fun c => !(c == ']' || c == '|'), .char ']']),
    .optional (.literal "_opt"), .char '|']

def codeToken : Scan :=
  .seq [.char '\x60', .many fun c => !(c == '\x60' || c == '\n'), .char '\x60']

def tagToken : Scan :=
  .seq [.char '<', .optional (.char '/'), .word fun c => Text.isAsciiAlphanum c || c == '-',
    .first [
      .seq [.one Text.isBlank, .many fun c => !(c == '<' || c == '>'), .char '>'],
      .seq [.optional (.char '/'), .char '>']]]

/-- The beginning of a record, which tells it from a brace in the text. -/
def recordOpening : Scan := .seq [.char '\x7b', .blanks, .literal "[["]

def fieldNameToken : Scan :=
  .seq [.literal "[[", .word Text.isAsciiAlphanum, .literal "]]"]

/-- The kind of token that a character can begin, and its form. Such a token stands apart from words. -/
def delimited? : Char → Option (Leaf × Scan)
  | '_' => some (.var, varToken)
  | '~' => some (.enumValue, enumToken)
  | '*' => some (.inert, starToken)
  | '|' => some (.nonterminal, nonterminalToken)
  | '\x60' => some (.inert, codeToken)
  | _ => none

/-- The number of characters that a scan matches, if no word stands directly before or after. -/
def apart? (c : Cursor) (s : Scan) : Option Nat := do
  if c.previous.any Text.isTokenChar then none
  else
    let n ← s c.rest
    if (c.rest.drop n).head?.any Text.isTokenChar then none else some n

/-- The name of a field with the colon and the blanks around it. -/
def fieldNameAt? (c : Cursor) : Option (Fragment × Cursor) := do
  let (name, afterName) ← c.skipBlanks.scan? fieldNameToken
  let (_, value) ← afterName.scan? (.seq [.blanks, .char ':', .blanks])
  return (name, value)

/-! ## One step of reading -/

namespace Reading

/-- The items read so far with the pending text, the last first. -/
def allItems (r : Reading) : List Item :=
  if r.pending.isEmpty then r.items
  else .leaf .text ⟨r.pending.reverse, r.pendingStart⟩ :: r.items

/-- The sequence since the innermost opening. -/
def finished (r : Reading) : Expression := r.allItems.reverse

/-- Goes on at `cursor` with the given openings and items. -/
def resume (cursor : Cursor) (frames : List Frame) (items : List Item) : Reading where
  cursor := cursor
  frames := frames
  items := items
  pending := []
  pendingStart := cursor.offset

/-- Takes the next character as text. -/
def takeChar (r : Reading) (c : Char) : Reading :=
  { r with cursor := r.cursor.advance 1, pending := c :: r.pending }

/-- Takes the next `n` characters as a token. -/
def takeLeaf (r : Reading) (kind : Leaf) (n : Nat) : Reading :=
  resume (r.cursor.advance n) r.frames (.leaf kind (r.cursor.fragment n) :: r.allItems)

/-- Reads the name of a record's next field. -/
def enterField (start : Nat) (before : List Item) (fields : List Field) (frames : List Frame)
    (c : Cursor) : Except StepError Reading :=
  match fieldNameAt? c with
  | none => .error (.unclosedRecord start)
  | some (name, value) => .ok (resume value (.record start before fields name :: frames) [])

/-- Reads what begins with a character that closes nothing. -/
def stepOpen (r : Reading) (c : Char) : Except StepError Reading :=
  match c with
  | '(' => .ok (resume (r.cursor.advance 1) (.paren r.cursor.offset r.allItems :: r.frames) [])
  | ')' => .error (.unbalanced r.cursor.offset ')')
  | '\x7b' =>
    -- a brace without a field name after it is text
    if recordOpening.startsIn r.cursor.rest then
      enterField r.cursor.offset r.allItems [] r.frames (r.cursor.advance 1)
    else .ok (r.takeChar c)
  | '<' =>
    -- a figure is one item with all that stands in it
    if Figure.startTag.startsIn r.cursor.rest then
      match Figure.width? r.cursor.rest with
      | none => .error (.unclosedFigure r.cursor.offset)
      | some n => .ok (r.takeLeaf .figure n)
    else match tagToken r.cursor.rest with
      | some n => .ok (r.takeLeaf .inert n)
      | none => .ok (r.takeChar c)
  | _ =>
    match delimited? c with
    | none => .ok (r.takeChar c)
    | some (kind, token) =>
      match apart? r.cursor token with
      | none => .ok (r.takeChar c)
      | some n => .ok (r.takeLeaf kind n)

/-- Reads on from the next character `c`. -/
def step (r : Reading) (c : Char) : Except StepError Reading :=
  match r.frames with
  | .paren start before :: frames =>
    if c = ')' then
      let after := r.cursor.advance 1
      .ok (resume after frames (.paren ⟨start, after.offset⟩ r.finished :: before))
    else r.stepOpen c
  | .record start before fields name :: frames =>
    let field : Field := ⟨name, r.finished⟩
    if c = ',' then enterField start before (field :: fields) frames (r.cursor.advance 1)
    else if c = '\x7d' then
      let after := r.cursor.advance 1
      let span : Span := ⟨start, after.offset⟩
      .ok (resume after frames (.record span (field :: fields).reverse :: before))
    else r.stepOpen c
  | [] => r.stepOpen c

/-- The sequence at the end of the text, where nothing may be open. -/
def finish (r : Reading) : Except StepError Expression :=
  match r.frames with
  | [] => .ok r.finished
  | .paren start _ :: _ => .error (.unbalanced start '(')
  | .record start .. :: _ => .error (.unclosedRecord start)

end Reading

/-! ## Every step makes progress -/

theorem starToken_pos {t : Text} {n : Nat} (h : starToken t = some n) : 0 < n := by
  unfold starToken at h
  split at h
  · simp only at h
    split at h
    · simp only [Option.some.injEq] at h
      omega
    · simp at h
  · simp at h

theorem delimited?_pos {c : Char} {kind : Leaf} {token : Scan} {t : Text} {n : Nat}
    (h : delimited? c = some (kind, token)) (hn : token t = some n) : 0 < n := by
  unfold delimited? at h
  split at h <;> simp only [Option.some.injEq, Prod.mk.injEq, reduceCtorEq] at h
  all_goals rw [← h.2] at hn
  · exact Scan.seq_char_pos hn
  · exact Scan.seq_char_pos hn
  · exact starToken_pos hn
  · exact Scan.seq_char_pos hn
  · exact Scan.seq_char_pos hn

theorem apart?_eq_some {c : Cursor} {s : Scan} {n : Nat} (h : apart? c s = some n) :
    s c.rest = some n := by
  unfold apart? at h
  split at h
  · simp at h
  · simp only [Option.bind_eq_bind, Option.bind_eq_some_iff] at h
    obtain ⟨m, hm, h⟩ := h
    split at h
    · simp at h
    · simp only [Option.some.injEq] at h
      rw [← h, hm]

theorem fieldNameAt?_length_le {c d : Cursor} {name : Fragment}
    (h : fieldNameAt? c = some (name, d)) : d.rest.length ≤ c.rest.length := by
  simp only [fieldNameAt?, Option.bind_eq_bind, Option.bind_eq_some_iff] at h
  obtain ⟨⟨field, afterName⟩, hname, ⟨sign, value⟩, hsign, h⟩ := h
  have hle₀ := c.skip_length_le Text.isBlank
  have hle₁ := Cursor.scan?_length_le hname
  have hle₂ := Cursor.scan?_length_le hsign
  simp only [Option.pure_def, Option.some.injEq, Prod.mk.injEq, Cursor.skipBlanks] at h hle₁ hle₂
  rw [← h.2]
  omega

theorem enterField_length_le {start : Nat} {before : List Item} {fields : List Field}
    {frames : List Frame} {c : Cursor} {s : Reading}
    (h : Reading.enterField start before fields frames c = .ok s) :
    s.cursor.rest.length ≤ c.rest.length := by
  unfold Reading.enterField at h
  split at h
  · simp at h
  · rename_i hname
    simp only [Except.ok.injEq] at h
    rw [← h]
    exact fieldNameAt?_length_le hname

theorem advance_length_lt {r : Reading} {c : Char} {t : Text} {n : Nat}
    (hrest : r.cursor.rest = c :: t) (hn : 0 < n) :
    (r.cursor.advance n).rest.length < r.cursor.rest.length := by
  simp only [Cursor.rest_advance, List.length_drop, hrest, List.length_cons]
  omega

theorem stepOpen_length_lt {r s : Reading} {c : Char} {t : Text} (hrest : r.cursor.rest = c :: t)
    (h : r.stepOpen c = .ok s) : s.cursor.rest.length < r.cursor.rest.length := by
  have hone := advance_length_lt hrest Nat.one_pos
  unfold Reading.stepOpen at h
  split at h
  · simp only [Except.ok.injEq] at h
    rw [← h]
    exact hone
  · simp at h
  · split at h
    · exact Nat.lt_of_le_of_lt (enterField_length_le h) hone
    · simp only [Except.ok.injEq] at h
      rw [← h]
      exact hone
  · split at h
    · split at h
      · simp at h
      · rename_i hwidth
        simp only [Except.ok.injEq] at h
        rw [← h]
        exact advance_length_lt hrest (Figure.width?_pos hwidth)
    · split at h
      · rename_i htag
        simp only [Except.ok.injEq] at h
        rw [← h]
        exact advance_length_lt hrest (Scan.seq_char_pos htag)
      · simp only [Except.ok.injEq] at h
        rw [← h]
        exact hone
  · split at h
    · simp only [Except.ok.injEq] at h
      rw [← h]
      exact hone
    · rename_i hkind
      split at h
      · simp only [Except.ok.injEq] at h
        rw [← h]
        exact hone
      · rename_i hapart
        simp only [Except.ok.injEq] at h
        rw [← h]
        exact advance_length_lt hrest (delimited?_pos hkind (apart?_eq_some hapart))

theorem step_length_lt {r s : Reading} {c : Char} {t : Text} (hrest : r.cursor.rest = c :: t)
    (h : r.step c = .ok s) : s.cursor.rest.length < r.cursor.rest.length := by
  have hone := advance_length_lt hrest Nat.one_pos
  unfold Reading.step at h
  split at h
  · split at h
    · simp only [Except.ok.injEq] at h
      rw [← h]
      exact hone
    · exact stepOpen_length_lt hrest h
  · simp only at h
    split at h
    · exact Nat.lt_of_le_of_lt (enterField_length_le h) hone
    · split at h
      · simp only [Except.ok.injEq] at h
        rw [← h]
        exact hone
      · exact stepOpen_length_lt hrest h
  · exact stepOpen_length_lt hrest h

/-- Reads to the end of the text. -/
def Reading.run (r : Reading) : Except StepError Expression :=
  match hrest : r.cursor.rest with
  | [] => r.finish
  | c :: _ =>
    match h : r.step c with
    | .error e => .error e
    | .ok s =>
      have := step_length_lt hrest h
      s.run
termination_by r.cursor.rest.length

/-- Reading that begins. -/
def Reading.start (content : Fragment) : Reading :=
  resume (.atStart content.text content.offset) [] []

/-- The items of a step's content. -/
def parse (content : Fragment) : Except StepError Expression := (Reading.start content).run

end Errata.Expression
