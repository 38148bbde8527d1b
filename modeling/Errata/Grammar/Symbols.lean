import Errata.Grammar.Basic

/-!
Symbols of grammar notation: terminals between backquotes or angle brackets, nonterminals with their
arguments, and restrictions between brackets.
-/

namespace Errata.Grammar

def isNameStart (c : Char) : Bool := Text.isAsciiLetter c || c == '_'

def isNameChar (c : Char) : Bool := Text.isAsciiAlphanum c || c == '_'

def nameScan : Scan := .seq [.one isNameStart, .many isNameChar]

/-- A terminal such as `<TAB>`. -/
def angleScan : Scan := .seq [.char '<', .one Char.isUpper, .many isNameChar, .char '>']

/-! ## Arguments -/

def guardOperator? : Char → Option Operator
  | '+' => some .plus
  | '~' => some .tilde
  | _ => none

def argumentOperator? : Char → Option Operator
  | '?' => some .question
  | c => guardOperator? c

def argumentAt? (operator? : Char → Option Operator) (c : Cursor) : Option (Argument × Cursor) := do
  let sign ← c.rest.head?
  let operator ← operator? sign
  let (name, after) ← (c.advance 1).scan? nameScan
  return (⟨operator, name.text⟩, after)

theorem argumentAt?_length_lt {operator? : Char → Option Operator} {c d : Cursor} {a : Argument}
    (h : argumentAt? operator? c = some (a, d)) : d.rest.length < c.rest.length := by
  simp only [argumentAt?, Option.bind_eq_bind, Option.bind_eq_some_iff] at h
  obtain ⟨sign, hsign, operator, _, ⟨name, after⟩, hname, h⟩ := h
  have hle := Cursor.scan?_length_le hname
  have hpos : 0 < c.rest.length := List.length_pos_iff.mpr (by rintro hnil; simp [hnil] at hsign)
  simp only [Option.pure_def, Option.some.injEq, Prod.mk.injEq] at h
  rw [← h.2]
  simp only [Cursor.rest_advance, List.length_drop] at hle
  omega

/-- The arguments from here through the closing bracket. -/
def argumentsAt? (operator? : Char → Option Operator) (c : Cursor) :
    Option (List Argument × Cursor) :=
  match h : argumentAt? operator? c with
  | none => none
  | some (first, after) =>
    have := argumentAt?_length_lt h
    match after.skipBlanks.rest with
    | ',' :: _ =>
      (argumentsAt? operator? (after.skipBlanks.advance 1).skipBlanks).map fun (others, last) =>
        (first :: others, last)
    | ']' :: _ => some ([first], after.skipBlanks.advance 1)
    | _ => none
termination_by c.rest.length
decreasing_by
  have hle₁ := after.skip_length_le Text.isBlank
  have hle₂ := (after.skipBlanks.advance 1).skip_length_le Text.isBlank
  simp only [Cursor.skipBlanks, Cursor.rest_advance, List.length_drop] at *
  omega

/-- A list of arguments between brackets. -/
def bracketed? (operator? : Char → Option Operator) (c : Cursor) : Option (List Argument × Cursor) :=
  if c.rest.head? = some '[' then argumentsAt? operator? (c.advance 1).skipBlanks else none

/-- The arguments directly after a nonterminal's name. -/
def argumentList (c : Cursor) : Except SyntaxError (Option (List Argument) × Cursor) :=
  if c.rest.head? = some '[' then
    match bracketed? argumentOperator? c with
    | some (arguments, after) => .ok (some arguments, after)
    | none => .error ⟨c.offset, .argumentList⟩
  else .ok (none, c)

/-! ## Restrictions -/

/-- The number of characters through the bracket that closes the `depth` brackets opened before.
Brackets between backquotes do not count. -/
def bracketWidth? (depth : Nat) (quoted : Bool) : Text → Option Nat
  | [] => none
  | c :: t =>
    if c = '\x60' then (bracketWidth? depth (!quoted) t).map (· + 1)
    else if c = '[' && !quoted then (bracketWidth? (depth + 1) quoted t).map (· + 1)
    else if c = ']' && !quoted then
      if depth = 1 then some 1 else (bracketWidth? (depth - 1) quoted t).map (· + 1)
    else (bracketWidth? depth quoted t).map (· + 1)

def noLineTerminatorScan : Scan :=
  .seq [.literal "no", .blanks1, .literal "LineTerminator", .blanks1, .literal "here"]

/-- The restriction, or the empty symbol, with the given text between its brackets. -/
def restrictionOf? (mark : Mark) (inner : Text) : Option Symbol :=
  if inner = "empty".toList then some (.empty mark)
  else if noLineTerminatorScan.coversAll inner then some (.restriction mark .noLineTerminator)
  else if inner.startsWith "lookahead" then some (.restriction mark (.lookahead inner))
  else match inner with
    | '>' :: prose => some (.restriction mark (.prose (Text.trim prose)))
    | _ => none

def restrictionAt (c : Cursor) : Except SyntaxError (Symbol × Cursor) :=
  match bracketWidth? 0 false c.rest with
  | none => .error ⟨c.offset, .closingBracket⟩
  | some n =>
    match restrictionOf? ⟨false, c.offset⟩ (Text.trim ((c.rest.take (n - 1)).drop 1)) with
    | none => .error ⟨c.offset, .restriction⟩
    | some symbol => .ok (symbol, c.advance n)

/-! ## Symbols -/

/-- Whether a question mark makes a symbol optional, and the cursor after it. -/
def optionalMark (c : Cursor) : Bool × Cursor :=
  if c.rest.head? = some '?' then (true, c.advance 1) else (false, c)

def symbolAt (c : Cursor) : Except SyntaxError (Symbol × Cursor) :=
  match c.rest with
  | '\x60' :: t =>
    let text := t.takeWhile (· ≠ '\x60')
    if text.length < t.length then
      let (optional, after) := optionalMark (c.advance (text.length + 2))
      .ok (.terminal ⟨optional, c.offset⟩ text, after)
    else .error ⟨c.offset, .closingBackquote⟩
  | '[' :: _ => restrictionAt c
  | _ =>
    match angleScan c.rest with
    | some n =>
      let (optional, after) := optionalMark (c.advance n)
      .ok (.terminal ⟨optional, c.offset⟩ (c.rest.take n), after)
    | none =>
      match nameScan c.rest with
      | some n => do
        let (arguments, afterArguments) ← argumentList (c.advance n)
        let (optional, after) := optionalMark afterArguments
        return (.nonterminal ⟨optional, c.offset⟩ (c.rest.take n) arguments, after)
      | none => .error ⟨c.offset, .symbol⟩

/-! ## Reading a symbol takes at least one character -/

theorem argumentsAt?_length_le {operator? : Char → Option Operator} {c d : Cursor}
    {as : List Argument} (h : argumentsAt? operator? c = some (as, d)) :
    d.rest.length ≤ c.rest.length := by
  fun_induction argumentsAt? operator? c generalizing as d with
  | case1 => simp at h
  | case2 c first after hfirst hlt t hsign ih =>
    obtain ⟨⟨others, last⟩, hothers, hd⟩ := Option.map_eq_some_iff.mp h
    have hle := ih hothers
    have hle₁ := after.skip_length_le Text.isBlank
    have hle₂ := (after.skipBlanks.advance 1).skip_length_le Text.isBlank
    simp only [Prod.mk.injEq] at hd
    rw [← hd.2]
    simp only [Cursor.skipBlanks, Cursor.rest_advance, List.length_drop] at *
    omega
  | case3 c first after hfirst hlt t hsign =>
    have hle₁ := after.skip_length_le Text.isBlank
    simp only [Option.some.injEq, Prod.mk.injEq] at h
    rw [← h.2]
    simp only [Cursor.skipBlanks, Cursor.rest_advance, List.length_drop] at *
    omega
  | case4 => simp at h

theorem bracketed?_length_le {operator? : Char → Option Operator} {c d : Cursor}
    {as : List Argument} (h : bracketed? operator? c = some (as, d)) :
    d.rest.length ≤ c.rest.length := by
  unfold bracketed? at h
  split at h
  · have hle := argumentsAt?_length_le h
    have hle₁ := (c.advance 1).skip_length_le Text.isBlank
    simp only [Cursor.skipBlanks, Cursor.rest_advance, List.length_drop] at *
    omega
  · simp at h

theorem argumentList_length_le {c d : Cursor} {as : Option (List Argument)}
    (h : argumentList c = .ok (as, d)) : d.rest.length ≤ c.rest.length := by
  unfold argumentList at h
  split at h
  · split at h
    · rename_i hlist
      simp only [Except.ok.injEq, Prod.mk.injEq] at h
      rw [← h.2]
      exact bracketed?_length_le hlist
    · simp at h
  · simp only [Except.ok.injEq, Prod.mk.injEq] at h
    exact h.2 ▸ Nat.le_refl _

theorem optionalMark_length_le (c : Cursor) : (optionalMark c).2.rest.length ≤ c.rest.length := by
  unfold optionalMark
  split <;> simp

theorem bracketWidth?_pos {depth : Nat} {quoted : Bool} {t : Text} {n : Nat}
    (h : bracketWidth? depth quoted t = some n) : 0 < n := by
  fun_induction bracketWidth? depth quoted t generalizing n <;> simp_all
  all_goals
    obtain ⟨m, _, hm⟩ := h
    omega

theorem nameScan_pos {t : Text} {n : Nat} (h : nameScan t = some n) : 0 < n := by
  obtain ⟨a, b, ha, _, hsum⟩ := Scan.seq_cons_eq_some_iff.mp h
  have := Scan.one_pos ha
  omega

theorem nameScan_length_pos {t : Text} {n : Nat} (h : nameScan t = some n) : 0 < t.length := by
  obtain ⟨a, b, ha, _, _⟩ := Scan.seq_cons_eq_some_iff.mp h
  exact Scan.length_pos_of_one ha

theorem restrictionAt_length_lt {c d : Cursor} {s : Symbol} (h : restrictionAt c = .ok (s, d))
    (hpos : 0 < c.rest.length) : d.rest.length < c.rest.length := by
  unfold restrictionAt at h
  split at h
  · simp at h
  · rename_i hwidth
    have hn := bracketWidth?_pos hwidth
    split at h
    · simp at h
    · simp only [Except.ok.injEq, Prod.mk.injEq] at h
      rw [← h.2]
      simp only [Cursor.rest_advance, List.length_drop]
      omega

theorem symbolAt_length_lt {c d : Cursor} {s : Symbol} (h : symbolAt c = .ok (s, d)) :
    d.rest.length < c.rest.length := by
  unfold symbolAt at h
  split at h
  · rename_i t hrest
    simp only at h
    split at h
    · simp only [Except.ok.injEq, Prod.mk.injEq] at h
      rw [← h.2]
      have hle := optionalMark_length_le (c.advance ((t.takeWhile (· ≠ '\x60')).length + 2))
      simp only [Cursor.rest_advance, List.length_drop, hrest, List.length_cons] at hle ⊢
      omega
    · simp at h
  · rename_i hrest
    exact restrictionAt_length_lt h (by simp [hrest])
  · split at h
    · rename_i n hangle
      simp only [Except.ok.injEq, Prod.mk.injEq] at h
      have hle := optionalMark_length_le (c.advance n)
      have hn := Scan.seq_char_pos hangle
      have hpos := Scan.length_pos_of_seq_char hangle
      rw [← h.2]
      simp only [Cursor.rest_advance, List.length_drop] at hle
      omega
    · split at h
      · rename_i n hname
        simp only [bind, Except.bind] at h
        split at h
        · simp at h
        · rename_i arguments hlist
          simp only [pure, Except.pure, Except.ok.injEq, Prod.mk.injEq] at h
          have hle := argumentList_length_le hlist
          have hle₁ := optionalMark_length_le arguments.2
          have hn := nameScan_pos hname
          have hpos := nameScan_length_pos hname
          rw [← h.2]
          simp only [Cursor.rest_advance, List.length_drop] at hle
          omega
      · simp at h

end Errata.Grammar
