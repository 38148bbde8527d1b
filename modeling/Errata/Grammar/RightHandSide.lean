import Errata.Grammar.Symbols

/-!
Right-hand sides: a guard and then symbols, some of them with what they exclude, or a line of prose.
-/

namespace Errata.Grammar

/-- The cursor after a keyword and the blanks that follow it. -/
def keyword? (s : Scan) (c : Cursor) : Option Cursor := (c.scan? s).map fun (_, d) => d.skipBlanks

def butNotScan : Scan :=
  .seq [.literal "but", .blanks1, .literal "not", .notBefore Text.isWord]

def oneOfScan : Scan := .seq [.literal "one", .blanks1, .literal "of", .notBefore Text.isWord]

def orScan : Scan := .seq [.literal "or", .notBefore Text.isWord]

theorem keyword?_length_le {s : Scan} {c d : Cursor} (h : keyword? s c = some d) :
    d.rest.length ≤ c.rest.length := by
  obtain ⟨⟨f, e⟩, hscan, hd⟩ := Option.map_eq_some_iff.mp h
  have hle := Cursor.scan?_length_le hscan
  have hle₁ := e.skip_length_le Text.isBlank
  simp only [Cursor.skipBlanks] at hd
  rw [← hd]
  omega

/-- The further alternatives of an exclusion, each after the word `or`. -/
def moreAlternatives (c : Cursor) : Except SyntaxError (List Symbol × Cursor) :=
  match h : keyword? orScan c.skipBlanks with
  | none => .ok ([], c.skipBlanks)
  | some d =>
    match hs : symbolAt d with
    | .error e => .error e
    | .ok (symbol, e) =>
      have := symbolAt_length_lt hs
      have := keyword?_length_le h
      (moreAlternatives e).map fun (symbols, last) => (symbol :: symbols, last)
termination_by c.rest.length
decreasing_by
  have hle := c.skip_length_le Text.isBlank
  simp only [Cursor.skipBlanks] at *
  omega

/-- What follows `but not`: one symbol, or `one of` and several. -/
def exclusionAt (c : Cursor) : Except SyntaxError (Symbol × Cursor) :=
  match keyword? oneOfScan c with
  | none => symbolAt c
  | some d => do
    let (first, e) ← symbolAt d
    let (others, last) ← moreAlternatives e
    return (.oneOf ⟨false, c.offset⟩ (first :: others), last)

theorem moreAlternatives_length_le {c d : Cursor} {ss : List Symbol}
    (h : moreAlternatives c = .ok (ss, d)) : d.rest.length ≤ c.rest.length := by
  fun_induction moreAlternatives c generalizing ss d with
  | case1 c =>
    simp only [Except.ok.injEq, Prod.mk.injEq] at h
    rw [← h.2]
    exact c.skip_length_le Text.isBlank
  | case2 => simp at h
  | case3 c d' hor symbol e hsymbol hlt hle ih =>
    cases hmore : moreAlternatives e with
    | error e' => simp [hmore, Except.map] at h
    | ok found =>
      have hih := ih hmore
      have hblank := c.skip_length_le Text.isBlank
      simp only [hmore, Except.map, Except.ok.injEq, Prod.mk.injEq] at h
      simp only [Cursor.skipBlanks] at hle
      rw [← h.2]
      omega

theorem exclusionAt_length_lt {c d : Cursor} {s : Symbol} (h : exclusionAt c = .ok (s, d)) :
    d.rest.length < c.rest.length := by
  unfold exclusionAt at h
  split at h
  · exact symbolAt_length_lt h
  · rename_i d' hof
    have hle := keyword?_length_le hof
    cases hfirst : symbolAt d' with
    | error e => simp [hfirst, bind, Except.bind] at h
    | ok found =>
      obtain ⟨first, e⟩ := found
      have hlt := symbolAt_length_lt hfirst
      cases hmore : moreAlternatives e with
      | error e' => simp [hfirst, hmore, bind, Except.bind] at h
      | ok more =>
        have hmore' := moreAlternatives_length_le hmore
        simp only [hfirst, hmore, bind, Except.bind, pure, Except.pure, Except.ok.injEq,
          Prod.mk.injEq] at h
        rw [← h.2]
        omega

/-- The symbols to the end of the text. `before` are the symbols read already, the last first; a
`but not` applies to the last of them. -/
def symbolsAt (before : List Symbol) (c : Cursor) : Except SyntaxError (List Symbol) :=
  if c.skipBlanks.isDone then .ok before.reverse
  else
    match hkey : keyword? butNotScan c.skipBlanks with
    | some d =>
      match before with
      | [] => .error ⟨d.offset, .symbolBeforeButNot⟩
      | left :: earlier =>
        match h : exclusionAt d with
        | .error e => .error e
        | .ok (right, e) =>
          have := exclusionAt_length_lt h
          have := keyword?_length_le hkey
          symbolsAt (.butNot ⟨false, left.offset⟩ left right :: earlier) e
    | none =>
      match h : symbolAt c.skipBlanks with
      | .error e => .error e
      | .ok (symbol, d) =>
        have := symbolAt_length_lt h
        symbolsAt (symbol :: before) d
termination_by c.rest.length
decreasing_by
  all_goals
    have hle := c.skip_length_le Text.isBlank
    simp only [Cursor.skipBlanks] at *
    omega

/-- Symbols separated by blanks, as after `one of`. -/
def alternativesAt (c : Cursor) : Except SyntaxError (List Symbol) :=
  if c.skipBlanks.isDone then .ok []
  else
    match h : symbolAt c.skipBlanks with
    | .error e => .error e
    | .ok (symbol, d) =>
      have := symbolAt_length_lt h
      (alternativesAt d).map (symbol :: ·)
termination_by c.rest.length
decreasing_by
  have hle := c.skip_length_le Text.isBlank
  simp only [Cursor.skipBlanks] at *
  omega

/-- The guard that a right-hand side may begin with. -/
def guardAt (c : Cursor) : Option Guard × Cursor :=
  match bracketed? guardOperator? c with
  | some (conditions, after) => (some ⟨conditions, c.offset⟩, after)
  | none => (none, c)

/-- The symbols after the guard. A `>` makes the rest of the line prose. -/
def bodyAt (c : Cursor) : Except SyntaxError (List Symbol) :=
  match c.skipBlanks.rest with
  | '>' :: prose =>
    .ok [.restriction ⟨false, c.skipBlanks.offset⟩ (.prose (Text.trim prose))]
  | _ => symbolsAt [] c

def rightHandSideAt (c : Cursor) : Except SyntaxError RightHandSide := do
  let (guard, body) := guardAt c
  let symbols ← bodyAt body
  if symbols.isEmpty then throw ⟨c.offset, .symbol⟩
  return { guard, symbols, offset := c.offset }

end Errata.Grammar
