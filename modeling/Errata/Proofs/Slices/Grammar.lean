import Errata.Proofs.Grammar.Loop
import Errata.Proofs.Grammar.Written
import Errata.Proofs.Slices.Text

/-!
# Reading grammar by positions

A line of grammar is read here with a position in it. The text is cut at the position for each symbol, and
between the quotes and brackets of a symbol. Where a cut fails, and where alternatives are added to a
production that is no `one of`, there is no result. None of this comes to pass, and the productions are the
same.
-/

namespace Errata.Grammar

open Text

/-! ## 1. Symbols -/

/-- An argument in a list of arguments, its operator and then its name. -/
def argumentIn? (piece : Text) : Option Argument := do
  let name ← piece.trim.from? 1
  let operator := match piece.trim.head? with
    | some '+' => Operator.plus
    | some '~' => Operator.tilde
    | _ => Operator.question
  return ⟨operator, name⟩

/-- A list of arguments between brackets, if there is one at the position. -/
def bracketedFrom? (operator? : Char → Option Operator) (start : Cursor) (i : Nat) :
    Option (Option (List Argument × Nat)) := do
  let here ← start.move? i
  match bracketed? operator? here with
  | none => return none
  | some (_, after) =>
    let list ← here.rest.slice? 1 (here.upTo after - 1)
    let arguments ← (list.pieces ',').mapM argumentIn?
    return some (arguments, i + here.upTo after)

def argumentListFrom? (start : Cursor) (i : Nat) : Faulting SyntaxError (Option (List Argument) × Nat) := do
  let here ← start.move? i
  if here.rest.head? = some '[' then
    match ← (bracketedFrom? argumentOperator? start i : Option (Option (List Argument × Nat))) with
    | some (arguments, after) => return (some arguments, after)
    | none => throw ⟨start.offset + i, .argumentList⟩
  else return (none, i)

def restrictionFrom? (start : Cursor) (i : Nat) : Faulting SyntaxError (Symbol × Nat) := do
  let here ← start.move? i
  match bracketWidth? 0 false here.rest with
  | none => throw ⟨start.offset + i, .closingBracket⟩
  | some n =>
    let width := size (here.rest.take n)
    let inner ← here.rest.slice? 1 (width - 1)
    match restrictionOf? ⟨false, start.offset + i⟩ inner.trim with
    | none => throw ⟨start.offset + i, .restriction⟩
    | some symbol => return (symbol, i + width)

/-- Whether a question mark stands at the position, and the position after it. -/
def optionalFrom? (start : Cursor) (i : Nat) : Option (Bool × Nat) := do
  let here ← start.move? i
  return if here.rest.head? = some '?' then (true, i + 1) else (false, i)

def symbolFrom? (start : Cursor) (i : Nat) : Faulting SyntaxError (Symbol × Nat) := do
  let here ← start.move? i
  let offset := start.offset + i
  match here.rest with
  | '\x60' :: _ =>
    let inside ← here.rest.from? 1
    let close := size (inside.takeWhile (· ≠ '\x60'))
    if (inside.takeWhile (· ≠ '\x60')).length < inside.length then
      let text ← here.rest.slice? 1 (close + 1)
      let (optional, after) ← (optionalFrom? start (i + (close + 2)) : Option (Bool × Nat))
      return (.terminal ⟨optional, offset⟩ text, after)
    else throw ⟨offset, .closingBackquote⟩
  | '[' :: _ => restrictionFrom? start i
  | _ =>
    match angleScan here.rest with
    | some n =>
      let (optional, after) ← (optionalFrom? start (i + size (here.rest.take n)) : Option (Bool × Nat))
      return (.terminal ⟨optional, offset⟩ (here.rest.take n), after)
    | none =>
      match nameScan here.rest with
      | some n =>
        let (arguments, afterArguments) ← argumentListFrom? start (i + size (here.rest.take n))
        let (optional, after) ← (optionalFrom? start afterArguments : Option (Bool × Nat))
        return (.nonterminal ⟨optional, offset⟩ (here.rest.take n) arguments, after)
      | none => throw ⟨offset, .symbol⟩

/-! ## 2. Right-hand sides -/

/-- The position after the blanks. -/
def blanksFrom? (start : Cursor) (i : Nat) : Option Nat := do
  let here ← start.move? i
  return i + here.upTo here.skipBlanks

/-- The position after a keyword and the blanks that follow it, if the keyword is there. -/
def keywordFrom? (s : Scan) (start : Cursor) (i : Nat) : Option (Option Nat) := do
  let here ← start.move? i
  match s here.rest with
  | none => return none
  | some n => return some (← blanksFrom? start (i + size (here.rest.take n)))

def moreAlternativesFrom? (start : Cursor) (i : Nat) : Faulting SyntaxError (List Symbol × Nat) := do
  let i ← blanksFrom? start i
  match ← (keywordFrom? orScan start i : Option (Option Nat)) with
  | none => return ([], i)
  | some j =>
    let again : Cursor → Nat → Faulting SyntaxError (List Symbol × Nat) := by apply moreAlternativesFrom?
    let (symbol, after) ← symbolFrom? start j
    let (symbols, last) ← again start after
    return (symbol :: symbols, last)
partial_fixpoint

def exclusionFrom? (start : Cursor) (i : Nat) : Faulting SyntaxError (Symbol × Nat) := do
  match ← (keywordFrom? oneOfScan start i : Option (Option Nat)) with
  | none => symbolFrom? start i
  | some j =>
    let (first, after) ← symbolFrom? start j
    let (others, last) ← moreAlternativesFrom? start after
    return (.oneOf ⟨false, start.offset + i⟩ (first :: others), last)

/-- The symbols from a position to the end of the text, after those read already, the last first. -/
def symbolsFrom? (start : Cursor) (before : List Symbol) (i : Nat) : Faulting SyntaxError (List Symbol) := do
  let again : Cursor → List Symbol → Nat → Faulting SyntaxError (List Symbol) := by apply symbolsFrom?
  let i ← blanksFrom? start i
  let here ← start.move? i
  if here.isDone then return before.reverse
  match ← (keywordFrom? butNotScan start i : Option (Option Nat)) with
  | some j =>
    match before with
    | [] => throw ⟨start.offset + j, .symbolBeforeButNot⟩
    | left :: earlier =>
      let (right, after) ← exclusionFrom? start j
      again start (.butNot ⟨false, left.offset⟩ left right :: earlier) after
  | none =>
    let (symbol, after) ← symbolFrom? start i
    again start (symbol :: before) after
partial_fixpoint

def alternativesFrom? (start : Cursor) (i : Nat) : Faulting SyntaxError (List Symbol) := do
  let i ← blanksFrom? start i
  let here ← start.move? i
  if here.isDone then return []
  let again : Cursor → Nat → Faulting SyntaxError (List Symbol) := by apply alternativesFrom?
  let (symbol, after) ← symbolFrom? start i
  return symbol :: (← again start after)
partial_fixpoint

/-- The symbols after the guard. A `>` makes the rest of the line prose. -/
def bodyFrom? (start : Cursor) (i : Nat) : Faulting SyntaxError (List Symbol) := do
  let j ← blanksFrom? start i
  let here ← start.move? j
  match here.rest with
  | '>' :: prose => return [.restriction ⟨false, start.offset + j⟩ (.prose (Text.trim prose))]
  | _ => symbolsFrom? start [] i

/-- The guard that a right-hand side may begin with. -/
def guardFrom? (start : Cursor) : Option (Option Guard × Nat) := do
  match ← bracketedFrom? guardOperator? start 0 with
  | some (conditions, after) => return (some ⟨conditions, start.offset⟩, after)
  | none => return (none, 0)

def rightHandSideFrom? (start : Cursor) : Faulting SyntaxError RightHandSide := do
  let (guard, i) ← (guardFrom? start : Option (Option Guard × Nat))
  let symbols ← bodyFrom? start i
  if symbols.isEmpty then throw ⟨start.offset, .symbol⟩
  return { guard, symbols, offset := start.offset }

/-! ## 3. Lines -/

/-- The right-hand sides on the header's own line, and whether they are those of a `one of`. -/
def sidesFrom? (tail : Cursor) : Faulting SyntaxError (List RightHandSide × Bool) := do
  match ← (keywordFrom? oneOfScan tail 0 : Option (Option Nat)) with
  | some i =>
    let alternatives ← tail.move? i
    if alternatives.isDone then return ([], true)
    let symbols ← alternativesFrom? alternatives 0
    return (← (extend? alternatives.offset symbols [] : Option (List RightHandSide)), true)
  | none => return ([← rightHandSideFrom? tail], false)

def pendingFrom? (source : Nat) (line : Line) : Faulting SyntaxError Pending :=
  match headerParts? line with
  | none => throw ⟨line.start, .production⟩
  | some parts => do
    let parameters ←
      (parts.parameters.elim (.ok []) fun list => parametersOf list.offset (list.text.pieces ',') :
        Except SyntaxError (List Parameter))
    let (rightHandSides, isOneOf) ← parts.tail.elim (pure ([], false)) sidesFrom?
    return ⟨{ name := parts.name, offset := line.start, source, parameters, rightHandSides }, isOneOf⟩

/-- Reads one line. -/
def Progress.stepAt? (source : Nat) (s : Progress) (line : Line) : Option Progress :=
  if s.isHeader line then do
    let closed := { s.finish with base := some (s.base.getD line.indent) }
    match ← (pendingFrom? source line).run with
    | .error e => return { closed with skipping := true }.report e
    | .ok pending => return { closed with current := some pending, skipping := false }
  else
    match s.current with
    | none =>
      if s.skipping then some s
      else some ({ s with skipping := true }.report ⟨line.start, .production⟩)
    | some pending => do
      let start := Cursor.atStart line.text line.start
      let sides := pending.production.rightHandSides
      if pending.isOneOf then
        match ← (alternativesFrom? start 0).run with
        | .error e => return s.report e
        | .ok symbols => return s.setSides pending (← extend? line.start symbols sides)
      else
        match ← (rightHandSideFrom? start).run with
        | .error e => return s.report e
        | .ok side => return s.setSides pending (sides ++ [side])

/-- The productions of a text, read line by line and by positions in the lines. -/
def readAt? (source : Nat) (text : Text) : Option Compilation := do
  let s ← text.lines.foldlM (Progress.stepAt? source) Progress.start
  return {
    productions := s.finish.productions
    diagnostics := s.finish.errors.map (·.diagnostic source) }

/-- Reads texts of grammar, with or without the checks on the whole. -/
def compileAt? (sources : List Text) (checks : Bool) : Option Compilation := do
  let read ← sources.zipIdx.mapM fun (text, i) => readAt? i text
  let productions := read.flatMap Compilation.productions
  let diagnostics := read.flatMap Compilation.diagnostics
  if checks then
    return {
      productions
      diagnostics := diagnostics ++ duplicates [] productions ++ productions.flatMap unusedParameters }
  else return { productions, diagnostics }

/-! ## 4. Arguments -/

theorem trim_between {before core after : Text} (hbefore : AllBlank before) (hafter : AllBlank after)
    (hhead : ∀ c ∈ core.head?, isBlank c = false) (hlast : ∀ c ∈ core.getLast?, isBlank c = false)
    (hne : core ≠ []) : Text.trim (before ++ (core ++ after)) = core := by
  have hstart : trimStart (before ++ (core ++ after)) = core ++ after := by
    rw [trimStart, List.dropWhile_append_of_pos hbefore, ← trimStart]
    refine trimStart_eq_self fun c hc => hhead c ?_
    rwa [List.head?_append_of_ne_nil core hne] at hc
  have hend : trimEnd (core ++ after) = trimEnd core := by
    rw [trimEnd, List.reverse_append, List.dropWhile_append_of_pos, ← trimEnd]
    intro c hc
    exact hafter c (List.mem_reverse.mp hc)
  rw [Text.trim, hstart, hend, trimEnd_eq_self hlast]

theorem not_mem_between {before core after : Text} (hbefore : AllBlank before) (hcore : ',' ∉ core)
    (hafter : AllBlank after) : ',' ∉ before ++ (core ++ after) := by
  intro hmem
  rcases List.mem_append.mp hmem with hmem | hmem
  · exact absurd (hbefore _ hmem) (by decide)
  rcases List.mem_append.mp hmem with hmem | hmem
  · exact hcore hmem
  · exact absurd (hafter _ hmem) (by decide)

/-- The operator that an argument is read with is the one that its sign stands for. -/
theorem of_argumentOperator? {sign : Char} {operator : Operator} (h : argumentOperator? sign = some operator) :
    sign.utf8Size = 1 ∧ isBlank sign = false ∧ sign ≠ ',' ∧
      operator = match some sign with
        | some '+' => .plus
        | some '~' => .tilde
        | _ => .question := by
  unfold argumentOperator? at h
  split at h
  · cases h
    exact ⟨rfl, by decide, by decide, rfl⟩
  · unfold guardOperator? at h
    split at h
    · cases h
      exact ⟨rfl, by decide, by decide, rfl⟩
    · cases h
      exact ⟨rfl, by decide, by decide, rfl⟩
    · cases h

theorem argumentOperator?_of_guardOperator? {sign : Char} {operator : Operator}
    (h : guardOperator? sign = some operator) : argumentOperator? sign = some operator := by
  unfold argumentOperator?
  split
  · cases h
  · exact h

section Arguments

variable {operator? : Char → Option Operator} {c d : Cursor}

theorem reaches_argumentAt? {a : Argument} (h : argumentAt? operator? c = some (a, d)) : c.Reaches d := by
  simp only [argumentAt?, Option.bind_eq_bind, Option.bind_eq_some_iff] at h
  obtain ⟨sign, -, operator, -, ⟨name, after⟩, hname, h⟩ := h
  cases h
  exact (c.reaches_advance 1).trans (Cursor.reaches_scan? hname)

theorem reaches_argumentsAt? {as : List Argument} (h : argumentsAt? operator? c = some (as, d)) :
    c.Reaches d := by
  fun_induction argumentsAt? operator? c generalizing as d with
  | case1 => cases h
  | case2 c first after hfirst _ rest hsign ih =>
    obtain ⟨⟨others, last⟩, hothers, heq⟩ := Option.map_eq_some_iff.mp h
    cases heq
    exact (reaches_argumentAt? hfirst).trans <| after.reaches_skipBlanks.trans <|
      (Cursor.reaches_advance _ 1).trans <| (Cursor.reaches_skipBlanks _).trans (ih hothers)
  | case3 c first after hfirst _ rest hsign =>
    cases h
    exact (reaches_argumentAt? hfirst).trans (after.reaches_skipBlanks.trans (Cursor.reaches_advance _ 1))
  | case4 => cases h

theorem reaches_bracketed? {as : List Argument} (h : bracketed? operator? c = some (as, d)) : c.Reaches d := by
  unfold bracketed? at h
  split at h
  · exact (c.reaches_advance 1).trans ((Cursor.reaches_skipBlanks _).trans (reaches_argumentsAt? h))
  · cases h

variable
  (hargument : ∀ {sign operator}, operator? sign = some operator → argumentOperator? sign = some operator)

include hargument

/-- An argument is written as its operator and its name, with blanks around it. -/
theorem argumentIn?_of_argumentAt? {a : Argument} (h : argumentAt? operator? c = some (a, d)) :
    ∃ written, c.Passes written d ∧ ',' ∉ written ∧ ∀ before after, AllBlank before → AllBlank after →
      argumentIn? (before ++ (written ++ after)) = some a := by
  simp only [argumentAt?, Option.bind_eq_bind, Option.bind_eq_some_iff] at h
  obtain ⟨sign, hsign, operator, hoperator, ⟨name, after⟩, hname, h⟩ := h
  cases h
  obtain ⟨rest, hrest⟩ := List.head?_eq_some_iff.mp hsign
  obtain ⟨hsize, hblank, hcomma, hoperator⟩ := of_argumentOperator? (hargument hoperator)
  obtain ⟨n, hn, heq⟩ := Option.map_eq_some_iff.mp hname
  cases heq
  have hchars := (isName_take hn).isNameChar
  refine ⟨sign :: (c.advance 1).rest.take n,
    (Cursor.passes_head hrest).trans ((c.advance 1).passes_advance n), ?_, ?_⟩
  · intro hmem
    rcases List.mem_cons.mp hmem with hmem | hmem
    · exact hcomma hmem.symm
    · exact absurd (hchars _ hmem) (by decide)
  · intro before after hbefore hafter
    have htrim : Text.trim (before ++ (sign :: (c.advance 1).rest.take n ++ after)) = _ :=
      trim_between hbefore hafter (fun ch hch => by cases hch; exact hblank) (fun ch hch => ?_)
        (List.cons_ne_nil _ _)
    · have hfrom : Text.from? (sign :: (c.advance 1).rest.take n) 1 = some ((c.advance 1).rest.take n) := by
        have h := from?_append [sign] ((c.advance 1).rest.take n)
        rw [size_cons, hsize] at h
        exact h
      rw [argumentIn?, htrim, hfrom, hoperator]
      rfl
    · rcases List.mem_cons.mp (List.mem_of_getLast? hch) with hch | hch
      · rw [hch]
        exact hblank
      · exact isBlank_of_isNameChar (hchars ch hch)

/-- The arguments stand between the commas of what is written before the closing bracket. -/
theorem mapM_argumentIn?_of_argumentsAt? {as : List Argument} (h : argumentsAt? operator? c = some (as, d)) :
    ∃ list, c.Passes (list ++ [']']) d ∧ ∀ before, AllBlank before →
      (pieces ',' (before ++ list)).mapM argumentIn? = some as := by
  fun_induction argumentsAt? operator? c generalizing as d with
  | case1 => cases h
  | case2 c first after hfirst _ rest hsign ih =>
    obtain ⟨⟨others, last⟩, hothers, heq⟩ := Option.map_eq_some_iff.mp h
    cases heq
    obtain ⟨written, hwritten, hcomma, hread⟩ := argumentIn?_of_argumentAt? hargument hfirst
    obtain ⟨gap, hgap, hgapPasses⟩ := after.passes_skipBlanks
    obtain ⟨lead, hlead, hleadPasses⟩ := (after.skipBlanks.advance 1).passes_skipBlanks
    obtain ⟨list, hlist, hmore⟩ := ih hothers
    refine ⟨written ++ (gap ++ ',' :: (lead ++ list)), ?_, fun before hbefore => ?_⟩
    · have hpasses := hwritten.trans (hgapPasses.trans
        ((Cursor.passes_head hsign).trans (hleadPasses.trans hlist)))
      rw [← List.append_assoc lead] at hpasses
      simpa [List.append_assoc] using hpasses
    · have hpiece : ',' ∉ before ++ (written ++ gap) := not_mem_between hbefore hcomma hgap
      have htext : before ++ (written ++ (gap ++ ',' :: (lead ++ list))) =
          (before ++ (written ++ gap)) ++ ',' :: (lead ++ list) := by
        simp [List.append_assoc]
      rw [htext, pieces_append_separator, pieces_of_not_mem hpiece, List.singleton_append, List.mapM_cons,
        hread before gap hbefore hgap, hmore lead hlead]
      rfl
  | case3 c first after hfirst _ rest hsign =>
    cases h
    obtain ⟨written, hwritten, hcomma, hread⟩ := argumentIn?_of_argumentAt? hargument hfirst
    obtain ⟨gap, hgap, hgapPasses⟩ := after.passes_skipBlanks
    refine ⟨written ++ gap, ?_, fun before hbefore => ?_⟩
    · have hpasses := hwritten.trans (hgapPasses.trans (Cursor.passes_head hsign))
      rwa [← List.append_assoc] at hpasses
    · rw [pieces_of_not_mem (not_mem_between hbefore hcomma hgap), List.mapM_cons, hread before gap hbefore hgap]
      rfl
  | case4 => cases h

/-- The slice between the brackets is there, and its pieces are the arguments. -/
theorem bracketedFrom?_eq {start : Cursor} (h : start.Reaches c) :
    bracketedFrom? operator? start (start.upTo c) =
      some ((bracketed? operator? c).map fun found => (found.1, start.upTo found.2)) := by
  rw [bracketedFrom?, h.move?]
  simp only [Option.bind_eq_bind, Option.bind_some]
  cases hlist : bracketed? operator? c with
  | none => rfl
  | some found =>
    obtain ⟨as, d⟩ := found
    have hreaches := reaches_bracketed? hlist
    dsimp only
    unfold bracketed? at hlist
    split at hlist
    · rename_i hhead
      obtain ⟨rest, hrest⟩ := List.head?_eq_some_iff.mp hhead
      obtain ⟨lead, hlead, hleadPasses⟩ := (c.advance 1).passes_skipBlanks
      obtain ⟨list, hlist, hread⟩ := mapM_argumentIn?_of_argumentsAt? hargument hlist
      have hpasses := (Cursor.passes_head hrest).trans (hleadPasses.trans hlist)
      -- each bracket has one byte, so the slice is what stands between them
      have hwidth : c.upTo d - 1 = 1 + size (lead ++ list) := by
        rw [Cursor.upTo, hpasses.2]
        simp only [size_append, size_cons, size_nil]
        have hopen : '['.utf8Size = 1 := rfl
        have hclose : ']'.utf8Size = 1 := rfl
        omega
      have hholds : c.rest.Holds 1 (lead ++ list) := by
        refine ⟨['['], ']' :: d.rest, ?_, rfl⟩
        rw [hpasses.1]
        simp [List.append_assoc]
      rw [hwidth, slice?_of_holds hholds, Option.bind_some, hread lead hlead, Cursor.upTo_add h hreaches]
      rfl
    · cases hlist

end Arguments

/-! ## 5. Symbols -/

section Symbols

variable {start c : Cursor}

theorem readsAs_argumentListFrom? (h : start.Reaches c) :
    ReadsAs start (argumentListFrom? start (start.upTo c)) (argumentList c) := by
  unfold argumentListFrom? argumentList
  refine readsAs_lift h.move? ?_
  split
  · refine readsAs_lift (bracketedFrom?_eq id h) ?_
    cases hlist : bracketed? argumentOperator? c with
    | none =>
      rw [h.offset_eq]
      exact readsAs_throw _ _
    | some found => exact readsAs_pure _ (h.trans (reaches_bracketed? hlist))
  · exact readsAs_pure _ h

/-- What stands between the brackets of a restriction. -/
theorem exists_inner_of_bracketWidth? {t rest : Text} {n : Nat} (ht : t = '[' :: rest)
    (h : bracketWidth? 0 false t = some n) :
    ∃ inner after, t = '[' :: (inner ++ ']' :: after) ∧ n = inner.length + 2 := by
  obtain ⟨before, after, hsplit, hlength⟩ := exists_of_bracketWidth? h
  cases before with
  | nil =>
    rw [ht] at hsplit
    cases hsplit
  | cons first inner =>
    rw [ht] at hsplit
    cases hsplit
    exact ⟨inner, after, ht, hlength.symm⟩

theorem readsAs_restrictionFrom? (h : start.Reaches c) {rest : Text} (hrest : c.rest = '[' :: rest) :
    ReadsAs start (restrictionFrom? start (start.upTo c)) (restrictionAt c) := by
  unfold restrictionFrom? restrictionAt
  rw [h.offset_eq]
  refine readsAs_lift h.move? ?_
  cases hwidth : bracketWidth? 0 false c.rest with
  | none => exact readsAs_throw _ _
  | some n =>
    obtain ⟨inner, after, hsplit, hn⟩ := exists_inner_of_bracketWidth? hrest hwidth
    have htake : c.rest.take n = '[' :: (inner ++ [']']) := by
      rw [hsplit, hn, List.append_cons, List.take_succ_cons]
      exact congrArg _ (List.take_left' (by rw [List.length_append]; rfl))
    have hinner : (c.rest.take (n - 1)).drop 1 = inner := by
      rw [hsplit, hn, Nat.add_sub_assoc (by decide), List.take_succ_cons, List.take_left]
      rfl
    have hsize : size (c.rest.take n) - 1 = 1 + size inner := by
      rw [htake, size_cons, size_append, size_cons, size_nil]
      have hopen : '['.utf8Size = 1 := rfl
      have hclose : ']'.utf8Size = 1 := rfl
      omega
    have hholds : c.rest.Holds 1 inner := ⟨['['], ']' :: after, by rw [hsplit]; simp, rfl⟩
    have hslice : c.rest.slice? 1 (size (c.rest.take n) - 1) = some inner := by
      rw [hsize]
      exact slice?_of_holds hholds
    refine readsAs_lift hslice ?_
    dsimp only
    rw [hinner]
    cases restrictionOf? ⟨false, start.offset + start.upTo c⟩ (Text.trim inner) with
    | none => exact readsAs_throw _ _
    | some symbol =>
      rw [Cursor.upTo_add_size h]
      exact readsAs_pure _ (h.trans (c.reaches_advance n))

theorem reaches_optionalMark (c : Cursor) : c.Reaches (optionalMark c).2 := by
  unfold optionalMark
  split
  · exact c.reaches_advance 1
  · exact .refl c

theorem optionalFrom?_eq (h : start.Reaches c) :
    optionalFrom? start (start.upTo c) = some ((optionalMark c).1, start.upTo (optionalMark c).2) := by
  rw [optionalFrom?, h.move?, optionalMark]
  show some (if c.rest.head? = some '?' then _ else _) = _
  split
  · rename_i hhead
    obtain ⟨rest, hrest⟩ := List.head?_eq_some_iff.mp hhead
    rw [← Cursor.upTo_add h (c.reaches_advance 1), Cursor.upTo_advance_one hrest]
    rfl
  · rfl

/-- A symbol that a question mark may follow. -/
theorem readsAs_optional (h : start.Reaches c) (symbol : Bool → Symbol) :
    ReadsAs start
      (do
        let (optional, after) ← (optionalFrom? start (start.upTo c) : Option (Bool × Nat))
        return (symbol optional, after) : Faulting SyntaxError (Symbol × Nat))
      (.ok (symbol (optionalMark c).1, (optionalMark c).2)) :=
  readsAs_lift (optionalFrom?_eq h) (readsAs_pure _ (h.trans (reaches_optionalMark c)))

/-- What is neither a quoted terminal nor a restriction. -/
theorem symbolAt_plain (hquote : ∀ rest, c.rest ≠ '\x60' :: rest) (hbracket : ∀ rest, c.rest ≠ '[' :: rest) :
    symbolAt c =
      match angleScan c.rest with
      | some n =>
        .ok (.terminal ⟨(optionalMark (c.advance n)).1, c.offset⟩ (c.rest.take n), (optionalMark (c.advance n)).2)
      | none =>
        match nameScan c.rest with
        | some n => do
          let (arguments, after) ← argumentList (c.advance n)
          return (.nonterminal ⟨(optionalMark after).1, c.offset⟩ (c.rest.take n) arguments, (optionalMark after).2)
        | none => .error ⟨c.offset, .symbol⟩ := by
  unfold symbolAt
  split
  · rename_i hrest
    exact absurd hrest (hquote _)
  · rename_i hrest
    exact absurd hrest (hbracket _)
  · rfl

theorem symbolAt_unclosed {rest : Text} (hrest : c.rest = '\x60' :: rest)
    (hopen : ¬(rest.takeWhile (· ≠ '\x60')).length < rest.length) :
    symbolAt c = .error ⟨c.offset, .closingBackquote⟩ := by
  unfold symbolAt
  rw [hrest]
  exact if_neg hopen

theorem readsAs_symbolFrom? (h : start.Reaches c) :
    ReadsAs start (symbolFrom? start (start.upTo c)) (symbolAt c) := by
  have hadvance : ∀ n, start.Reaches (c.advance n) := fun n => h.trans (c.reaches_advance n)
  unfold symbolFrom?
  refine readsAs_lift h.move? ?_
  rw [← h.offset_eq]
  dsimp only
  split
  · -- a quoted terminal: the closing quote is looked for after the opening one
    rename_i rest hrest
    have hinside : Text.from? c.rest 1 = some rest := by
      rw [hrest]
      exact from?_append ['\x60'] rest
    refine readsAs_lift hinside ?_
    split
    · rename_i hclosed
      rw [symbolAt_backquote hrest hclosed]
      obtain ⟨closing, after, hsplit, hclosing⟩ := exists_of_takeWhile_lt hclosed
      rw [show closing = '\x60' by simpa using hclosing] at hsplit
      generalize rest.takeWhile (· ≠ '\x60') = text at hsplit
      have hslice : c.rest.slice? 1 (size text + 1) = some text := by
        have hholds : c.rest.Holds 1 text := ⟨['\x60'], '\x60' :: after, by rw [hrest, hsplit]; simp, rfl⟩
        rw [Nat.add_comm]
        exact slice?_of_holds hholds
      have hsize : size text + 2 = size (c.rest.take (text.length + 2)) := by
        rw [hrest, hsplit, List.append_cons, List.take_succ_cons,
          List.take_left' (by rw [List.length_append]; rfl), size_cons, size_append, size_cons, size_nil]
        have hquote : '\x60'.utf8Size = 1 := rfl
        omega
      refine readsAs_lift hslice ?_
      rw [hsize, Cursor.upTo_add_size h]
      exact readsAs_optional (hadvance _) fun optional => .terminal ⟨optional, _⟩ _
    · rename_i hopen
      rw [symbolAt_unclosed hrest hopen]
      exact readsAs_throw _ _
  · rename_i rest hrest
    rw [symbolAt_bracket hrest]
    exact readsAs_restrictionFrom? h hrest
  · rename_i hquote hbracket
    rw [symbolAt_plain hquote hbracket]
    cases angleScan c.rest with
    | some n =>
      dsimp only
      rw [Cursor.upTo_add_size h]
      exact readsAs_optional (hadvance n) fun optional => .terminal ⟨optional, _⟩ _
    | none =>
      dsimp only
      cases nameScan c.rest with
      | none => exact readsAs_throw _ _
      | some n =>
        dsimp only
        rw [Cursor.upTo_add_size h]
        exact (readsAs_argumentListFrom? (hadvance n)).bind fun arguments after _ hafter =>
          readsAs_optional hafter fun optional => .nonterminal ⟨optional, _⟩ _ _

end Symbols

/-! ## 6. Right-hand sides -/

section RightHandSides

variable {start c d : Cursor}

theorem blanksFrom?_eq (h : start.Reaches c) : blanksFrom? start (start.upTo c) = some (start.upTo c.skipBlanks) := by
  rw [blanksFrom?, h.move?, ← Cursor.upTo_add h c.reaches_skipBlanks]
  rfl

theorem reaches_keyword? {s : Scan} (h : keyword? s c = some d) : c.Reaches d := by
  obtain ⟨⟨f, e⟩, hscan, rfl⟩ := Option.map_eq_some_iff.mp h
  exact (Cursor.reaches_scan? hscan).trans e.reaches_skipBlanks

theorem keywordFrom?_eq (s : Scan) (h : start.Reaches c) :
    keywordFrom? s start (start.upTo c) = some ((keyword? s c).map start.upTo) := by
  rw [keywordFrom?, h.move?, keyword?, Cursor.scan?]
  simp only [Option.bind_eq_bind, Option.bind_some]
  cases s c.rest with
  | none => rfl
  | some n =>
    dsimp only
    rw [Cursor.upTo_add_size h, blanksFrom?_eq (h.trans (c.reaches_advance n))]
    rfl

/-- After a keyword there is no more to read than before the blanks in front of it. -/
theorem keyword?_skipBlanks_length_le {s : Scan} (h : keyword? s c.skipBlanks = some d) :
    d.rest.length ≤ c.rest.length :=
  Nat.le_trans (keyword?_length_le h) (c.skip_length_le isBlank)

theorem moreAlternatives_eq (c : Cursor) :
    moreAlternatives c =
      match keyword? orScan c.skipBlanks with
      | none => .ok ([], c.skipBlanks)
      | some d => do
        let (symbol, after) ← symbolAt d
        let (symbols, last) ← moreAlternatives after
        return (symbol :: symbols, last) := by
  rw [moreAlternatives]
  split
  · rename_i hor
    simp only [hor]
  · rename_i d hor
    simp only [hor]
    split
    · rename_i hsymbol
      simp only [hsymbol]
      rfl
    · rename_i symbol after hsymbol
      simp only [hsymbol]
      show _ = moreAlternatives after >>= fun found => .ok (symbol :: found.1, found.2)
      cases moreAlternatives after <;> rfl

theorem readsAs_moreAlternativesFrom? (h : start.Reaches c) :
    ReadsAs start (moreAlternativesFrom? start (start.upTo c)) (moreAlternatives c) := by
  -- each alternative leaves less to read
  induction hlength : c.rest.length using Nat.strong_induction_on generalizing c with
  | h length ih =>
    have hblanks := h.trans c.reaches_skipBlanks
    rw [moreAlternativesFrom?, moreAlternatives_eq]
    refine readsAs_lift (blanksFrom?_eq h) (readsAs_lift (keywordFrom?_eq orScan hblanks) ?_)
    cases hor : keyword? orScan c.skipBlanks with
    | none => exact readsAs_pure _ hblanks
    | some d =>
      refine (readsAs_symbolFrom? (hblanks.trans (reaches_keyword? hor))).bind fun symbol after hsymbol hafter => ?_
      have hlt := symbolAt_length_lt hsymbol
      have hle := keyword?_skipBlanks_length_le hor
      exact (ih after.rest.length (by omega) hafter rfl).bind fun symbols last _ hlast => readsAs_pure _ hlast

theorem readsAs_exclusionFrom? (h : start.Reaches c) :
    ReadsAs start (exclusionFrom? start (start.upTo c)) (exclusionAt c) := by
  unfold exclusionFrom? exclusionAt
  rw [h.offset_eq]
  refine readsAs_lift (keywordFrom?_eq oneOfScan h) ?_
  cases hof : keyword? oneOfScan c with
  | none => exact readsAs_symbolFrom? h
  | some d =>
    refine (readsAs_symbolFrom? (h.trans (reaches_keyword? hof))).bind fun first after _ hafter => ?_
    exact (readsAs_moreAlternativesFrom? hafter).bind fun others last _ hlast => readsAs_pure _ hlast

theorem symbolsAt_eq (before : List Symbol) (c : Cursor) :
    symbolsAt before c =
      (if c.skipBlanks.isDone then .ok before.reverse
      else match keyword? butNotScan c.skipBlanks with
        | none => do
          let (symbol, after) ← symbolAt c.skipBlanks
          symbolsAt (symbol :: before) after
        | some d =>
          match before with
          | [] => .error ⟨d.offset, .symbolBeforeButNot⟩
          | left :: earlier => do
            let (right, after) ← exclusionAt d
            symbolsAt (.butNot ⟨false, left.offset⟩ left right :: earlier) after) := by
  rw [symbolsAt]
  split
  · rfl
  split
  · rename_i d hkey
    simp only [hkey]
    cases before with
    | nil => rfl
    | cons left earlier =>
      dsimp only
      split
      · rename_i hright
        simp only [hright]
        rfl
      · rename_i hright
        simp only [hright]
        rfl
  · rename_i hkey
    simp only [hkey]
    split
    · rename_i hsymbol
      simp only [hsymbol]
      rfl
    · rename_i hsymbol
      simp only [hsymbol]
      rfl

theorem returns_symbolsFrom? (h : start.Reaches c) (before : List Symbol) :
    Returns (symbolsFrom? start before (start.upTo c)) (symbolsAt before c) := by
  -- each symbol leaves less to read
  induction hlength : c.rest.length using Nat.strong_induction_on generalizing c before with
  | h length ih =>
    have hblanks := h.trans c.reaches_skipBlanks
    rw [symbolsFrom?, symbolsAt_eq]
    refine returns_lift (blanksFrom?_eq h) (returns_lift hblanks.move? ?_)
    split
    · exact returns_pure _
    refine returns_lift (keywordFrom?_eq butNotScan hblanks) ?_
    cases hkey : keyword? butNotScan c.skipBlanks with
    | some d =>
      have hd := hblanks.trans (reaches_keyword? hkey)
      have hle := keyword?_skipBlanks_length_le hkey
      cases before with
      | nil =>
        dsimp only [Option.map_some]
        rw [← hd.offset_eq]
        exact returns_throw _
      | cons left earlier =>
        refine (readsAs_exclusionFrom? hd).bind_returns fun right after hright hafter => ?_
        have hlt := exclusionAt_length_lt hright
        exact ih after.rest.length (by omega) hafter _ rfl
    | none =>
      refine (readsAs_symbolFrom? hblanks).bind_returns fun symbol after hsymbol hafter => ?_
      have hlt := symbolAt_length_lt hsymbol
      have hle : c.skipBlanks.rest.length ≤ c.rest.length := c.skip_length_le isBlank
      exact ih after.rest.length (by omega) hafter _ rfl

theorem alternativesAt_eq (c : Cursor) :
    alternativesAt c =
      if c.skipBlanks.isDone then .ok []
      else do
        let (symbol, after) ← symbolAt c.skipBlanks
        return symbol :: (← alternativesAt after) := by
  rw [alternativesAt]
  split
  · rfl
  split
  · rename_i hsymbol
    simp only [hsymbol]
    rfl
  · rename_i symbol after hsymbol
    simp only [hsymbol]
    show _ = alternativesAt after >>= fun symbols => .ok (symbol :: symbols)
    cases alternativesAt after <;> rfl

theorem returns_alternativesFrom? (h : start.Reaches c) :
    Returns (alternativesFrom? start (start.upTo c)) (alternativesAt c) := by
  -- each symbol leaves less to read
  induction hlength : c.rest.length using Nat.strong_induction_on generalizing c with
  | h length ih =>
    have hblanks := h.trans c.reaches_skipBlanks
    rw [alternativesFrom?, alternativesAt_eq]
    refine returns_lift (blanksFrom?_eq h) (returns_lift hblanks.move? ?_)
    split
    · exact returns_pure _
    refine (readsAs_symbolFrom? hblanks).bind_returns fun symbol after hsymbol hafter => ?_
    have hlt := symbolAt_length_lt hsymbol
    have hle : c.skipBlanks.rest.length ≤ c.rest.length := c.skip_length_le isBlank
    exact (ih after.rest.length (by omega) hafter rfl).bind fun symbols _ => returns_pure _

theorem reaches_guardAt (c : Cursor) : c.Reaches (guardAt c).2 := by
  unfold guardAt
  split
  · rename_i hlist
    exact reaches_bracketed? hlist
  · exact .refl c

theorem guardFrom?_eq (c : Cursor) : guardFrom? c = some ((guardAt c).1, c.upTo (guardAt c).2) := by
  have hlist := bracketedFrom?_eq argumentOperator?_of_guardOperator? (Cursor.Reaches.refl c)
  rw [c.upTo_self] at hlist
  rw [guardFrom?, hlist, guardAt]
  cases bracketed? guardOperator? c with
  | none => simp
  | some found => rfl

theorem bodyAt_of_prose {prose : Text} (h : c.skipBlanks.rest = '>' :: prose) :
    bodyAt c = .ok [.restriction ⟨false, c.skipBlanks.offset⟩ (.prose (Text.trim prose))] := by
  rw [bodyAt, h]
  rfl

theorem bodyAt_of_symbols (h : ∀ prose, c.skipBlanks.rest = '>' :: prose → False) :
    bodyAt c = symbolsAt [] c := by
  unfold bodyAt
  split
  · rename_i prose hprose
    exact (h prose hprose).elim
  · rfl

theorem returns_bodyFrom? (h : start.Reaches c) : Returns (bodyFrom? start (start.upTo c)) (bodyAt c) := by
  have hblanks := h.trans c.reaches_skipBlanks
  unfold bodyFrom?
  refine returns_lift (blanksFrom?_eq h) (returns_lift hblanks.move? ?_)
  rw [← hblanks.offset_eq]
  split
  · rename_i prose hprose
    rw [bodyAt_of_prose hprose]
    exact returns_pure _
  · rename_i hsymbols
    rw [bodyAt_of_symbols hsymbols]
    exact returns_symbolsFrom? h []

theorem returns_rightHandSideFrom? (c : Cursor) : Returns (rightHandSideFrom? c) (rightHandSideAt c) := by
  unfold rightHandSideFrom? rightHandSideAt
  refine returns_lift (guardFrom?_eq c) ((returns_bodyFrom? (reaches_guardAt c)).bind fun symbols _ => ?_)
  split
  · exact returns_throw _
  · exact returns_pure _

end RightHandSides

/-! ## 7. Lines -/

theorem returns_sidesFrom? (tail : Cursor) :
    Returns (sidesFrom? tail) ((headerBody tail).map fun body => (body.rightHandSides, body.isOneOf)) := by
  have hkey := keywordFrom?_eq oneOfScan (Cursor.Reaches.refl tail)
  rw [tail.upTo_self] at hkey
  unfold sidesFrom? headerBody
  refine returns_lift hkey ?_
  cases hof : keyword? oneOfScan tail with
  | none =>
    dsimp only
    rw [map_bind]
    exact (returns_rightHandSideFrom? tail).bind fun side _ => returns_pure _
  | some alternatives =>
    have hread := returns_alternativesFrom? (Cursor.Reaches.refl alternatives)
    rw [alternatives.upTo_self] at hread
    refine returns_lift (reaches_keyword? hof).move? ?_
    dsimp only
    split
    · exact returns_pure _
    · rw [map_bind]
      exact hread.bind fun symbols _ => returns_pure _

theorem returns_pendingFrom? (source : Nat) (line : Line) :
    Returns (pendingFrom? source line) ((headerOf source line).map fun begun => Pending.of begun.1 begun.2) := by
  cases hparts : headerParts? line with
  | none =>
    unfold pendingFrom? headerOf
    rw [hparts]
    exact returns_throw _
  | some parts =>
    rw [headerOf_eq source hparts]
    unfold pendingFrom?
    rw [hparts]
    dsimp only
    generalize parts.parameters.elim _ _ = parameters
    cases parameters with
    | error e => exact returns_throw _
    | ok parameters =>
      have hsides : Returns (parts.tail.elim (pure ([], false)) sidesFrom?)
          ((parts.tail.elim (.ok (.listed [])) headerBody).map fun body => (body.rightHandSides, body.isOneOf)) := by
        cases parts.tail with
        | none => exact returns_pure _
        | some tail => exact returns_sidesFrom? tail
      exact hsides.bind_map fun body _ => returns_pure _

/-- One line read by positions. -/
theorem Progress.stepAt?_eq (source : Nat) (s : Progress) (line : Line) :
    s.stepAt? source line = s.step? source line := by
  have hpending : (pendingFrom? source line).run = some _ := returns_pendingFrom? source line
  have halternatives : (alternativesFrom? (.atStart line.text line.start) 0).run =
      some (alternativesAt (.atStart line.text line.start)) := by
    have h := returns_alternativesFrom? (Cursor.Reaches.refl (.atStart line.text line.start))
    rwa [Cursor.upTo_self] at h
  have hside : (rightHandSideFrom? (.atStart line.text line.start)).run = some _ := returns_rightHandSideFrom? _
  unfold stepAt? step?
  split
  · rw [hpending, pendingOf?_eq]
    cases headerOf source line <;> rfl
  cases s.current with
  | none => rfl
  | some pending =>
    dsimp only
    split
    · rw [halternatives]
      cases alternativesAt (.atStart line.text line.start) with
      | error e => rfl
      | ok symbols =>
        show (extend? _ _ _ >>= fun sides => some (s.setSides pending sides)) = Option.map _ (extend? _ _ _)
        cases extend? line.start symbols pending.production.rightHandSides <;> rfl
    · rw [hside]
      cases rightHandSideAt (.atStart line.text line.start) <;> rfl

/-- Reading a text by positions never fails. -/
theorem readAt?_eq (source : Nat) (text : Text) : readAt? source text = some (readSource source text) := by
  have hstep : Progress.stepAt? source = Progress.step? source :=
    funext fun s => funext fun line => s.stepAt?_eq source line
  rw [← readByLine?_eq, readAt?, readByLine?, Progress.run?, hstep]
  cases text.lines.foldlM (Progress.step? source) Progress.start <;> rfl

/-- Compiling by positions never fails. -/
theorem compileAt?_eq (sources : List Text) (checks : Bool) :
    compileAt? sources checks = some (compile sources checks) := by
  have hread : (sources.zipIdx.mapM fun (text, i) => readAt? i text) =
      some (sources.zipIdx.map fun (text, i) => readSource i text) := by
    simp only [readAt?_eq]
    exact List.mapM_pure
  unfold compileAt? compile
  rw [hread]
  cases checks <;> rfl

end Errata.Grammar
