import Errata.Proofs.Grammar.Faithful

/-!
# Grammar as it is written

How right-hand sides are written, and which of them can be. A symbol that stands alone, a terminal, a
nonterminal or a restriction, is read as it is written wherever a space or nothing follows it.
-/

namespace Errata.Grammar

open Text

/-! ## 1. Writing -/

def Operator.sign : Operator → Char
  | plus => '+'
  | tilde => '~'
  | question => '?'

def Argument.written (a : Argument) : Text := a.operator.sign :: a.name

/-- A list of arguments between brackets. -/
def writtenArguments : List Argument → Text
  | [] => ['[', ']']
  | a :: as => '[' :: (a.written ++ (as.flatMap (',' :: ' ' :: ·.written) ++ [']']))

def Restriction.written : Restriction → Text
  | noLineTerminator => "no LineTerminator here".toList
  | lookahead text => text
  | prose text => '>' :: ' ' :: text

/-- What stands after an optional symbol. -/
def Mark.written (mark : Mark) : Text := if mark.optional then ['?'] else []

mutual

def Symbol.written : Symbol → Text
  | .terminal mark text => '\x60' :: (text ++ '\x60' :: mark.written)
  | .nonterminal mark name arguments => name ++ (arguments.elim [] writtenArguments ++ mark.written)
  | .butNot _ left right => left.written ++ (" but not ".toList ++ right.written)
  | .oneOf _ alternatives => "one".toList ++ Symbol.writtenEach " of ".toList alternatives
  | .empty _ => '[' :: ("empty".toList ++ [']'])
  | .restriction _ kind => '[' :: (kind.written ++ [']'])

/-- Symbols with `lead` before the first and the word `or` before each other. -/
def Symbol.writtenEach (lead : Text) : List Symbol → Text
  | [] => []
  | s :: ss => lead ++ (s.written ++ Symbol.writtenEach " or ".toList ss)

end

/-- Symbols with a space between them. -/
def writtenSymbols : List Symbol → Text
  | [] => []
  | s :: ss => s.written ++ ss.flatMap (' ' :: ·.written)

def RightHandSide.written (side : RightHandSide) : Text :=
  match side.guard with
  | none => writtenSymbols side.symbols
  | some guard => writtenArguments guard.conditions ++ ' ' :: writtenSymbols side.symbols

/-! ## 2. What can be written -/

/-- A list of arguments with the given signs that can be written. -/
structure AreArguments (operator? : Char → Option Operator) (as : List Argument) : Prop where
  ne_nil : as ≠ []
  sign : ∀ a ∈ as, operator? a.operator.sign = some a.operator
  name : ∀ a ∈ as, IsName a.name

/-- The text can stand between brackets and end at the closing one. -/
abbrev IsInner (text : Text) : Prop := '[' ∉ text ∧ ']' ∉ text ∧ '\x60' ∉ text

/-- The text of a restriction: trimmed and on one line, without brackets and backquotes. -/
structure IsNote (text : Text) : Prop where
  trim : text.trim = text
  inner : IsInner text
  line : '\n' ∉ text

inductive Symbol.IsSimple : Symbol → Prop
  | terminal {mark : Mark} {text : Text} (h : '\x60' ∉ text) (hline : '\n' ∉ text) :
      IsSimple (.terminal mark text)
  | nonterminal {mark : Mark} {name : Text} {arguments : Option (List Argument)} (hname : IsName name)
      (hkeyword : name ∉ ["but".toList, "one".toList, "or".toList])
      (harguments : ∀ as ∈ arguments, AreArguments argumentOperator? as) :
      IsSimple (.nonterminal mark name arguments)
  | empty {offset : Nat} : IsSimple (.empty ⟨false, offset⟩)
  | noLineTerminator {offset : Nat} : IsSimple (.restriction ⟨false, offset⟩ .noLineTerminator)
  | lookahead {offset : Nat} {text : Text} (h : IsNote text) (hword : "lookahead".toList <+: text) :
      IsSimple (.restriction ⟨false, offset⟩ (.lookahead text))
  | prose {offset : Nat} {text : Text} (h : IsNote text) :
      IsSimple (.restriction ⟨false, offset⟩ (.prose text))

/-- What may be excluded: a simple symbol, or one of several. -/
inductive Symbol.IsExclusion : Symbol → Prop
  | simple {s : Symbol} (h : s.IsSimple) : IsExclusion s
  | oneOf {offset : Nat} {alternatives : List Symbol} (hne : alternatives ≠ [])
      (h : ∀ s ∈ alternatives, s.IsSimple) : IsExclusion (.oneOf ⟨false, offset⟩ alternatives)

inductive Symbol.IsWritable : Symbol → Prop
  | simple {s : Symbol} (h : s.IsSimple) : IsWritable s
  | butNot {offset : Nat} {left right : Symbol} (hleft : IsWritable left) (hright : right.IsExclusion) :
      IsWritable (.butNot ⟨false, offset⟩ left right)

structure RightHandSide.IsWritable (side : RightHandSide) : Prop where
  guard : ∀ guard ∈ side.guard, AreArguments guardOperator? guard.conditions
  ne_nil : side.symbols ≠ []
  symbols : ∀ s ∈ side.symbols, s.IsWritable

/-! ## 3. Symbols without their positions -/

mutual

def Symbol.plain : Symbol → Symbol
  | .terminal mark text => .terminal { mark with offset := 0 } text
  | .nonterminal mark name arguments => .nonterminal { mark with offset := 0 } name arguments
  | .butNot mark left right => .butNot { mark with offset := 0 } left.plain right.plain
  | .oneOf mark alternatives => .oneOf { mark with offset := 0 } (Symbol.plainAll alternatives)
  | .empty mark => .empty { mark with offset := 0 }
  | .restriction mark kind => .restriction { mark with offset := 0 } kind

def Symbol.plainAll : List Symbol → List Symbol
  | [] => []
  | s :: ss => s.plain :: Symbol.plainAll ss

end

def RightHandSide.plain (side : RightHandSide) : RightHandSide where
  guard := side.guard.map fun guard => { guard with offset := 0 }
  symbols := side.symbols.map Symbol.plain
  offset := 0

/-! ## 4. Names and keywords -/

/-- A character of a name as its number. -/
theorem isNameChar_iff (c : Char) :
    isNameChar c = true ↔ 65 ≤ c.toNat ∧ c.toNat ≤ 90 ∨ 97 ≤ c.toNat ∧ c.toNat ≤ 122 ∨
      48 ≤ c.toNat ∧ c.toNat ≤ 57 ∨ c.toNat = 95 := by
  have hunderscore : c = '_' ↔ c.toNat = 95 := by
    rw [← Char.toNat_inj]
    rfl
  show ((decide (c.val ≥ 'A'.val ∧ c.val ≤ 'Z'.val) || c.val ≥ 'a'.val && c.val ≤ 'z'.val ||
    c.val ≥ '0'.val && c.val ≤ '9'.val) || c == '_') = true ↔ _
  simp only [Bool.or_eq_true, Bool.and_eq_true, decide_eq_true_eq, beq_iff_eq, hunderscore, ge_iff_le,
    UInt32.le_iff_toNat_le]
  show ((65 ≤ c.toNat ∧ c.toNat ≤ 90 ∨ 97 ≤ c.toNat ∧ c.toNat ≤ 122) ∨
    48 ≤ c.toNat ∧ c.toNat ≤ 57) ∨ c.toNat = 95 ↔ _
  omega

theorem isBlank_of_isNameChar {c : Char} (h : isNameChar c = true) : isBlank c = false := by
  have hc := (isNameChar_iff c).mp h
  unfold isBlank
  simp only [Bool.or_eq_false_iff, Bool.and_eq_false_iff, decide_eq_false_iff_not, beq_eq_false_iff_ne]
  omega

theorem isWord_of_isNameChar {c : Char} (h : isNameChar c = true) : isWord c = true := by
  have hascii : isAscii c = true := by
    have hc := (isNameChar_iff c).mp h
    rw [isAscii, decide_eq_true_eq]
    omega
  rw [isWord, if_pos hascii]
  exact h

theorem isNameChar_of_isNameStart {c : Char} (h : isNameStart c = true) : isNameChar c = true := by
  simp only [isNameStart, isAsciiLetter, isNameChar, isAsciiAlphanum, Char.isAlphanum,
    Bool.or_eq_true] at h ⊢
  exact h.imp_left .inl

theorem IsName.isNameChar {name : Text} (h : IsName name) : ∀ c ∈ name, isNameChar c = true := by
  obtain ⟨first, rest, rfl, hfirst, hrest⟩ := h
  exact List.forall_mem_cons.mpr ⟨isNameChar_of_isNameStart hfirst, hrest⟩

/-- No name goes on into the text. -/
def EndsName (t : Text) : Prop := ∀ c ∈ t.head?, isNameChar c = false

theorem takeWhile_append_of_head {p : Char → Bool} {s t : Text} (hs : ∀ c ∈ s, p c = true)
    (ht : ∀ c ∈ t.head?, p c = false) : (s ++ t).takeWhile p = s := by
  rw [List.takeWhile_append_of_pos hs]
  cases t with
  | nil => exact List.append_nil s
  | cons c t =>
    rw [List.takeWhile_cons_of_neg (by rw [ht c rfl]; exact Bool.false_ne_true), List.append_nil]

theorem nameScan_append {name more : Text} (hname : IsName name) (hmore : EndsName more) :
    nameScan (name ++ more) = some name.length := by
  obtain ⟨first, rest, rfl, hfirst, hrest⟩ := hname
  have hmany : (rest ++ more).takeWhile isNameChar = rest := takeWhile_append_of_head hrest hmore
  simp only [nameScan, Scan.seq, Scan.one, Scan.many, List.cons_append, hfirst, if_true, Option.bind_some,
    List.drop_one, List.tail_cons, hmany, Option.map_some, List.length_cons]
  rw [Nat.add_comm, Nat.add_zero]

/-- A word that stands at the start of a name and what follows it stands in the name. -/
theorem exists_of_prefix_name {word name more : Text} (h : word <+: name ++ more)
    (hword : ∀ c ∈ word, isNameChar c = true) (hmore : EndsName more) : ∃ rest, name = word ++ rest := by
  rcases List.prefix_or_prefix_of_prefix h (List.prefix_append name more) with hpre | hpre
  · obtain ⟨rest, hrest⟩ := hpre
    exact ⟨rest, hrest.symm⟩
  · -- otherwise the word goes on where the name ends, with a character of a name
    obtain ⟨rest, rfl⟩ := hpre
    have hrest : rest <+: more := (List.prefix_append_right_inj name).mp h
    cases rest with
    | nil => exact ⟨[], by simp⟩
    | cons c rest =>
      obtain ⟨after, rfl⟩ := hrest
      have hc := hmore c rfl
      rw [hword c (List.mem_append_right _ List.mem_cons_self)] at hc
      cases hc

/-- The text begins with a character that is not blank, and not with a keyword or a line of prose. -/
structure Begins (t : Text) : Prop where
  head : ∃ c rest, t = c :: rest ∧ isBlank c = false ∧ c ≠ '>'
  butNot : butNotScan t = none
  oneOf : oneOfScan t = none
  or : orScan t = none

theorem Begins.trimStart_eq {t : Text} (h : Begins t) : t.trimStart = t := by
  obtain ⟨first, rest, rfl, hfirst, -⟩ := h.head
  refine trimStart_eq_self fun c hc => ?_
  cases hc
  exact hfirst

theorem begins_backquote (t : Text) : Begins ('\x60' :: t) :=
  ⟨⟨_, t, rfl, by decide, by decide⟩, rfl, rfl, rfl⟩

theorem begins_bracket (t : Text) : Begins ('[' :: t) :=
  ⟨⟨_, t, rfl, by decide, by decide⟩, rfl, rfl, rfl⟩

/-- A keyword ends where no name goes on, so it does not stand at the start of another name. -/
theorem seq_literal_eq_none {word : String} {next : Scan} {scans : List Scan} {name more : Text}
    (hword : ∀ c ∈ word.toList, isNameChar c = true) (hname : IsName name) (hne : name ≠ word.toList)
    (hmore : EndsName more) (hnext : ∀ c t, isNameChar c = true → next (c :: t) = none) :
    Scan.seq (.literal word :: next :: scans) (name ++ more) = none := by
  refine Option.eq_none_iff_forall_ne_some.mpr fun n h => ?_
  obtain ⟨a, b, hliteral, hrest, -⟩ := Scan.seq_cons_eq_some_iff.mp h
  obtain ⟨hpre, rfl⟩ := Scan.literal_eq_some_iff.mp hliteral
  obtain ⟨rest, rfl⟩ := exists_of_prefix_name hpre hword hmore
  cases rest with
  | nil => exact hne (List.append_nil _)
  | cons c rest =>
    obtain ⟨_, _, hsome, -⟩ := Scan.seq_cons_eq_some_iff.mp hrest
    rw [List.append_assoc, List.drop_left] at hsome
    rw [List.cons_append, hnext c _ (hname.isNameChar c (List.mem_append_right _ List.mem_cons_self))]
      at hsome
    cases hsome

theorem begins_name {name more : Text} (hname : IsName name)
    (hkeyword : name ∉ ["but".toList, "one".toList, "or".toList]) (hmore : EndsName more) :
    Begins (name ++ more) := by
  have hblanks : ∀ c t, isNameChar c = true → Scan.blanks1 (c :: t) = none := by
    intro c t hc
    rw [Scan.blanks1, Scan.some1, List.takeWhile_cons_of_neg (by simp [isBlank_of_isNameChar hc])]
    rfl
  have hboundary : ∀ c t, isNameChar c = true → Scan.notBefore isWord (c :: t) = none := by
    intro c t hc
    rw [Scan.notBefore, List.head?_cons, Option.any_some, if_pos (isWord_of_isNameChar hc)]
  simp only [List.mem_cons, List.not_mem_nil, or_false, not_or] at hkeyword
  obtain ⟨hbut, hone, hor⟩ := hkeyword
  -- blanks have to follow the first two words, and no word the third
  refine ⟨?_, seq_literal_eq_none (List.all_eq_true.mp rfl) hname hbut hmore hblanks,
    seq_literal_eq_none (List.all_eq_true.mp rfl) hname hone hmore hblanks,
    seq_literal_eq_none (List.all_eq_true.mp rfl) hname hor hmore hboundary⟩
  obtain ⟨first, rest, rfl, hfirst, -⟩ := hname
  have hchar := isNameChar_of_isNameStart hfirst
  refine ⟨first, rest ++ more, rfl, isBlank_of_isNameChar hchar, ?_⟩
  rintro rfl
  cases hfirst

/-! ## 5. Arguments -/

theorem endsName_cons {c : Char} (t : Text) (h : isNameChar c = false) : EndsName (c :: t) := by
  intro d hd
  cases hd
  exact h

theorem rest_skipBlanks_of_head {c : Cursor} {first : Char} {rest : Text} (hrest : c.rest = first :: rest)
    (hfirst : isBlank first = false) : c.skipBlanks.rest = first :: rest := by
  rw [Cursor.rest_skipBlanks, hrest, List.dropWhile_cons_of_neg (by simp [hfirst])]

theorem rest_skipBlanks_of_space {c : Cursor} {first : Char} {rest : Text}
    (hrest : c.rest = ' ' :: first :: rest) (hfirst : isBlank first = false) :
    c.skipBlanks.rest = first :: rest := by
  rw [Cursor.rest_skipBlanks, hrest, List.dropWhile_cons_of_pos (by decide),
    List.dropWhile_cons_of_neg (by simp [hfirst])]

theorem argumentAt?_written {operator? : Char → Option Operator} {a : Argument} {c : Cursor} {more : Text}
    (hsign : operator? a.operator.sign = some a.operator) (hname : IsName a.name) (hmore : EndsName more)
    (hrest : c.rest = a.written ++ more) :
    ∃ d, argumentAt? operator? c = some (a, d) ∧ d.rest = more := by
  have hafter : (c.advance 1).rest = a.name ++ more := by
    rw [Cursor.rest_advance, hrest]
    rfl
  have hscan : (c.advance 1).scan? nameScan =
      some (⟨a.name, (c.advance 1).offset⟩, (c.advance 1).advance a.name.length) := by
    rw [Cursor.scan?, hafter, nameScan_append hname hmore, Option.map_some, Cursor.fragment, hafter,
      List.take_left]
  refine ⟨(c.advance 1).advance a.name.length, ?_, ?_⟩
  · have hhead : c.rest.head? = some a.operator.sign := by
      rw [hrest]
      rfl
    rw [argumentAt?, hhead, hscan]
    show (operator? a.operator.sign).bind _ = _
    rw [hsign]
    rfl
  · rw [Cursor.rest_advance, hafter, List.drop_left]

theorem argumentsAt?_of_bracket {operator? : Char → Option Operator} {a : Argument} {c d : Cursor}
    {tail : Text} (ha : argumentAt? operator? c = some (a, d)) (hrest : d.skipBlanks.rest = ']' :: tail) :
    argumentsAt? operator? c = some ([a], d.skipBlanks.advance 1) := by
  rw [argumentsAt?]
  split
  · rename_i hnone
    rw [ha] at hnone
    cases hnone
  · rename_i first after hsome
    rw [ha] at hsome
    cases hsome
    rw [hrest]
    rfl

theorem argumentsAt?_of_comma {operator? : Char → Option Operator} {a : Argument} {c d : Cursor}
    {tail : Text} (ha : argumentAt? operator? c = some (a, d)) (hrest : d.skipBlanks.rest = ',' :: tail) :
    argumentsAt? operator? c = (argumentsAt? operator? (d.skipBlanks.advance 1).skipBlanks).map
      fun found => (a :: found.1, found.2) := by
  rw [argumentsAt?]
  split
  · rename_i hnone
    rw [ha] at hnone
    cases hnone
  · rename_i first after hsome
    rw [ha] at hsome
    cases hsome
    rw [hrest]
    rfl

theorem Operator.isBlank_sign (operator : Operator) : isBlank operator.sign = false := by
  cases operator <;> rfl

theorem argumentsAt?_written {operator? : Char → Option Operator} {a : Argument} {as : List Argument}
    {c : Cursor} {tail : Text} (has : AreArguments operator? (a :: as))
    (hrest : c.rest = a.written ++ (as.flatMap (',' :: ' ' :: ·.written) ++ ']' :: tail)) :
    ∃ d, argumentsAt? operator? c = some (a :: as, d) ∧ d.rest = tail := by
  induction as generalizing a c with
  | nil =>
    obtain ⟨d, hd, hafter⟩ := argumentAt?_written (has.sign a List.mem_cons_self)
      (has.name a List.mem_cons_self) (endsName_cons tail (by decide)) hrest
    have hskip := rest_skipBlanks_of_head hafter (by decide)
    exact ⟨_, argumentsAt?_of_bracket hd hskip, by rw [Cursor.rest_advance, hskip]; rfl⟩
  | cons b as ih =>
    rw [List.flatMap_cons, List.append_assoc] at hrest
    obtain ⟨d, hd, hafter⟩ := argumentAt?_written (has.sign a List.mem_cons_self)
      (has.name a List.mem_cons_self) (endsName_cons _ (by decide)) hrest
    have hskip := rest_skipBlanks_of_head hafter (by decide)
    have hnext : (d.skipBlanks.advance 1).rest = ' ' :: (b.operator.sign :: (b.name ++
        (as.flatMap (',' :: ' ' :: ·.written) ++ ']' :: tail))) := by
      rw [Cursor.rest_advance, hskip]
      rfl
    obtain ⟨e, he, htail⟩ := ih ⟨List.cons_ne_nil b as,
      fun x hx => has.sign x (List.mem_cons_of_mem a hx), fun x hx => has.name x (List.mem_cons_of_mem a hx)⟩
      (rest_skipBlanks_of_space hnext b.operator.isBlank_sign)
    refine ⟨e, ?_, htail⟩
    rw [argumentsAt?_of_comma hd hskip, he]
    rfl

theorem bracketed?_written {operator? : Char → Option Operator} {as : List Argument} {c : Cursor}
    {tail : Text} (has : AreArguments operator? as) (hrest : c.rest = writtenArguments as ++ tail) :
    ∃ d, bracketed? operator? c = some (as, d) ∧ d.rest = tail := by
  cases as with
  | nil => exact absurd rfl has.ne_nil
  | cons a as =>
    have hhead : c.rest.head? = some '[' := by
      rw [hrest]
      rfl
    have hafter : (c.advance 1).rest = a.operator.sign :: (a.name ++
        (as.flatMap (',' :: ' ' :: ·.written) ++ ']' :: tail)) := by
      rw [Cursor.rest_advance, hrest]
      simp [writtenArguments, Argument.written]
    rw [bracketed?, if_pos hhead]
    exact argumentsAt?_written has (rest_skipBlanks_of_head hafter a.operator.isBlank_sign)

/-! ## 6. Symbols -/

/-- What may follow a symbol: nothing, or a space. -/
def Breaks (t : Text) : Prop := ∀ c ∈ t.head?, c = ' '

theorem breaks_nil : Breaks [] := by
  intro c hc
  cases hc

theorem breaks_space (t : Text) : Breaks (' ' :: t) := by
  intro c hc
  cases hc
  rfl

theorem optionalMark_written {c : Cursor} {mark : Mark} {tail : Text} (htail : Breaks tail)
    (hrest : c.rest = mark.written ++ tail) :
    (optionalMark c).1 = mark.optional ∧ (optionalMark c).2.rest = tail := by
  rw [Mark.written] at hrest
  rw [optionalMark, hrest]
  by_cases hmark : mark.optional = true
  · simp [hmark, hrest]
  · have hnone : tail.head? ≠ some '?' := fun h => absurd (htail _ h) (by decide)
    simp [hmark, hnone, hrest]

theorem argumentList_written {arguments : Option (List Argument)} {c : Cursor} {tail : Text}
    (harguments : ∀ as ∈ arguments, AreArguments argumentOperator? as)
    (hrest : c.rest = arguments.elim [] writtenArguments ++ tail) (htail : tail.head? ≠ some '[') :
    ∃ d, argumentList c = .ok (arguments, d) ∧ d.rest = tail := by
  cases arguments with
  | none =>
    refine ⟨c, ?_, hrest⟩
    rw [argumentList, if_neg (by rw [hrest]; exact htail)]
  | some as =>
    obtain ⟨d, hd, hafter⟩ := bracketed?_written (harguments as rfl) hrest
    obtain ⟨hhead, -⟩ := leads_bracketed? hd
    exact ⟨d, by rw [argumentList, if_pos hhead, hd], hafter⟩

/-- Between brackets the text goes through to the closing bracket. -/
theorem bracketWidth?_written {inner : Text} (tail : Text) (hinner : IsInner inner) :
    bracketWidth? 1 false (inner ++ ']' :: tail) = some (inner.length + 1) := by
  induction inner with
  | nil => rfl
  | cons c inner ih =>
    simp only [IsInner, List.mem_cons, not_or] at hinner
    obtain ⟨⟨hopen, hopens⟩, ⟨hclose, hcloses⟩, hquote, hquotes⟩ := hinner
    rw [List.cons_append, bracketWidth?, if_neg (Ne.symm hquote), if_neg (by simp [Ne.symm hopen]),
      if_neg (by simp [Ne.symm hclose]), ih ⟨hopens, hcloses, hquotes⟩]
    rfl

theorem restrictionAt_written {inner tail : Text} {c : Cursor} {s : Symbol}
    (hinner : IsInner inner) (hrest : c.rest = '[' :: (inner ++ ']' :: tail))
    (hread : restrictionOf? ⟨false, c.offset⟩ inner.trim = some s) :
    ∃ d, restrictionAt c = .ok (s, d) ∧ d.rest = tail := by
  have hwidth : bracketWidth? 0 false c.rest = some (inner.length + 2) := by
    rw [hrest, bracketWidth?, if_neg (by decide), if_pos (by decide), bracketWidth?_written tail hinner]
    rfl
  have hbetween : (c.rest.take (inner.length + 2 - 1)).drop 1 = inner := by
    show (c.rest.take (inner.length + 1)).drop 1 = inner
    rw [hrest, List.take_succ_cons, List.take_left]
    rfl
  refine ⟨c.advance (inner.length + 2), ?_, ?_⟩
  · rw [restrictionAt, hwidth]
    dsimp only
    rw [hbetween, hread]
  · rw [Cursor.rest_advance, hrest, List.drop_succ_cons, List.append_cons, ← List.length_singleton,
      ← List.length_append, List.drop_left]

theorem restrictionOf?_lookahead {mark : Mark} {text : Text} (hword : "lookahead".toList <+: text) :
    restrictionOf? mark text = some (.restriction mark (.lookahead text)) := by
  have hstarts : text.startsWith "lookahead" = true := List.isPrefixOf_iff_prefix.mpr hword
  obtain ⟨rest, rfl⟩ := hword
  unfold restrictionOf?
  rw [if_neg (by simp), if_neg (by exact Bool.false_ne_true), if_pos hstarts]

theorem restrictionOf?_prose {mark : Mark} {text : Text} (htext : text.trim = text) :
    restrictionOf? mark (trim ('>' :: ' ' :: text)) = some (.restriction mark (.prose text)) := by
  -- an empty text leaves a blank, which is trimmed
  obtain ⟨prose, hprose, htrim⟩ : ∃ prose : Text,
      trim ('>' :: ' ' :: text) = '>' :: prose ∧ prose.trim = text := by
    cases text with
    | nil => exact ⟨[], by decide, rfl⟩
    | cons c rest =>
      refine ⟨' ' :: c :: rest, ?_, ?_⟩
      · rw [trim, trimStart_eq_self (by simp [isBlank])]
        refine trimEnd_eq_self fun d hd => isBlank_getLast_of_trim htext d ?_
        rwa [List.getLast?_cons_cons, List.getLast?_cons_cons] at hd
      · rw [trim, trimStart, List.dropWhile_cons_of_pos (by decide)]
        exact htext
  unfold restrictionOf?
  rw [hprose, if_neg (by simp), if_neg (by exact Bool.false_ne_true),
    if_neg (by exact Bool.false_ne_true), ← htrim]
  rfl

theorem symbolAt_bracket {c : Cursor} {t : Text} (hrest : c.rest = '[' :: t) :
    symbolAt c = restrictionAt c := by
  unfold symbolAt
  rw [hrest]
  rfl

theorem EndsName.of_breaks {tail : Text} (h : Breaks tail) : EndsName tail := by
  intro c hc
  rw [h c hc]
  decide

/-- What follows a name is no part of it. -/
theorem endsName_written {arguments : Option (List Argument)} {mark : Mark} {tail : Text}
    (htail : Breaks tail) : EndsName (arguments.elim [] writtenArguments ++ (mark.written ++ tail)) := by
  cases arguments with
  | some as =>
    cases as with
    | nil => exact endsName_cons _ (by decide)
    | cons a as => exact endsName_cons _ (by decide)
  | none =>
    rw [Option.elim_none, List.nil_append, Mark.written]
    split
    · exact endsName_cons _ (by decide)
    · exact .of_breaks htail

theorem head_written_ne {mark : Mark} {tail : Text} (htail : Breaks tail) :
    (mark.written ++ tail).head? ≠ some '[' := by
  rw [Mark.written]
  split
  · simp
  · intro h
    cases htail _ h

theorem symbolAt_backquote {c : Cursor} {t : Text} (hrest : c.rest = '\x60' :: t)
    (hclosed : (t.takeWhile (· ≠ '\x60')).length < t.length) :
    symbolAt c =
      let text := t.takeWhile (· ≠ '\x60')
      let found := optionalMark (c.advance (text.length + 2))
      .ok (.terminal ⟨found.1, c.offset⟩ text, found.2) := by
  unfold symbolAt
  rw [hrest]
  exact if_pos hclosed

theorem symbolAt_terminal {mark : Mark} {text tail : Text} {c : Cursor} (h : '\x60' ∉ text)
    (htail : Breaks tail) (hrest : c.rest = '\x60' :: (text ++ '\x60' :: (mark.written ++ tail))) :
    ∃ d, symbolAt c = .ok (.terminal ⟨mark.optional, c.offset⟩ text, d) ∧ d.rest = tail := by
  have htext : (text ++ '\x60' :: (mark.written ++ tail)).takeWhile (· ≠ '\x60') = text := by
    refine takeWhile_append_of_head (fun d hd => ?_) ?_
    · exact decide_eq_true fun heq => h (heq ▸ hd)
    · intro d hd
      cases hd
      decide
  have hafter : (c.advance (text.length + 2)).rest = mark.written ++ tail := by
    rw [Cursor.rest_advance, hrest, List.drop_succ_cons, List.append_cons, ← List.length_singleton,
      ← List.length_append, List.drop_left]
  obtain ⟨hoptional, htail⟩ := optionalMark_written htail hafter
  refine ⟨(optionalMark (c.advance (text.length + 2))).2, ?_, htail⟩
  rw [symbolAt_backquote hrest (by rw [htext]; simp), htext, ← hoptional]

theorem symbolAt_nonterminal {mark : Mark} {name tail : Text} {arguments : Option (List Argument)}
    {c : Cursor} (hname : IsName name) (harguments : ∀ as ∈ arguments, AreArguments argumentOperator? as)
    (htail : Breaks tail)
    (hrest : c.rest = name ++ (arguments.elim [] writtenArguments ++ (mark.written ++ tail))) :
    ∃ d, symbolAt c = .ok (.nonterminal ⟨mark.optional, c.offset⟩ name arguments, d) ∧ d.rest = tail := by
  have hscan : nameScan c.rest = some name.length := by
    rw [hrest, nameScan_append hname (endsName_written htail)]
  have hafter : (c.advance name.length).rest =
      arguments.elim [] writtenArguments ++ (mark.written ++ tail) := by
    rw [Cursor.rest_advance, hrest, List.drop_left]
  obtain ⟨d, hd, hmark⟩ := argumentList_written harguments hafter (head_written_ne htail)
  obtain ⟨hoptional, htail⟩ := optionalMark_written htail hmark
  refine ⟨(optionalMark d).2, ?_, htail⟩
  have hname' := hname
  obtain ⟨first, rest, rfl, hfirst, -⟩ := hname'
  unfold symbolAt
  -- a name begins with no backquote, square or angle bracket
  split
  · rename_i t ht
    rw [hrest] at ht
    cases ht
    cases hfirst
  · rename_i t ht
    rw [hrest] at ht
    cases ht
    cases hfirst
  · have hangle : angleScan c.rest = none := by
      have hne : first ≠ '<' := by
        rintro rfl
        cases hfirst
      rw [hrest, angleScan, Scan.seq, List.cons_append, Scan.char, Scan.one, if_neg (by simp [hne])]
      rfl
    rw [hangle, hscan]
    dsimp only
    rw [hd, hrest, List.take_left]
    show Except.ok _ = _
    rw [hoptional]

/-- A simple symbol is read as it is written. -/
theorem symbolAt_written {s : Symbol} (hs : s.IsSimple) {c : Cursor} {tail : Text} (htail : Breaks tail)
    (hrest : c.rest = s.written ++ tail) :
    ∃ read d, symbolAt c = .ok (read, d) ∧ read.plain = s.plain ∧ d.rest = tail := by
  -- a restriction is what stands between its brackets
  have hbracket : ∀ (inner : Text) (read : Symbol), c.rest = '[' :: (inner ++ [']']) ++ tail →
      IsInner inner → restrictionOf? ⟨false, c.offset⟩ inner.trim = some read →
      read.plain = s.plain → ∃ read d, symbolAt c = .ok (read, d) ∧ read.plain = s.plain ∧ d.rest = tail := by
    intro inner read hrest hinner hread hplain
    rw [List.cons_append, ← List.append_cons] at hrest
    obtain ⟨d, hd, hafter⟩ := restrictionAt_written hinner hrest hread
    exact ⟨read, d, by rw [symbolAt_bracket hrest, hd], hplain, hafter⟩
  cases hs with
  | terminal h hline =>
    rw [Symbol.written, List.cons_append, List.append_assoc, List.cons_append] at hrest
    obtain ⟨d, hd, hafter⟩ := symbolAt_terminal h htail hrest
    exact ⟨_, d, hd, rfl, hafter⟩
  | nonterminal hname hkeyword harguments =>
    rw [Symbol.written, List.append_assoc, List.append_assoc] at hrest
    obtain ⟨d, hd, hafter⟩ := symbolAt_nonterminal hname harguments htail hrest
    exact ⟨_, d, hd, rfl, hafter⟩
  | empty => exact hbracket "empty".toList (.empty ⟨false, c.offset⟩) hrest (by decide) rfl rfl
  | noLineTerminator =>
    exact hbracket "no LineTerminator here".toList (.restriction ⟨false, c.offset⟩ .noLineTerminator)
      hrest (by decide) rfl rfl
  | @lookahead offset text h hword =>
    refine hbracket text (.restriction ⟨false, c.offset⟩ (.lookahead text)) hrest h.inner ?_ rfl
    rw [h.trim]
    exact restrictionOf?_lookahead hword
  | @prose offset text h =>
    have hinner : IsInner ('>' :: ' ' :: text) := by simpa [IsInner] using h.inner
    exact hbracket ('>' :: ' ' :: text) (.restriction ⟨false, c.offset⟩ (.prose text)) hrest hinner
      (restrictionOf?_prose h.trim) rfl

theorem begins_written {s : Symbol} (hs : s.IsSimple) {tail : Text} (htail : Breaks tail) :
    Begins (s.written ++ tail) := by
  cases hs with
  | terminal h hline => exact begins_backquote _
  | nonterminal hname hkeyword harguments =>
    rw [Symbol.written, List.append_assoc, List.append_assoc]
    exact begins_name hname hkeyword (endsName_written htail)
  | empty => exact begins_bracket _
  | noLineTerminator => exact begins_bracket _
  | lookahead h hword => exact begins_bracket _
  | prose h => exact begins_bracket _

end Errata.Grammar
