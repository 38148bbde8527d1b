import Errata.Proofs.Grammar.Ledger
import Errata.Proofs.Grammar.Written

/-!
# Reading what was written

A right-hand side that can be written is read with the same guard and the same symbols. No keyword, bracket
or mark in it is taken for another: each reader comes to the end of what it reads and to nothing more.
-/

namespace Errata.Grammar

open Text

/-! ## 1. Exclusions -/

/-- A keyword and a space lead to what stands behind them. -/
theorem keyword?_written {s : Scan} {c : Cursor} {word t : Text}
    (hscan : s (word ++ ' ' :: t) = some word.length) (hrest : c.rest = word ++ ' ' :: t)
    (ht : t.trimStart = t) : ∃ d, keyword? s c = some d ∧ d.rest = t := by
  refine ⟨(c.advance word.length).skipBlanks, ?_, ?_⟩
  · rw [keyword?, Cursor.scan?, hrest, hscan]
    rfl
  · rw [Cursor.rest_skipBlanks, Cursor.rest_advance, hrest, List.drop_left]
    exact ht

theorem keyword?_eq_none {s : Scan} {c : Cursor} (h : s c.rest = none) : keyword? s c = none := by
  rw [keyword?, Cursor.scan?, h]
  rfl

theorem orScan_written (t : Text) : orScan ("or".toList ++ ' ' :: t) = some "or".toList.length := rfl

theorem oneOfScan_written (t : Text) :
    oneOfScan ("one of".toList ++ ' ' :: t) = some "one of".toList.length := rfl

theorem butNotScan_written (t : Text) :
    butNotScan ("but not".toList ++ ' ' :: t) = some "but not".toList.length := rfl

/-- What may follow an exclusion: nothing, or a space and no further alternative. -/
structure Continues (t : Text) : Prop where
  breaks : Breaks t
  or : orScan t.trimStart = none

theorem moreAlternatives_of_none {c : Cursor} (h : keyword? orScan c.skipBlanks = none) :
    moreAlternatives c = .ok ([], c.skipBlanks) := by
  rw [moreAlternatives]
  split
  · rfl
  · rename_i d hd
    rw [h] at hd
    cases hd

theorem moreAlternatives_of_some {c d e : Cursor} {s : Symbol}
    (h : keyword? orScan c.skipBlanks = some d) (hs : symbolAt d = .ok (s, e)) :
    moreAlternatives c = (moreAlternatives e).map fun found => (s :: found.1, found.2) := by
  rw [moreAlternatives]
  split
  · rename_i hnone
    rw [h] at hnone
    cases hnone
  · rename_i d' hd
    rw [h] at hd
    cases hd
    split
    · rename_i e' herror
      rw [hs] at herror
      cases herror
    · rename_i s' e' hok
      rw [hs] at hok
      cases hok
      rfl

theorem breaks_writtenEach (ss : List Symbol) {tail : Text} (htail : Breaks tail) :
    Breaks (Symbol.writtenEach " or ".toList ss ++ tail) := by
  cases ss with
  | nil => exact htail
  | cons s ss => exact breaks_space _

theorem moreAlternatives_written {ss : List Symbol} (hss : ∀ s ∈ ss, s.IsSimple) {c : Cursor} {tail : Text}
    (htail : Continues tail) (hrest : c.rest = Symbol.writtenEach " or ".toList ss ++ tail) :
    ∃ read d, moreAlternatives c = .ok (read, d) ∧ Symbol.plainAll read = Symbol.plainAll ss ∧
      d.rest = tail.trimStart := by
  induction ss generalizing c with
  | nil =>
    have hskip : c.skipBlanks.rest = tail.trimStart := by
      rw [Cursor.rest_skipBlanks, hrest]
      rfl
    refine ⟨[], c.skipBlanks, moreAlternatives_of_none (keyword?_eq_none ?_), rfl, hskip⟩
    rw [hskip]
    exact htail.or
  | cons s ss ih =>
    obtain ⟨hs, hss⟩ := List.forall_mem_cons.mp hss
    have hbreaks := breaks_writtenEach ss htail.breaks
    have hbegins := begins_written hs hbreaks
    rw [Symbol.writtenEach, List.append_assoc, List.append_assoc] at hrest
    -- the word, then the symbol behind it, then what the induction hypothesis reads
    have hor : c.skipBlanks.rest = "or".toList ++ ' ' ::
        (s.written ++ (Symbol.writtenEach " or ".toList ss ++ tail)) :=
      rest_skipBlanks_of_space hrest (by decide)
    obtain ⟨d, hd, hsymbol⟩ := keyword?_written (orScan_written _) hor hbegins.trimStart_eq
    obtain ⟨read, e, he, hplain, hafter⟩ := symbolAt_written hs hbreaks hsymbol
    obtain ⟨others, last, hothers, hplains, hlast⟩ := ih hss hafter
    refine ⟨read :: others, last, ?_, ?_, hlast⟩
    · rw [moreAlternatives_of_some hd he, hothers]
      rfl
    · rw [Symbol.plainAll, Symbol.plainAll, hplain, hplains]

theorem exclusionAt_written {s : Symbol} (hs : s.IsExclusion) {c : Cursor} {tail : Text}
    (htail : Continues tail) (hrest : c.rest = s.written ++ tail) :
    ∃ read d, exclusionAt c = .ok (read, d) ∧ read.plain = s.plain ∧
      d.rest.trimStart = tail.trimStart := by
  cases hs with
  | simple hs =>
    have hnone : keyword? oneOfScan c = none :=
      keyword?_eq_none (by rw [hrest]; exact (begins_written hs htail.breaks).oneOf)
    obtain ⟨read, d, hd, hplain, hafter⟩ := symbolAt_written hs htail.breaks hrest
    exact ⟨read, d, by rw [exclusionAt, hnone]; exact hd, hplain, by rw [hafter]⟩
  | @oneOf offset alternatives hne h =>
    cases alternatives with
    | nil => exact absurd rfl hne
    | cons first others =>
      obtain ⟨hfirst, hothers⟩ := List.forall_mem_cons.mp h
      have hbreaks := breaks_writtenEach others htail.breaks
      rw [Symbol.written, Symbol.writtenEach, List.append_assoc, List.append_assoc, List.append_assoc]
        at hrest
      have hone : c.rest = "one of".toList ++ ' ' ::
          (first.written ++ (Symbol.writtenEach " or ".toList others ++ tail)) := hrest
      obtain ⟨d, hd, hsymbol⟩ := keyword?_written (oneOfScan_written _) hone
        (begins_written hfirst hbreaks).trimStart_eq
      obtain ⟨read, e, he, hplain, hafter⟩ := symbolAt_written hfirst hbreaks hsymbol
      obtain ⟨reads, last, hlast, hplains, hend⟩ := moreAlternatives_written hothers htail hafter
      refine ⟨.oneOf ⟨false, c.offset⟩ (read :: reads), last, ?_, ?_, ?_⟩
      · rw [exclusionAt, hd]
        dsimp only
        rw [he]
        show (moreAlternatives e >>= _) = _
        rw [hlast]
        rfl
      · rw [Symbol.plain, Symbol.plain, Symbol.plainAll, Symbol.plainAll, hplain, hplains]
      · rw [hend, trimStart, trimStart, List.dropWhile_idempotent]

/-! ## 2. Sequences of symbols -/

theorem symbolsAt_of_isDone {before : List Symbol} {c : Cursor} (h : c.rest.trimStart = []) :
    symbolsAt before c = .ok before.reverse := by
  have hdone : c.skipBlanks.isDone = true := by
    rw [Cursor.isDone, Cursor.rest_skipBlanks, ← trimStart, h]
    rfl
  rw [symbolsAt, if_pos hdone]

theorem isDone_skipBlanks_of_cons {c : Cursor} {first : Char} {rest : Text}
    (h : c.rest.trimStart = first :: rest) : ¬c.skipBlanks.isDone = true := by
  rw [Cursor.isDone, Cursor.rest_skipBlanks, ← trimStart, h]
  exact Bool.false_ne_true

theorem symbolsAt_of_symbol {before : List Symbol} {c d : Cursor} {s : Symbol}
    (hbegins : Begins c.rest.trimStart) (hs : symbolAt c.skipBlanks = .ok (s, d)) :
    symbolsAt before c = symbolsAt (s :: before) d := by
  obtain ⟨first, rest, hrest, -⟩ := hbegins.head
  have hnone : keyword? butNotScan c.skipBlanks = none := by
    refine keyword?_eq_none ?_
    rw [Cursor.rest_skipBlanks]
    exact hbegins.butNot
  rw [symbolsAt, if_neg (isDone_skipBlanks_of_cons hrest)]
  split
  · rename_i e he
    rw [hnone] at he
    cases he
  · split
    · rename_i e herror
      rw [hs] at herror
      cases herror
    · rename_i s' d' hok
      rw [hs] at hok
      cases hok
      rfl

theorem symbolsAt_of_butNot {earlier : List Symbol} {c d e : Cursor} {left right : Symbol}
    {first : Char} {rest : Text} (hrest : c.rest.trimStart = first :: rest)
    (hkey : keyword? butNotScan c.skipBlanks = some d) (hright : exclusionAt d = .ok (right, e)) :
    symbolsAt (left :: earlier) c = symbolsAt (.butNot ⟨false, left.offset⟩ left right :: earlier) e := by
  rw [symbolsAt, if_neg (isDone_skipBlanks_of_cons hrest)]
  split
  · rename_i d' hd
    rw [hkey] at hd
    cases hd
    dsimp only
    split
    · rename_i e' herror
      rw [hright] at herror
      cases herror
    · rename_i right' e' hok
      rw [hright] at hok
      cases hok
      rfl
  · rename_i hnone
    rw [hkey] at hnone
    cases hnone

theorem trimStart_exclusion {s : Symbol} (hs : s.IsExclusion) {tail : Text} (htail : Breaks tail) :
    trimStart (s.written ++ tail) = s.written ++ tail := by
  cases hs with
  | simple hs => exact (begins_written hs htail).trimStart_eq
  | oneOf hne h => exact trimStart_eq_self fun c hc => by cases hc; decide

/-- A symbol is read as it is written, with all that it excludes. -/
theorem symbolsAt_written {s : Symbol} (hs : s.IsWritable) {c : Cursor} {tail : Text}
    (htail : Continues tail) (hrest : c.rest.trimStart = s.written ++ tail) (before : List Symbol) :
    ∃ read d, symbolsAt before c = symbolsAt (read :: before) d ∧ read.plain = s.plain ∧
      d.rest.trimStart = tail.trimStart := by
  -- the left side of an exclusion is read first, so the tail is arbitrary
  induction hs generalizing c tail with
  | simple hs =>
    have hskip : c.skipBlanks.rest = _ := c.rest_skipBlanks.trans hrest
    obtain ⟨read, d, hd, hplain, hafter⟩ := symbolAt_written hs htail.breaks hskip
    refine ⟨read, d, symbolsAt_of_symbol ?_ hd, hplain, by rw [hafter]⟩
    rw [hrest]
    exact begins_written hs htail.breaks
  | @butNot offset left right hleft hright ih =>
    rw [Symbol.written, List.append_assoc, List.append_assoc] at hrest
    have hcontinues : Continues (" but not ".toList ++ (right.written ++ tail)) :=
      ⟨breaks_space _, rfl⟩
    obtain ⟨read, d, hread, hplain, hafter⟩ := ih hcontinues hrest
    -- the exclusion is read behind the symbol that it applies to
    have hkeyword : d.skipBlanks.rest = "but not".toList ++ ' ' :: (right.written ++ tail) :=
      d.rest_skipBlanks.trans hafter
    obtain ⟨e, he, hexclusion⟩ := keyword?_written (butNotScan_written _) hkeyword
      (trimStart_exclusion hright htail.breaks)
    obtain ⟨read', last, hlast, hplain', hend⟩ := exclusionAt_written hright htail hexclusion
    refine ⟨.butNot ⟨false, read.offset⟩ read read', last, ?_, ?_, hend⟩
    · rw [hread]
      exact symbolsAt_of_butNot hafter he hlast
    · rw [Symbol.plain, Symbol.plain, hplain, hplain']

theorem begins_of_isWritable {s : Symbol} (hs : s.IsWritable) {tail : Text} (htail : Breaks tail) :
    Begins (s.written ++ tail) := by
  induction hs generalizing tail with
  | simple hs => exact begins_written hs htail
  | butNot hleft hright ih =>
    rw [Symbol.written, List.append_assoc, List.append_assoc]
    exact ih (breaks_space _)

theorem breaks_flatMap (ss : List Symbol) : Breaks (ss.flatMap (' ' :: ·.written)) := by
  cases ss with
  | nil => exact breaks_nil
  | cons s ss => exact breaks_space _

theorem continues_flatMap {ss : List Symbol} (hss : ∀ s ∈ ss, s.IsWritable) :
    Continues (ss.flatMap (' ' :: ·.written)) := by
  refine ⟨breaks_flatMap ss, ?_⟩
  cases ss with
  | nil => rfl
  | cons s ss =>
    have hbegins := begins_of_isWritable (hss s List.mem_cons_self) (breaks_flatMap ss)
    show orScan (trimStart (s.written ++ ss.flatMap (' ' :: ·.written))) = none
    rw [hbegins.trimStart_eq]
    exact hbegins.or

theorem trimStart_writtenSymbols {ss : List Symbol} (hss : ∀ s ∈ ss, s.IsWritable) :
    (writtenSymbols ss).trimStart = writtenSymbols ss := by
  cases ss with
  | nil => rfl
  | cons s ss =>
    exact (begins_of_isWritable (hss s List.mem_cons_self) (breaks_flatMap ss)).trimStart_eq

theorem symbolsAt_writtenSymbols {ss : List Symbol} (hss : ∀ s ∈ ss, s.IsWritable) {c : Cursor}
    (hrest : c.rest.trimStart = writtenSymbols ss) (before : List Symbol) :
    ∃ read, symbolsAt before c = .ok (before.reverse ++ read) ∧
      read.map Symbol.plain = ss.map Symbol.plain := by
  induction ss generalizing c before with
  | nil => exact ⟨[], by rw [symbolsAt_of_isDone hrest, List.append_nil], rfl⟩
  | cons s ss ih =>
    obtain ⟨hs, hss'⟩ := List.forall_mem_cons.mp hss
    obtain ⟨read, d, hread, hplain, hafter⟩ := symbolsAt_written hs (continues_flatMap hss') hrest before
    have hnext : trimStart (ss.flatMap (' ' :: ·.written)) = writtenSymbols ss := by
      cases ss with
      | nil => rfl
      | cons next ss => exact trimStart_writtenSymbols hss'
    obtain ⟨reads, hreads, hplains⟩ := ih hss' (hafter.trans hnext) (read :: before)
    refine ⟨read :: reads, ?_, ?_⟩
    · rw [hread, hreads, List.reverse_cons, List.append_assoc]
      rfl
    · rw [List.map_cons, List.map_cons, hplain, hplains]

/-! ## 3. Right-hand sides -/

theorem bracketed?_eq_none {operator? : Char → Option Operator} {c : Cursor} {sign : Char} {t : Text}
    (hrest : c.rest = '[' :: sign :: t) (hblank : isBlank sign = false) (hsign : operator? sign = none) :
    bracketed? operator? c = none := by
  have hskip : (c.advance 1).skipBlanks.rest = sign :: t :=
    rest_skipBlanks_of_head (by rw [Cursor.rest_advance, hrest]; rfl) hblank
  have hnone : argumentAt? operator? (c.advance 1).skipBlanks = none := by
    rw [argumentAt?, hskip]
    show (operator? sign).bind _ = _
    rw [hsign]
    rfl
  unfold bracketed?
  split
  · rw [argumentsAt?]
    split
    · rfl
    · rename_i hsome
      rw [hnone] at hsome
      cases hsome
  · rfl

/-- No symbol begins as a guard does. -/
theorem bracketed?_written_eq_none {s : Symbol} (hs : s.IsWritable) {c : Cursor} {tail : Text}
    (hrest : c.rest = s.written ++ tail) : bracketed? guardOperator? c = none := by
  have hother : ∀ first rest, c.rest = first :: rest → first ≠ '[' → bracketed? guardOperator? c = none := by
    intro first rest hrest hne
    rw [bracketed?, hrest, if_neg (by simpa using hne)]
  induction hs generalizing tail with
  | simple hs =>
    cases hs with
    | terminal h hline => exact hother _ _ hrest (by decide)
    | nonterminal hname hkeyword harguments =>
      obtain ⟨first, rest, rfl, hfirst, -⟩ := hname
      refine hother _ _ hrest ?_
      rintro rfl
      cases hfirst
    | empty => exact bracketed?_eq_none hrest (by decide) rfl
    | noLineTerminator => exact bracketed?_eq_none hrest (by decide) rfl
    | lookahead h hword =>
      obtain ⟨rest, rfl⟩ := hword
      exact bracketed?_eq_none hrest (by decide) rfl
    | prose h => exact bracketed?_eq_none hrest (by decide) rfl
  | butNot hleft hright ih =>
    rw [Symbol.written, List.append_assoc] at hrest
    exact ih hrest

theorem bodyAt_written {ss : List Symbol} (hss : ∀ s ∈ ss, s.IsWritable) {c : Cursor}
    (hrest : c.rest.trimStart = writtenSymbols ss) :
    ∃ read, bodyAt c = .ok read ∧ read.map Symbol.plain = ss.map Symbol.plain := by
  obtain ⟨read, hread, hplain⟩ := symbolsAt_writtenSymbols hss hrest []
  refine ⟨read, ?_, hplain⟩
  unfold bodyAt
  split
  · -- a line of prose begins with a character that begins no symbol
    rename_i prose hprose
    rw [Cursor.rest_skipBlanks, ← trimStart, hrest] at hprose
    cases ss with
    | nil => cases hprose
    | cons s ss =>
      obtain ⟨first, rest, hhead, -, hne⟩ :=
        (begins_of_isWritable (hss s List.mem_cons_self) (breaks_flatMap ss)).head
      exact absurd (List.cons.inj (hhead.symm.trans hprose)).1 hne
  · exact hread

/-- A right-hand side is read as it is written. -/
theorem rightHandSideAt_written {side : RightHandSide} (hside : side.IsWritable) {c : Cursor}
    (hrest : c.rest = side.written) :
    ∃ read, rightHandSideAt c = .ok read ∧ read.plain = side.plain ∧ read.offset = c.offset := by
  have hskip := trimStart_writtenSymbols hside.symbols
  -- the guard is read first, if there is one
  obtain ⟨guard, d, hguard, hplain, hafter⟩ : ∃ guard d, guardAt c = (guard, d) ∧
      (guard.map fun g => { g with offset := 0 }) = (side.guard.map fun g => { g with offset := 0 }) ∧
      d.rest.trimStart = writtenSymbols side.symbols := by
    rw [RightHandSide.written] at hrest
    cases hg : side.guard with
    | none =>
      rw [hg] at hrest
      refine ⟨none, c, ?_, rfl, hrest ▸ hskip⟩
      cases hsymbols : side.symbols with
      | nil => exact absurd hsymbols hside.ne_nil
      | cons s ss =>
        rw [hsymbols] at hrest
        rw [guardAt, bracketed?_written_eq_none (hside.symbols s (by simp [hsymbols])) hrest]
    | some g =>
      rw [hg] at hrest
      obtain ⟨d, hd, hafter⟩ := bracketed?_written (hside.guard g hg) hrest
      refine ⟨some ⟨g.conditions, c.offset⟩, d, by rw [guardAt, hd], rfl, ?_⟩
      rw [hafter]
      exact hskip
  obtain ⟨symbols, hsymbols, hplains⟩ := bodyAt_written hside.symbols hafter
  have hne : symbols.isEmpty = false := by
    rw [List.isEmpty_eq_false_iff]
    rintro rfl
    exact hside.ne_nil (List.map_eq_nil_iff.mp hplains.symm)
  refine ⟨⟨guard, symbols, c.offset⟩, ?_, ?_, rfl⟩
  · unfold rightHandSideAt
    rw [hguard]
    dsimp only
    rw [hsymbols]
    show (if symbols.isEmpty = true then _ else _) = _
    rw [hne]
    rfl
  · rw [RightHandSide.plain, RightHandSide.plain, hplain, hplains]

/-! ## 4. Lines -/

/-- The text stands on one line and ends with a character that is not blank. -/
structure IsSolid (t : Text) : Prop where
  line : '\n' ∉ t
  last : ∃ c, t.getLast? = some c ∧ isBlank c = false

theorem IsSolid.append {s t : Text} (hs : '\n' ∉ s) (ht : IsSolid t) : IsSolid (s ++ t) := by
  refine ⟨by simp [hs, ht.line], ?_⟩
  obtain ⟨c, hc, hblank⟩ := ht.last
  exact ⟨c, by rw [List.getLast?_append, hc]; rfl, hblank⟩

theorem isSolid_singleton {c : Char} (hc : isBlank c = false) : IsSolid [c] := by
  refine ⟨?_, c, rfl, hc⟩
  rw [List.mem_singleton]
  rintro rfl
  cases hc

theorem IsName.isSolid {name : Text} (h : IsName name) : IsSolid name := by
  have hchars := h.isNameChar
  refine ⟨fun hmem => ?_, ?_⟩
  · cases hchars _ hmem
  · obtain ⟨first, rest, rfl, -⟩ := h
    obtain ⟨c, hc⟩ := Option.isSome_iff_exists.mp
      (List.getLast?_isSome.mpr (List.cons_ne_nil first rest))
    exact ⟨c, hc, isBlank_of_isNameChar (hchars c (List.mem_of_getLast? hc))⟩

theorem newline_not_mem_argument {a : Argument} (h : IsName a.name) : '\n' ∉ a.written := by
  have hsign : '\n' ≠ a.operator.sign := by
    cases a.operator <;> decide
  simp [Argument.written, hsign, h.isSolid.line]

theorem AreArguments.isSolid {operator? : Char → Option Operator} {as : List Argument}
    (has : AreArguments operator? as) : IsSolid (writtenArguments as) := by
  cases as with
  | nil => exact absurd rfl has.ne_nil
  | cons a as =>
    obtain ⟨hname, hnames⟩ := List.forall_mem_cons.mp has.name
    have hothers : '\n' ∉ as.flatMap (',' :: ' ' :: ·.written) := by
      intro hmem
      obtain ⟨b, hb, hmem⟩ := List.mem_flatMap.mp hmem
      simp [newline_not_mem_argument (hnames b hb)] at hmem
    have hbefore : '\n' ∉ '[' :: (a.written ++ as.flatMap (',' :: ' ' :: ·.written)) := by
      simp [newline_not_mem_argument hname, hothers]
    have hsolid := IsSolid.append hbefore (isSolid_singleton (by decide : isBlank ']' = false))
    rwa [List.cons_append, List.append_assoc] at hsolid

theorem IsSolid.mark {t : Text} (ht : IsSolid t) (mark : Mark) : IsSolid (t ++ mark.written) := by
  rw [Mark.written]
  split
  · exact .append ht.line (isSolid_singleton (by decide))
  · rwa [List.append_nil]

theorem isSolid_bracketed (inner : Text) (h : '\n' ∉ inner) : IsSolid ('[' :: (inner ++ [']'])) :=
  .append (s := '[' :: inner) (by simp [h]) (isSolid_singleton (by decide))

theorem Symbol.IsSimple.isSolid {s : Symbol} (hs : s.IsSimple) : IsSolid s.written := by
  cases hs with
  | @terminal mark text h hline =>
    have hquoted : IsSolid (('\x60' :: text) ++ ['\x60']) :=
      .append (by simp [hline]) (isSolid_singleton (by decide))
    have hsolid := hquoted.mark mark
    rwa [List.append_assoc] at hsolid
  | @nonterminal mark name arguments hname hkeyword harguments =>
    have hsolid : IsSolid (name ++ arguments.elim [] writtenArguments) := by
      cases arguments with
      | none =>
        rw [Option.elim_none, List.append_nil]
        exact hname.isSolid
      | some as => exact .append hname.isSolid.line (harguments as rfl).isSolid
    have hmark := hsolid.mark mark
    rwa [List.append_assoc] at hmark
  | empty => exact isSolid_bracketed "empty".toList (by decide)
  | noLineTerminator => exact isSolid_bracketed "no LineTerminator here".toList (by decide)
  | lookahead h hword => exact isSolid_bracketed _ h.line
  | @prose offset text h => exact isSolid_bracketed ('>' :: ' ' :: text) (by simp [h.line])

theorem isSolid_writtenEach {lead : Text} (hlead : '\n' ∉ lead) {ss : List Symbol} (hne : ss ≠ [])
    (hss : ∀ s ∈ ss, s.IsSimple) : IsSolid (Symbol.writtenEach lead ss) := by
  induction ss generalizing lead with
  | nil => exact absurd rfl hne
  | cons s ss ih =>
    obtain ⟨hs, hss⟩ := List.forall_mem_cons.mp hss
    rw [Symbol.writtenEach]
    refine .append hlead ?_
    cases ss with
    | nil =>
      rw [Symbol.writtenEach, List.append_nil]
      exact hs.isSolid
    | cons next ss => exact .append hs.isSolid.line (ih (by decide) (List.cons_ne_nil _ _) hss)

theorem Symbol.IsWritable.isSolid {s : Symbol} (hs : s.IsWritable) : IsSolid s.written := by
  induction hs with
  | simple hs => exact hs.isSolid
  | butNot hleft hright ih =>
    refine .append ih.line (.append (by decide) ?_)
    cases hright with
    | simple hs => exact hs.isSolid
    | oneOf hne h => exact .append (by decide) (isSolid_writtenEach (by decide) hne h)

theorem IsSolid.symbols {t : Text} (ht : IsSolid t) {ss : List Symbol} (hss : ∀ s ∈ ss, s.IsWritable) :
    IsSolid (t ++ ss.flatMap (' ' :: ·.written)) := by
  induction ss generalizing t with
  | nil => rwa [List.flatMap_nil, List.append_nil]
  | cons s ss ih =>
    obtain ⟨hs, hss⟩ := List.forall_mem_cons.mp hss
    rw [List.flatMap_cons, ← List.append_assoc]
    exact ih (.append ht.line (.append (s := [' ']) (by decide) hs.isSolid)) hss

theorem isSolid_writtenSymbols {ss : List Symbol} (hne : ss ≠ []) (hss : ∀ s ∈ ss, s.IsWritable) :
    IsSolid (writtenSymbols ss) := by
  cases ss with
  | nil => exact absurd rfl hne
  | cons s ss =>
    obtain ⟨hs, hss⟩ := List.forall_mem_cons.mp hss
    exact hs.isSolid.symbols hss

theorem RightHandSide.IsWritable.isSolid {side : RightHandSide} (h : side.IsWritable) :
    IsSolid side.written := by
  have hsymbols := isSolid_writtenSymbols h.ne_nil h.symbols
  rw [RightHandSide.written]
  cases hg : side.guard with
  | none => exact hsymbols
  | some g => exact .append (h.guard g hg).isSolid.line (.append (s := [' ']) (by decide) hsymbols)

theorem RightHandSide.IsWritable.trim {side : RightHandSide} (h : side.IsWritable) :
    side.written.trim = side.written := by
  have hstart : side.written.trimStart = side.written := by
    rw [RightHandSide.written]
    cases hg : side.guard with
    | none => exact trimStart_writtenSymbols h.symbols
    | some g =>
      cases hconditions : g.conditions with
      | nil => exact absurd hconditions (h.guard g hg).ne_nil
      | cons a as =>
        dsimp only
        rw [hconditions]
        exact trimStart_eq_self fun c hc => by cases hc; decide
  rw [Text.trim, hstart]
  obtain ⟨c, hc, hblank⟩ := h.isSolid.last
  refine trimEnd_eq_self fun d hd => ?_
  rw [hc] at hd
  cases hd
  exact hblank

/-! ## 5. Texts -/

/-- The text is a header of the production that has no right-hand side on its own line. -/
structure IsHeader (header : Text) (p : Production) : Prop where
  trim : header.trim = header
  line : '\n' ∉ header
  read : headerOf 0 ⟨[], 0, 0, header⟩ = .ok (p, .listed [])

theorem readSource_written {side : RightHandSide} (hside : side.IsWritable) {header indent : Text}
    {p : Production} (hheader : IsHeader header p) (hblank : indent.AllBlank) (hne : indent ≠ [])
    (hline : '\n' ∉ indent) :
    ∃ read, read.plain = side.plain ∧
      readSource 0 (header ++ '\n' :: (indent ++ side.written)) =
        ⟨[{ p with rightHandSides := [read] }], []⟩ := by
  have hnonempty : header ≠ [] := by
    rintro rfl
    cases hheader.read
  have hwritten : side.written ≠ [] := by
    obtain ⟨c, hc, -⟩ := hside.isSolid.last
    intro hnil
    rw [hnil] at hc
    cases hc
  -- the text has two lines, which are one group
  have hlines := lines_pair hheader.trim hside.trim hblank hnonempty hwritten hheader.line
    (by simp [hline, hside.isSolid.line])
  have hindent : 0 < indent.size := Nat.pos_of_ne_zero fun h => hne (size_eq_zero_iff.mp h)
  have hgroups : groups (header ++ '\n' :: (indent ++ side.written)) =
      [(⟨[], 0, 0, header⟩,
        [⟨'\n' :: indent, indent.size, header.size + 1 + indent.size, side.written⟩])] := by
    rw [groups, hlines]
    simp [groupLines, hindent]
  obtain ⟨read, hread, hplain, -⟩ := rightHandSideAt_written hside
    (c := .atStart side.written (header.size + 1 + indent.size)) rfl
  refine ⟨read, hplain, ?_⟩
  have hbody : (Body.listed []).addAll
      [⟨'\n' :: indent, indent.size, header.size + 1 + indent.size, side.written⟩] =
        (.listed [read], []) := by
    rw [addAll_listed, List.map_singleton, hread]
    rfl
  have hgroup := readGroup_of_ok hheader.read
    [⟨'\n' :: indent, indent.size, header.size + 1 + indent.size, side.written⟩]
  rw [hbody] at hgroup
  rw [readSource_eq, hgroups]
  simp [hgroup, Body.rightHandSides]

/-- The reader understands all that can be written: a right-hand side that was written is read with the same
guard and the same symbols, alone and as the only line under a header. -/
theorem read_written {side : RightHandSide} (hside : side.IsWritable) :
    (∀ c : Cursor, c.rest = side.written →
      ∃ read, rightHandSideAt c = .ok read ∧ read.plain = side.plain) ∧
    ∀ (header indent : Text) (p : Production) (checks : Bool), IsHeader header p →
      indent.AllBlank → indent ≠ [] → '\n' ∉ indent →
      ∃ read, read.plain = side.plain ∧
        (compile [header ++ '\n' :: (indent ++ side.written)] checks).productions =
          [{ p with rightHandSides := [read] }] ∧
        (compile [header ++ '\n' :: (indent ++ side.written)] false).diagnostics = [] := by
  refine ⟨fun c hc => ?_, fun header indent p checks hheader hblank hne hline => ?_⟩
  · obtain ⟨read, hread, hplain, -⟩ := rightHandSideAt_written hside hc
    exact ⟨read, hread, hplain⟩
  · obtain ⟨read, hplain, hsource⟩ := readSource_written hside hheader hblank hne hline
    refine ⟨read, hplain, ?_, ?_⟩
    · rw [productions_compile, List.zipIdx_singleton, List.flatMap_singleton, hsource]
    · rw [diagnostics_compile, List.zipIdx_singleton, List.flatMap_singleton, hsource]
      rfl

/-- A right-hand side with every kind of symbol. -/
def manifold : RightHandSide where
  guard := some ⟨[⟨.plus, "In".toList⟩, ⟨.tilde, "Yield".toList⟩], 0⟩
  symbols := [
    .butNot ⟨false, 0⟩
      (.butNot ⟨false, 0⟩ (.nonterminal ⟨false, 0⟩ "order".toList none)
        (.oneOf ⟨false, 0⟩ [.terminal ⟨false, 0⟩ "or".toList,
          .nonterminal ⟨true, 0⟩ "button".toList (some [⟨.plus, "A".toList⟩, ⟨.question, "B".toList⟩])]))
      (.restriction ⟨false, 0⟩ (.lookahead "lookahead = x".toList)),
    .terminal ⟨true, 0⟩ "[> ?".toList,
    .empty ⟨false, 0⟩,
    .restriction ⟨false, 0⟩ .noLineTerminator,
    .restriction ⟨false, 0⟩ (.prose "+In".toList)]
  offset := 0

theorem isWritable_manifold : manifold.IsWritable := by
  have hguard : AreArguments guardOperator? [⟨.plus, "In".toList⟩, ⟨.tilde, "Yield".toList⟩] := by
    refine ⟨by decide, by decide, List.forall_mem_cons.mpr ⟨?_, List.forall_mem_singleton.mpr ?_⟩⟩
    · exact isName_of_coversAll (by decide)
    · exact isName_of_coversAll (by decide)
  have hbutton : AreArguments argumentOperator? [⟨.plus, "A".toList⟩, ⟨.question, "B".toList⟩] := by
    refine ⟨by decide, by decide, List.forall_mem_cons.mpr ⟨?_, List.forall_mem_singleton.mpr ?_⟩⟩
    · exact isName_of_coversAll (by decide)
    · exact isName_of_coversAll (by decide)
  have hexcluded : ∀ s ∈ [Symbol.terminal ⟨false, 0⟩ "or".toList,
      .nonterminal ⟨true, 0⟩ "button".toList (some [⟨.plus, "A".toList⟩, ⟨.question, "B".toList⟩])],
      s.IsSimple := by
    refine List.forall_mem_cons.mpr ⟨.terminal (by decide) (by decide), List.forall_mem_singleton.mpr ?_⟩
    exact .nonterminal (isName_of_coversAll (by decide)) (by decide) (by simpa using hbutton)
  have horder : Symbol.IsSimple (.nonterminal ⟨false, 0⟩ "order".toList none) :=
    .nonterminal (isName_of_coversAll (by decide)) (by decide) (by simp)
  have hlookahead : Symbol.IsSimple (.restriction ⟨false, 0⟩ (.lookahead "lookahead = x".toList)) :=
    .lookahead ⟨by decide, by decide, by decide⟩ (by decide)
  refine ⟨by simpa [manifold] using hguard, List.cons_ne_nil _ _, ?_⟩
  simp only [manifold, List.forall_mem_cons]
  exact ⟨.butNot (.butNot (.simple horder) (.oneOf (List.cons_ne_nil _ _) hexcluded)) (.simple hlookahead),
    .simple (.terminal (by decide) (by decide)), .simple .empty, .simple .noLineTerminator,
    .simple (.prose ⟨by decide, by decide, by decide⟩), List.forall_mem_nil _⟩

theorem read_written_manifold :
    manifold.IsWritable ∧
    manifold.written = ("[+In, ~Yield] order but not one of \x60or\x60 or button[+A, ?B]? " ++
      "but not [lookahead = x] \x60[> ?\x60? [empty] [no LineTerminator here] [> +In]").toList ∧
    ∃ read, read.plain = manifold.plain ∧
      (compile ["Item[In] :".toList ++ '\n' :: (' ' :: ' ' :: manifold.written)] true).productions =
        [⟨"Item".toList, 0, 0, [⟨"In".toList, 5⟩], [read]⟩] := by
  have hheader : IsHeader "Item[In] :".toList ⟨"Item".toList, 0, 0, [⟨"In".toList, 5⟩], []⟩ :=
    ⟨by decide, by decide, rfl⟩
  have hblank : AllBlank [' ', ' '] := by simp [AllBlank, isBlank]
  obtain ⟨read, hplain, hread, -⟩ := (read_written isWritable_manifold).2 _ [' ', ' '] _ true hheader
    hblank (by decide) (by decide)
  exact ⟨isWritable_manifold, by decide +kernel, read, hplain, hread⟩

end Errata.Grammar
