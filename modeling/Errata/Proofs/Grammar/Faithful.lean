import Errata.Grammar.Compile
import Errata.Proofs.Except
import Errata.Proofs.Text.Lines

/-!
# What is read stands as it is written

Each symbol and each guard of a right-hand side is written in the text at the position that it records, and
the symbols stand in order. An error lies where the reader came to.
-/

namespace Errata.Grammar

open Text

/-! ## 1. What is read as it is written -/

/-- A letter or an underscore, and then letters, digits and underscores. -/
def IsName (t : Text) : Prop :=
  ∃ first rest, t = first :: rest ∧ isNameStart first = true ∧ ∀ c ∈ rest, isNameChar c = true

/-- A capital letter and then letters, digits and underscores, between angle brackets. -/
def IsAngled (t : Text) : Prop :=
  ∃ first rest, t = '<' :: first :: (rest ++ ['>']) ∧ first.isUpper = true ∧
    ∀ c ∈ rest, isNameChar c = true

/-- The symbol is written in the text where it says, and so are the symbols in it. Only terminals and
nonterminals may be optional, and there is something to choose from. -/
inductive Symbol.IsFaithful (t : Text) : Symbol → Prop
  | quoted {mark : Mark} {text : Text} (hfree : '\x60' ∉ text)
      (h : t.Holds mark.offset ('\x60' :: (text ++ ['\x60']))) : IsFaithful t (.terminal mark text)
  | angled {mark : Mark} {text : Text} (htoken : IsAngled text)
      (h : t.Holds mark.offset text) : IsFaithful t (.terminal mark text)
  | nonterminal {mark : Mark} {name : Text} {arguments : Option (List Argument)} (hname : IsName name)
      (h : t.Holds mark.offset name) : IsFaithful t (.nonterminal mark name arguments)
  | butNot {left right : Symbol} (hleft : IsFaithful t left) (hright : IsFaithful t right)
      (horder : left.offset < right.offset) : IsFaithful t (.butNot ⟨false, left.offset⟩ left right)
  | oneOf {offset : Nat} {alternatives : List Symbol} (h : t.IsPosition offset)
      (hne : alternatives ≠ []) (halternatives : ∀ s ∈ alternatives, IsFaithful t s)
      (horder : alternatives.Pairwise (·.offset < ·.offset)) :
      IsFaithful t (.oneOf ⟨false, offset⟩ alternatives)
  | empty {offset : Nat} {inner : Text} (h : t.Holds offset ('[' :: (inner ++ [']'])))
      (hread : restrictionOf? ⟨false, offset⟩ inner.trim = some (.empty ⟨false, offset⟩)) :
      IsFaithful t (.empty ⟨false, offset⟩)
  | restriction {offset : Nat} {inner : Text} {kind : Restriction}
      (h : t.Holds offset ('[' :: (inner ++ [']'])))
      (hread : restrictionOf? ⟨false, offset⟩ inner.trim = some (.restriction ⟨false, offset⟩ kind)) :
      IsFaithful t (.restriction ⟨false, offset⟩ kind)

/-- The right-hand side is written in the text, on a line that ends at `stop`: a guard, and then either
symbols or a line of prose. -/
structure RightHandSide.IsFaithful (t : Text) (stop : Nat) (side : RightHandSide) : Prop where
  guard : ∀ g, side.guard = some g → t.Holds g.offset ['[']
  symbols : (∀ s ∈ side.symbols, s.IsFaithful t) ∨
    ∃ offset, ∃ prose : Text, side.symbols = [.restriction ⟨false, offset⟩ (.prose prose.trim)] ∧
      t.Holds offset ('>' :: prose) ∧ offset + size ('>' :: prose) = stop
  offset : t.IsPosition side.offset
  ne_nil : side.symbols ≠ []
  order : side.symbols.Pairwise (·.offset < ·.offset)

/-- The production and all in it is written in the text. -/
structure Production.IsFaithful (t : Text) (p : Production) : Prop where
  name : IsName p.name ∧ t.Holds p.offset p.name
  parameters : ∀ parameter ∈ p.parameters,
    IsName parameter.name ∧ t.Holds parameter.offset parameter.name
  rightHandSides : ∀ side ∈ p.rightHandSides, ∃ line ∈ t.lines, side.IsFaithful t line.stop
  ne_nil : p.rightHandSides ≠ []
  order : p.rightHandSides.Pairwise (·.offset < ·.offset)

/-- The error lies on the line. -/
def SyntaxError.On (line : Line) (e : SyntaxError) : Prop :=
  ∃ d, (Cursor.atStart line.text line.start).Leads d ∧ e.offset = d.offset

/-- The error is where the reader came to from the cursor. It says what is wrong there, and not that a
production has no right-hand side. -/
structure SyntaxError.Follows (c : Cursor) (e : SyntaxError) : Prop where
  leads : ∃ d, c.Leads d ∧ e.offset = d.offset
  expected : e.expected ≠ .rightHandSide

theorem follows_of_leads {c d : Cursor} {expected : Expected} (hd : c.Leads d)
    (h : expected ≠ .rightHandSide) : SyntaxError.Follows c ⟨d.offset, expected⟩ :=
  ⟨⟨d, hd, rfl⟩, h⟩

theorem SyntaxError.Follows.of_leads {c d : Cursor} {e : SyntaxError} (h : e.Follows d)
    (hd : c.Leads d) : e.Follows c := by
  obtain ⟨⟨d', hd', he⟩, hexpected⟩ := h
  exact ⟨⟨d', hd.trans hd', he⟩, hexpected⟩

theorem ends_of_leads {α : Type} {P : α → Prop} {x : Except SyntaxError α} {c d : Cursor}
    (h : Ends (SyntaxError.Follows d) P x) (hd : c.Leads d) : Ends (SyntaxError.Follows c) P x :=
  h.imp (fun _ he => he.of_leads hd) fun _ ha => ha

/-! ## 2. Symbols -/

theorem isName_take {t : Text} {n : Nat} (h : nameScan t = some n) : IsName (t.take n) := by
  obtain ⟨a, b, ha, hb, rfl⟩ := Scan.seq_cons_eq_some_iff.mp h
  obtain ⟨first, rest, rfl, hfirst, rfl⟩ := Scan.exists_of_one ha
  obtain ⟨n, k, hn, hk, rfl⟩ := Scan.seq_cons_eq_some_iff.mp hb
  cases hn
  cases hk
  refine ⟨first, rest.takeWhile isNameChar, ?_, hfirst, fun c hc => List.mem_takeWhile_imp hc⟩
  rw [Nat.add_comm 1, List.take_succ_cons]
  exact congrArg _ (take_length_takeWhile isNameChar rest)

theorem isAngled_take {t : Text} {n : Nat} (h : angleScan t = some n) : IsAngled (t.take n) := by
  obtain ⟨_, _, hone, hseq, rfl⟩ := Scan.seq_cons_eq_some_iff.mp h
  obtain ⟨opening, t, rfl, hopening, rfl⟩ := Scan.exists_of_one hone
  obtain ⟨_, _, hupper, hmore, rfl⟩ := Scan.seq_cons_eq_some_iff.mp hseq
  obtain ⟨first, t, rfl, hfirst, rfl⟩ := Scan.exists_of_one hupper
  obtain ⟨_, _, hmany, hlast, rfl⟩ := Scan.seq_cons_eq_some_iff.mp hmore
  cases hmany
  obtain ⟨_, _, hchar, hend, rfl⟩ := Scan.seq_cons_eq_some_iff.mp hlast
  cases hend
  obtain ⟨closing, rest, hrest, hclosing, rfl⟩ := Scan.exists_of_one hchar
  simp only [List.drop_one, List.tail_cons] at hrest ⊢
  refine ⟨first, t.takeWhile isNameChar, ?_, hfirst, fun c hc => List.mem_takeWhile_imp hc⟩
  have hsplit : t = (t.takeWhile isNameChar ++ ['>']) ++ rest := by
    have hall := List.take_append_drop (t.takeWhile isNameChar).length t
    rw [take_length_takeWhile, hrest, beq_iff_eq.mp hclosing] at hall
    rw [List.append_assoc]
    exact hall.symm
  generalize t.takeWhile isNameChar = inner at hsplit ⊢
  have hlength : 1 + (1 + (inner.length + (1 + 0))) = (inner ++ ['>']).length + 1 + 1 := by
    rw [List.length_append, List.length_singleton]
    omega
  rw [hsplit, hlength, List.take_succ_cons, List.take_succ_cons, List.take_left,
    beq_iff_eq.mp hopening]

section Symbols

variable {t : Text} {c : Cursor}

theorem leads_argumentAt? {operator? : Char → Option Operator} {d : Cursor} {a : Argument}
    (h : argumentAt? operator? c = some (a, d)) : c.Leads d := by
  simp only [argumentAt?, Option.bind_eq_bind, Option.bind_eq_some_iff] at h
  obtain ⟨sign, -, operator, -, ⟨name, after⟩, hname, heq⟩ := h
  cases heq
  exact (c.leads_advance 1).trans (Cursor.leads_scan? hname)

theorem leads_argumentsAt? {operator? : Char → Option Operator} {d : Cursor} {as : List Argument}
    (h : argumentsAt? operator? c = some (as, d)) : c.Leads d := by
  fun_induction argumentsAt? operator? c generalizing as d with
  | case1 => cases h
  | case2 c first after hfirst hlt rest hsign ih =>
    obtain ⟨⟨others, last⟩, hothers, heq⟩ := Option.map_eq_some_iff.mp h
    cases heq
    exact (leads_argumentAt? hfirst).trans <| after.leads_skipBlanks.trans <|
      (Cursor.leads_advance _ 1).trans <| (Cursor.leads_skipBlanks _).trans (ih hothers)
  | case3 c first after hfirst hlt rest hsign =>
    cases h
    exact (leads_argumentAt? hfirst).trans (after.leads_skipBlanks.trans (Cursor.leads_advance _ 1))
  | case4 => cases h

/-- A list of arguments begins with a bracket. -/
theorem leads_bracketed? {operator? : Char → Option Operator} {d : Cursor} {as : List Argument}
    (h : bracketed? operator? c = some (as, d)) : c.rest.head? = some '[' ∧ c.Leads d := by
  unfold bracketed? at h
  split at h
  · rename_i hhead
    exact ⟨hhead, (c.leads_advance 1).trans ((Cursor.leads_skipBlanks _).trans (leads_argumentsAt? h))⟩
  · cases h

theorem ends_argumentList (c : Cursor) :
    Ends (SyntaxError.Follows c) (fun found => c.Leads found.2) (argumentList c) := by
  unfold argumentList
  split
  · split
    · rename_i hlist
      exact (leads_bracketed? hlist).2
    · exact follows_of_leads (.refl c) (by decide)
  · exact .refl c

/-- What is counted through a closing bracket ends with it. -/
theorem exists_of_bracketWidth? {depth : Nat} {quoted : Bool} {text : Text} {n : Nat}
    (h : bracketWidth? depth quoted text = some n) :
    ∃ inner rest, text = inner ++ ']' :: rest ∧ inner.length + 1 = n := by
  induction text generalizing depth quoted n with
  | nil => cases h
  | cons c text ih =>
    -- every branch but the last bracket goes on with the rest of the text
    have hmore : ∀ depth quoted, (bracketWidth? depth quoted text).map (· + 1) = some n →
        ∃ inner rest, c :: text = inner ++ ']' :: rest ∧ inner.length + 1 = n := by
      intro depth quoted h
      obtain ⟨m, hm, rfl⟩ := Option.map_eq_some_iff.mp h
      obtain ⟨inner, rest, rfl, rfl⟩ := ih hm
      exact ⟨c :: inner, rest, rfl, rfl⟩
    rw [bracketWidth?] at h
    split at h
    · exact hmore _ _ h
    split at h
    · exact hmore _ _ h
    split at h
    · split at h
      · rename_i hclose _
        rw [Bool.and_eq_true, decide_eq_true_eq] at hclose
        cases h
        exact ⟨[], text, by rw [hclose.1]; rfl, rfl⟩
      · exact hmore _ _ h
    · exact hmore _ _ h

theorem faithful_restrictionOf? {offset : Nat} {inner : Text} {s : Symbol}
    (h : t.Holds offset ('[' :: (inner ++ [']'])))
    (hread : restrictionOf? ⟨false, offset⟩ inner.trim = some s) :
    s.IsFaithful t ∧ s.offset = offset := by
  have hcases := hread
  unfold restrictionOf? at hcases
  split at hcases
  · cases hcases
    exact ⟨.empty h hread, rfl⟩
  split at hcases
  · cases hcases
    exact ⟨.restriction h hread, rfl⟩
  split at hcases
  · cases hcases
    exact ⟨.restriction h hread, rfl⟩
  split at hcases
  · cases hcases
    exact ⟨.restriction h hread, rfl⟩
  · cases hcases

/-- A symbol is read at the cursor, and the reader comes to the place after it. -/
def ReadAt (t : Text) (c : Cursor) (found : Symbol × Cursor) : Prop :=
  found.1.IsFaithful t ∧ found.1.offset = c.offset ∧ c.Leads found.2

theorem ends_restrictionAt (hc : c.In t) {rest : Text} (hrest : c.rest = '[' :: rest) :
    Ends (SyntaxError.Follows c) (ReadAt t c) (restrictionAt c) := by
  unfold restrictionAt
  split
  · exact follows_of_leads (.refl c) (by decide)
  · rename_i n hwidth
    split
    · exact follows_of_leads (.refl c) (by decide)
    · rename_i symbol hsymbol
      obtain ⟨before, after, hsplit, hlength⟩ := exists_of_bracketWidth? hwidth
      -- the first bracket is not the last
      obtain ⟨inner, rfl⟩ : ∃ inner, before = '[' :: inner := by
        rw [hrest] at hsplit
        cases before with
        | nil => cases hsplit
        | cons first inner =>
          cases hsplit
          exact ⟨inner, rfl⟩
      have hinner : (c.rest.take (n - 1)).drop 1 = inner := by
        rw [hsplit, ← hlength, Nat.add_sub_cancel, List.take_left]
        rfl
      have hheld : t.Holds c.offset ('[' :: (inner ++ [']'])) :=
        hc.holds (hsplit.trans (List.append_cons _ _ _))
      rw [hinner] at hsymbol
      obtain ⟨hfaithful, hoffset⟩ := faithful_restrictionOf? hheld hsymbol
      exact ⟨hfaithful, hoffset, c.leads_advance n⟩

theorem leads_optionalMark (c : Cursor) : c.Leads (optionalMark c).2 := by
  unfold optionalMark
  split
  · exact c.leads_advance 1
  · exact .refl c

theorem ends_symbolAt (hc : c.In t) :
    Ends (SyntaxError.Follows c) (ReadAt t c) (symbolAt c) := by
  unfold symbolAt
  split
  · rename_i rest hrest
    dsimp only
    split
    · rename_i hclosed
      refine ⟨.quoted ?_ ?_, rfl, (c.leads_advance _).trans (leads_optionalMark _)⟩
      · intro hmem
        simpa using List.mem_takeWhile_imp hmem
      · obtain ⟨closing, after, hsplit, hclosing⟩ := exists_of_takeWhile_lt hclosed
        rw [show closing = '\x60' by simpa using hclosing] at hsplit
        exact hc.holds (hrest.trans (congrArg _ (hsplit.trans (List.append_cons _ _ _))))
    · exact follows_of_leads (.refl c) (by decide)
  · rename_i rest hrest
    exact ends_restrictionAt hc hrest
  · split
    · rename_i n hangle
      exact ⟨.angled (isAngled_take hangle) (hc.fragment n), rfl,
        (c.leads_advance _).trans (leads_optionalMark _)⟩
    · split
      · rename_i n hname
        refine (ends_of_leads (ends_argumentList _) (c.leads_advance n)).bind fun found hfound => ?_
        exact ⟨.nonterminal (isName_take hname) (hc.fragment n), rfl,
          (c.leads_advance n).trans (hfound.trans (leads_optionalMark _))⟩
      · exact follows_of_leads (.refl c) (by decide)

/-! ## 3. Right-hand sides -/

/-- Symbols that stand one after another from `start` on and before `stop`. -/
structure Series (t : Text) (start stop : Nat) (symbols : List Symbol) : Prop where
  faithful : ∀ s ∈ symbols, s.IsFaithful t
  within : ∀ s ∈ symbols, start ≤ s.offset ∧ s.offset < stop
  order : symbols.Pairwise (·.offset < ·.offset)

namespace Series

variable {start middle middle' stop stop' : Nat} {symbols others : List Symbol}

theorem nil : Series t start stop [] :=
  ⟨List.forall_mem_nil _, List.forall_mem_nil _, .nil⟩

theorem singleton {s : Symbol} (h : s.IsFaithful t) (hstart : start ≤ s.offset)
    (hstop : s.offset < stop) : Series t start stop [s] :=
  ⟨List.forall_mem_singleton.mpr h, List.forall_mem_singleton.mpr ⟨hstart, hstop⟩,
    List.pairwise_singleton _ _⟩

theorem append (h : Series t start middle symbols) (h' : Series t middle' stop others)
    (hstart : start ≤ middle') (hmiddle : middle ≤ middle') (hstop : middle ≤ stop) :
    Series t start stop (symbols ++ others) where
  faithful := List.forall_mem_append.mpr ⟨h.faithful, h'.faithful⟩
  within := List.forall_mem_append.mpr
    ⟨fun s hs => ⟨(h.within s hs).1, Nat.lt_of_lt_of_le (h.within s hs).2 hstop⟩,
      fun s hs => ⟨Nat.le_trans hstart (h'.within s hs).1, (h'.within s hs).2⟩⟩
  order := List.pairwise_append.mpr ⟨h.order, h'.order, fun a ha b hb =>
    Nat.lt_of_lt_of_le (h.within a ha).2 (Nat.le_trans hmiddle (h'.within b hb).1)⟩

theorem of_concat {last : Symbol} (h : Series t start stop (symbols ++ [last])) :
    Series t start last.offset symbols ∧ Series t start stop [last] := by
  obtain ⟨hfaithful, hlast⟩ := List.forall_mem_append.mp h.faithful
  obtain ⟨hwithin, hbounds⟩ := List.forall_mem_append.mp h.within
  obtain ⟨horder, hpair, hbefore⟩ := List.pairwise_append.mp h.order
  exact ⟨⟨hfaithful, fun s hs => ⟨(hwithin s hs).1, hbefore s hs last List.mem_cons_self⟩, horder⟩,
    ⟨hlast, hbounds, hpair⟩⟩

theorem mono (h : Series t middle middle' symbols) (hstart : start ≤ middle)
    (hstop : middle' ≤ stop) : Series t start stop symbols where
  faithful := h.faithful
  within := fun s hs => ⟨Nat.le_trans hstart (h.within s hs).1,
    Nat.lt_of_lt_of_le (h.within s hs).2 hstop⟩
  order := h.order

end Series

theorem leads_keyword? {s : Scan} {d : Cursor} (h : keyword? s c = some d) : c.Leads d := by
  obtain ⟨⟨f, e⟩, hscan, rfl⟩ := Option.map_eq_some_iff.mp h
  exact (Cursor.leads_scan? hscan).trans e.leads_skipBlanks

/-- A symbol that was read ends before the place that the reader comes to. -/
theorem ReadAt.series {s : Symbol} {d : Cursor} (h : ReadAt t c (s, d))
    (hlength : d.rest.length < c.rest.length) : Series t c.offset d.offset [s] :=
  .singleton h.1 (Nat.le_of_eq h.2.1.symm) (h.2.1 ▸ h.2.2.lt hlength)

theorem ends_moreAlternatives (hc : c.In t) :
    Ends (SyntaxError.Follows c)
      (fun found => Series t c.offset found.2.offset found.1 ∧ c.Leads found.2)
      (moreAlternatives c) := by
  fun_induction moreAlternatives c with
  | case1 c => exact ⟨.nil, c.leads_skipBlanks⟩
  | case2 c d hor e herror =>
    have hd := c.leads_skipBlanks.trans (leads_keyword? hor)
    exact ((ends_symbolAt (hd.in hc)).of_error herror).of_leads hd
  | case3 c d hor symbol e hok hlt _ ih =>
    have hd := c.leads_skipBlanks.trans (leads_keyword? hor)
    have hsymbol := (ends_symbolAt (hd.in hc)).of_ok hok
    have he : c.Leads e := hd.trans hsymbol.2.2
    refine (ends_of_leads (ih (he.in hc)) he).map fun found hfound => ⟨?_, he.trans hfound.2⟩
    exact ((hsymbol.series hlt).mono hd.le (Nat.le_refl _)).append hfound.1 he.le (Nat.le_refl _)
      hfound.2.le

theorem ends_exclusionAt (hc : c.In t) :
    Ends (SyntaxError.Follows c) (ReadAt t c) (exclusionAt c) := by
  unfold exclusionAt
  split
  · exact ends_symbolAt hc
  · rename_i d hof
    have hd := leads_keyword? hof
    have hsymbol := (ends_symbolAt (hd.in hc)).and fun found h => symbolAt_length_lt h
    refine (ends_of_leads hsymbol hd).bind fun first hfirst => ?_
    have hfirst' : c.Leads first.2 := hd.trans hfirst.1.2.2
    refine (ends_of_leads (ends_moreAlternatives (hfirst'.in hc)) hfirst').bind fun others hothers => ?_
    have hseries : Series t c.offset others.2.offset (first.1 :: others.1) :=
      ((hfirst.1.series hfirst.2).mono hd.le (Nat.le_refl _)).append hothers.1 hfirst'.le
        (Nat.le_refl _) hothers.2.le
    exact ⟨.oneOf hc.isPosition (List.cons_ne_nil _ _) hseries.faithful hseries.order, rfl,
      hfirst'.trans hothers.2⟩

theorem ends_symbolsAt {before : List Symbol} {start : Nat}
    (hbefore : Series t start c.offset before.reverse) (hstart : start ≤ c.offset) (hc : c.In t) :
    Ends (SyntaxError.Follows c) (Series t start c.stop) (symbolsAt before c) := by
  -- all along, the symbols read so far stand in order before the cursor
  fun_induction symbolsAt before c with
  | case1 before c => exact hbefore.mono (Nat.le_refl _) (Cursor.Leads.refl c).le_stop
  | case2 c _ d hkey => exact follows_of_leads (c.leads_skipBlanks.trans (leads_keyword? hkey)) (by decide)
  | case3 c _ d hkey left earlier e herror =>
    have hd := c.leads_skipBlanks.trans (leads_keyword? hkey)
    exact ((ends_exclusionAt (hd.in hc)).of_error herror).of_leads hd
  | case4 c _ d hkey left earlier right e hok hlt _ ih =>
    have hd := c.leads_skipBlanks.trans (leads_keyword? hkey)
    have hexclusion := (ends_exclusionAt (hd.in hc)).of_ok hok
    have he : c.Leads e := hd.trans hexclusion.2.2
    -- the exclusion takes the place of the symbol that it applies to
    rw [List.reverse_cons] at hbefore
    obtain ⟨hearlier, hleft⟩ := hbefore.of_concat
    have horder : left.offset < right.offset := by
      rw [hexclusion.2.1]
      exact Nat.lt_of_lt_of_le (hleft.within left List.mem_cons_self).2 hd.le
    have hbutNot : Symbol.IsFaithful t (.butNot ⟨false, left.offset⟩ left right) :=
      .butNot (hleft.faithful left List.mem_cons_self) hexclusion.1 horder
    have hseries : Series t start e.offset
        (earlier.reverse ++ [.butNot ⟨false, left.offset⟩ left right]) := by
      obtain ⟨hle, hlt⟩ := hleft.within left List.mem_cons_self
      have hstop := Nat.lt_of_lt_of_le hlt he.le
      exact hearlier.append (.singleton hbutNot (Nat.le_refl _) hstop) hle (Nat.le_refl _)
        (Nat.le_of_lt hstop)
    rw [← List.reverse_cons] at hseries
    rw [← he.stop_eq]
    exact ends_of_leads (ih hseries (Nat.le_trans hstart he.le) (he.in hc)) he
  | case5 before c _ _ e herror =>
    exact ((ends_symbolAt hc.skipBlanks).of_error herror).of_leads c.leads_skipBlanks
  | case6 before c _ _ symbol d hok hlt ih =>
    have hskip := c.leads_skipBlanks
    have hsymbol := (ends_symbolAt hc.skipBlanks).of_ok hok
    have hd : c.Leads d := hskip.trans hsymbol.2.2
    have hseries : Series t start d.offset (symbol :: before).reverse := by
      rw [List.reverse_cons]
      exact hbefore.append (hsymbol.series hlt) (Nat.le_trans hstart hskip.le) hskip.le hd.le
    rw [← hd.stop_eq]
    exact ends_of_leads (ih hseries (Nat.le_trans hstart hd.le) (hd.in hc)) hd

theorem ends_alternativesAt (hc : c.In t) :
    Ends (SyntaxError.Follows c)
      (fun symbols => Series t c.offset c.stop symbols ∧ (c.skipBlanks.isDone = false → symbols ≠ []))
      (alternativesAt c) := by
  fun_induction alternativesAt c with
  | case1 c hdone => exact ⟨.nil, fun h => absurd hdone (by rw [h]; exact Bool.false_ne_true)⟩
  | case2 c _ e herror =>
    exact ((ends_symbolAt hc.skipBlanks).of_error herror).of_leads c.leads_skipBlanks
  | case3 c _ symbol d hok hlt ih =>
    have hskip := c.leads_skipBlanks
    have hsymbol := (ends_symbolAt hc.skipBlanks).of_ok hok
    have hd : c.Leads d := hskip.trans hsymbol.2.2
    refine (ends_of_leads (ih (hd.in hc)) hd).map
      fun symbols hsymbols => ⟨?_, fun _ => List.cons_ne_nil _ _⟩
    rw [← hd.stop_eq]
    exact ((hsymbol.series hlt).mono hskip.le (Nat.le_refl _)).append hsymbols.1 hd.le (Nat.le_refl _)
      (Cursor.Leads.refl d).le_stop

/-- A guard begins with a bracket. -/
theorem guardAt_faithful (hc : c.In t) :
    (∀ g, (guardAt c).1 = some g → t.Holds g.offset ['[']) ∧ c.Leads (guardAt c).2 := by
  unfold guardAt
  split
  · rename_i conditions after hguard
    obtain ⟨hhead, hafter⟩ := leads_bracketed? hguard
    refine ⟨fun g hg => ?_, hafter⟩
    cases hg
    obtain ⟨rest, hrest⟩ := List.head?_eq_some_iff.mp hhead
    exact hc.holds hrest
  · refine ⟨fun g hg => ?_, .refl c⟩
    cases hg

theorem ends_rightHandSideAt (hc : c.In t) :
    Ends (SyntaxError.Follows c)
      (fun side => side.IsFaithful t c.stop ∧ side.offset = c.offset ∧ c.offset < c.stop)
      (rightHandSideAt c) := by
  obtain ⟨hguard, hbody⟩ := guardAt_faithful hc
  show Ends _ _ (bodyAt (guardAt c).2 >>= _)
  unfold bodyAt
  split
  · rename_i prose hprose
    have hstart := hbody.trans (Cursor.leads_skipBlanks _)
    have hheld : t.Holds _ ('>' :: prose) :=
      (hstart.in hc).holds (hprose.trans (List.append_nil _).symm)
    have hstop : (guardAt c).2.skipBlanks.offset + size ('>' :: prose) = c.stop := by
      rw [← hprose]
      exact hstart.stop_eq
    refine ⟨⟨hguard, .inr ⟨_, prose, rfl, hheld, hstop⟩, hc.isPosition, List.cons_ne_nil _ _,
      List.pairwise_singleton _ _⟩, rfl, ?_⟩
    have hle := hstart.le
    have hpos : 0 < size ('>' :: prose) := Nat.lt_of_lt_of_le (Char.utf8Size_pos _) (Nat.le_add_right _ _)
    omega
  · have hnil : Series t (guardAt c).2.offset (guardAt c).2.offset (List.reverse []) := .nil
    have hsymbols := ends_symbolsAt hnil (Nat.le_refl _) (hbody.in hc)
    refine (ends_of_leads hsymbols hbody).bind fun symbols hseries => ?_
    by_cases hempty : symbols.isEmpty
    · rw [if_pos hempty]
      exact follows_of_leads (.refl c) (by decide)
    · rw [if_neg hempty]
      have hne : symbols ≠ [] := fun h => hempty (List.isEmpty_iff.mpr h)
      obtain ⟨first, hfirst⟩ := List.exists_mem_of_ne_nil _ hne
      obtain ⟨hle, hlt⟩ := hseries.within first hfirst
      rw [hbody.stop_eq] at hlt
      exact ⟨⟨hguard, .inl hseries.faithful, hc.isPosition, hne, hseries.order⟩, rfl,
        Nat.lt_of_le_of_lt (Nat.le_trans hbody.le hle) hlt⟩

end Symbols

end Errata.Grammar
