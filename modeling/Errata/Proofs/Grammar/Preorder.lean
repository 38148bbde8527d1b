import Errata.Proofs.Grammar.Alignment

/-!
# Fitting is a preorder

A sequence of symbols fits itself, and a fragment of a fragment is a fragment. The alignments of two steps
are composed; what the second step hits but the first leaves out may be left out at the end as well, since
a symbol that may be left out fits only symbols that may.
-/

namespace Errata.Grammar

/-! ## 1. Marks and restrictions -/

theorem Mark.fits_refl (m : Mark) : m.fits m = true := by
  cases hm : m.optional <;> simp [Mark.fits, hm]

theorem Mark.fits_trans {m n k : Mark} (hmn : m.fits n = true) (hnk : n.fits k = true) :
    m.fits k = true := by
  simp only [Mark.fits, Bool.or_eq_true, Bool.not_eq_true'] at *
  rcases hmn with hm | hn
  · exact Or.inl hm
  · rcases hnk with hn' | hk
    · rw [hn] at hn'
      exact absurd hn' (by decide)
    · exact Or.inr hk

theorem Mark.optional_of_fits {m n : Mark} (h : m.fits n = true) (hm : m.optional = true) :
    n.optional = true := by
  simpa [Mark.fits, hm] using h

theorem Restriction.sameKind_refl (a : Restriction) : a.sameKind a = true := by
  cases a <;> rfl

theorem Restriction.sameKind_trans {a b c : Restriction} (hab : a.sameKind b = true)
    (hbc : b.sameKind c = true) : a.sameKind c = true := by
  -- both steps are between restrictions of one kind, so only three of the cases are left
  cases a <;> cases b <;> simp only [sameKind, Bool.false_eq_true] at hab <;>
    cases c <;> simp only [sameKind, Bool.false_eq_true] at hbc ⊢

/-! ## 2. What a symbol fits -/

namespace Symbol

variable {m : Mark} {b : Symbol}

theorem terminal_fits_iff {text : Text} :
    (terminal m text).fits b = true ↔ ∃ n, b = terminal n text ∧ m.fits n = true := by
  constructor
  · intro h
    cases b with
    | terminal n other =>
      obtain ⟨hm, hsame⟩ := Bool.and_eq_true_iff.mp h
      obtain rfl := of_decide_eq_true hsame
      exact ⟨n, rfl, hm⟩
    | _ => cases h
  · rintro ⟨n, rfl, hm⟩
    exact Bool.and_eq_true_iff.mpr ⟨hm, decide_eq_true rfl⟩

theorem nonterminal_fits_iff {name : Text} {given : Option (List Argument)} :
    (nonterminal m name given).fits b = true ↔ ∃ n expected, b = nonterminal n name expected ∧
      m.fits n = true ∧ (given = none ∨ given = expected) := by
  constructor
  · intro h
    cases b with
    | nonterminal n other expected =>
      obtain ⟨hboth, hgiven⟩ := Bool.and_eq_true_iff.mp h
      obtain ⟨hm, hsame⟩ := Bool.and_eq_true_iff.mp hboth
      obtain rfl := of_decide_eq_true hsame
      rw [Bool.or_eq_true, Option.isNone_iff_eq_none, decide_eq_true_eq] at hgiven
      exact ⟨n, expected, rfl, hm, hgiven⟩
    | _ => cases h
  · rintro ⟨n, expected, rfl, hm, hgiven⟩
    rw [← Option.isNone_iff_eq_none, ← decide_eq_true_eq (p := given = expected), ← Bool.or_eq_true] at hgiven
    exact Bool.and_eq_true_iff.mpr ⟨Bool.and_eq_true_iff.mpr ⟨hm, decide_eq_true rfl⟩, hgiven⟩

theorem butNot_fits_iff {left right : Symbol} :
    (butNot m left right).fits b = true ↔ ∃ n otherLeft otherRight, b = butNot n otherLeft otherRight ∧
      m.fits n = true ∧ left.fits otherLeft = true ∧ right.fits otherRight = true := by
  constructor
  · intro h
    cases b with
    | butNot n otherLeft otherRight =>
      obtain ⟨hboth, hright⟩ := Bool.and_eq_true_iff.mp h
      obtain ⟨hm, hleft⟩ := Bool.and_eq_true_iff.mp hboth
      exact ⟨n, otherLeft, otherRight, rfl, hm, hleft, hright⟩
    | _ => cases h
  · rintro ⟨n, otherLeft, otherRight, rfl, hm, hleft, hright⟩
    exact Bool.and_eq_true_iff.mpr ⟨Bool.and_eq_true_iff.mpr ⟨hm, hleft⟩, hright⟩

theorem oneOf_fits_iff {alternatives : List Symbol} :
    (oneOf m alternatives).fits b = true ↔ ∃ n others, b = oneOf n others ∧
      m.fits n = true ∧ eachFits alternatives others = true := by
  constructor
  · intro h
    cases b with
    | oneOf n others => exact ⟨n, others, rfl, Bool.and_eq_true_iff.mp h⟩
    | _ => cases h
  · rintro ⟨n, others, rfl, h⟩
    exact Bool.and_eq_true_iff.mpr h

theorem empty_fits_iff : (empty m).fits b = true ↔ ∃ n, b = empty n ∧ m.fits n = true := by
  constructor
  · intro h
    cases b with
    | empty n => exact ⟨n, rfl, h⟩
    | _ => cases h
  · rintro ⟨n, rfl, h⟩
    exact h

theorem restriction_fits_iff {kind : Restriction} :
    (restriction m kind).fits b = true ↔ ∃ n other, b = restriction n other ∧
      m.fits n = true ∧ kind.sameKind other = true := by
  constructor
  · intro h
    cases b with
    | restriction n other => exact ⟨n, other, rfl, Bool.and_eq_true_iff.mp h⟩
    | _ => cases h
  · rintro ⟨n, other, rfl, h⟩
    exact Bool.and_eq_true_iff.mpr h

theorem eachFits_cons_iff {a : Symbol} {as bs : List Symbol} :
    eachFits (a :: as) bs = true ↔
      ∃ b others, bs = b :: others ∧ a.fits b = true ∧ eachFits as others = true := by
  constructor
  · intro h
    cases bs with
    | nil => cases h
    | cons b others => exact ⟨b, others, rfl, Bool.and_eq_true_iff.mp h⟩
  · rintro ⟨b, others, rfl, h⟩
    exact Bool.and_eq_true_iff.mpr h

mutual

theorem fits_refl : ∀ a : Symbol, a.fits a = true
  | .terminal m _ => terminal_fits_iff.mpr ⟨m, rfl, m.fits_refl⟩
  | .nonterminal m _ _ => nonterminal_fits_iff.mpr ⟨m, _, rfl, m.fits_refl, Or.inr rfl⟩
  | .butNot m left right =>
    butNot_fits_iff.mpr ⟨m, left, right, rfl, m.fits_refl, fits_refl left, fits_refl right⟩
  | .oneOf m alternatives => oneOf_fits_iff.mpr ⟨m, _, rfl, m.fits_refl, eachFits_refl alternatives⟩
  | .empty m => empty_fits_iff.mpr ⟨m, rfl, m.fits_refl⟩
  | .restriction m kind => restriction_fits_iff.mpr ⟨m, kind, rfl, m.fits_refl, kind.sameKind_refl⟩

theorem eachFits_refl : ∀ as : List Symbol, eachFits as as = true
  | [] => rfl
  | a :: as => eachFits_cons_iff.mpr ⟨a, as, rfl, fits_refl a, eachFits_refl as⟩

end

mutual

theorem fits_trans : ∀ {a b c : Symbol}, a.fits b = true → b.fits c = true → a.fits c = true
  | .terminal .., _, _, hab, hbc => by
    obtain ⟨n, rfl, hm⟩ := terminal_fits_iff.mp hab
    obtain ⟨k, rfl, hn⟩ := terminal_fits_iff.mp hbc
    exact terminal_fits_iff.mpr ⟨k, rfl, Mark.fits_trans hm hn⟩
  | .nonterminal _ _ given, _, _, hab, hbc => by
    obtain ⟨n, expected, rfl, hm, hgiven⟩ := nonterminal_fits_iff.mp hab
    obtain ⟨k, final, rfl, hn, hexpected⟩ := nonterminal_fits_iff.mp hbc
    refine nonterminal_fits_iff.mpr ⟨k, final, rfl, Mark.fits_trans hm hn, ?_⟩
    -- arguments that are given are given all the way
    rcases hgiven with rfl | rfl
    · exact Or.inl rfl
    · exact hexpected
  | .butNot .., _, _, hab, hbc => by
    obtain ⟨n, left, right, rfl, hm, hleft, hright⟩ := butNot_fits_iff.mp hab
    obtain ⟨k, left', right', rfl, hn, hleft', hright'⟩ := butNot_fits_iff.mp hbc
    exact butNot_fits_iff.mpr ⟨k, left', right', rfl, Mark.fits_trans hm hn,
      fits_trans hleft hleft', fits_trans hright hright'⟩
  | .oneOf .., _, _, hab, hbc => by
    obtain ⟨n, others, rfl, hm, hothers⟩ := oneOf_fits_iff.mp hab
    obtain ⟨k, others', rfl, hn, hothers'⟩ := oneOf_fits_iff.mp hbc
    exact oneOf_fits_iff.mpr ⟨k, others', rfl, Mark.fits_trans hm hn, eachFits_trans hothers hothers'⟩
  | .empty _, _, _, hab, hbc => by
    obtain ⟨n, rfl, hm⟩ := empty_fits_iff.mp hab
    obtain ⟨k, rfl, hn⟩ := empty_fits_iff.mp hbc
    exact empty_fits_iff.mpr ⟨k, rfl, Mark.fits_trans hm hn⟩
  | .restriction .., _, _, hab, hbc => by
    obtain ⟨n, other, rfl, hm, hkind⟩ := restriction_fits_iff.mp hab
    obtain ⟨k, other', rfl, hn, hkind'⟩ := restriction_fits_iff.mp hbc
    exact restriction_fits_iff.mpr
      ⟨k, other', rfl, Mark.fits_trans hm hn, Restriction.sameKind_trans hkind hkind'⟩

theorem eachFits_trans : ∀ {as bs cs : List Symbol},
    eachFits as bs = true → eachFits bs cs = true → eachFits as cs = true
  | [], bs, _, hab, hbc => by
    cases bs with
    | nil => exact hbc
    | cons b bs => simp [eachFits] at hab
  | a :: as, _, _, hab, hbc => by
    obtain ⟨b, bs, rfl, ha, has⟩ := eachFits_cons_iff.mp hab
    obtain ⟨c, cs, rfl, hb, hbs⟩ := eachFits_cons_iff.mp hbc
    exact eachFits_cons_iff.mpr ⟨c, cs, rfl, fits_trans ha hb, eachFits_trans has hbs⟩

end

/-! ## 3. What may be left out -/

theorem mark_fits {a b : Symbol} (h : a.fits b = true) : a.mark.fits b.mark = true := by
  cases a with
  | terminal m text =>
    obtain ⟨n, rfl, hm⟩ := terminal_fits_iff.mp h
    exact hm
  | nonterminal m name given =>
    obtain ⟨n, expected, rfl, hm, -⟩ := nonterminal_fits_iff.mp h
    exact hm
  | butNot m left right =>
    obtain ⟨n, left', right', rfl, hm, -⟩ := butNot_fits_iff.mp h
    exact hm
  | oneOf m alternatives =>
    obtain ⟨n, others, rfl, hm, -⟩ := oneOf_fits_iff.mp h
    exact hm
  | empty m =>
    obtain ⟨n, rfl, hm⟩ := empty_fits_iff.mp h
    exact hm
  | restriction m kind =>
    obtain ⟨n, other, rfl, hm, -⟩ := restriction_fits_iff.mp h
    exact hm

theorem skippable_of_optional {a : Symbol} (h : a.optional = true) : a.skippable = true := by
  cases a with
  | restriction => rfl
  | _ => exact h

/-- A symbol that may be left out fits only symbols that may be left out. -/
theorem skippable_of_fits {a b : Symbol} (h : a.fits b = true) (ha : a.skippable = true) :
    b.skippable = true := by
  by_cases hoptional : a.optional = true
  · exact skippable_of_optional (Mark.optional_of_fits (mark_fits h) hoptional)
  · -- what is not optional and may yet be left out is a restriction
    cases a with
    | restriction m kind =>
      obtain ⟨n, other, rfl, -⟩ := restriction_fits_iff.mp h
      rfl
    | _ => exact absurd ha hoptional

end Symbol

/-! ## 4. Alignments -/

theorem aligns_id (symbols : List Symbol) : Aligns symbols symbols id where
  increasing := strictMono_id
  fits := fun i => Symbol.fits_refl (symbols.get i)
  skips := fun j hj => absurd rfl (hj j)

theorem Aligns.comp {a b c : List Symbol} {f : Fin a.length → Fin b.length}
    {g : Fin b.length → Fin c.length} (hg : Aligns b c g) (hf : Aligns a b f) :
    Aligns a c (g ∘ f) where
  increasing := hg.increasing.comp hf.increasing
  fits := fun i => Symbol.fits_trans (hf.fits i) (hg.fits (f i))
  skips := by
    intro k hk
    by_cases hhit : ∃ j, g j = k
    · -- the symbol is hit by one that the first step leaves out
      obtain ⟨j, rfl⟩ := hhit
      have hj : (b.get j).skippable = true := hf.skips j fun i hi => hk i (congrArg g hi)
      exact Symbol.skippable_of_fits (hg.fits j) hj
    · exact hg.skips k fun j hj => hhit ⟨j, hj⟩

theorem sequenceFits_refl (symbols : List Symbol) : sequenceFits symbols symbols = true :=
  (sequenceFits_iff_aligns symbols symbols).mpr ⟨id, aligns_id symbols⟩

theorem sequenceFits_trans {a b c : List Symbol} (hab : sequenceFits a b = true)
    (hbc : sequenceFits b c = true) : sequenceFits a c = true := by
  obtain ⟨f, hf⟩ := (sequenceFits_iff_aligns a b).mp hab
  obtain ⟨g, hg⟩ := (sequenceFits_iff_aligns b c).mp hbc
  exact (sequenceFits_iff_aligns a c).mpr ⟨g ∘ f, hg.comp hf⟩

/-- Every sequence of symbols fits itself, and what fits a sequence fits all that this one fits. -/
theorem isPreorder_sequenceFits :
    (∀ symbols : List Symbol, sequenceFits symbols symbols = true) ∧
      ∀ a b c : List Symbol, sequenceFits a b = true → sequenceFits b c = true →
        sequenceFits a c = true :=
  ⟨sequenceFits_refl, fun _ _ _ => sequenceFits_trans⟩

/-- Two steps leave out a restriction and an optional symbol with arguments, and the way back is closed. -/
theorem isPreorder_sequenceFits_restricted :
    let semicolon := Symbol.terminal ⟨false, 0⟩ [';']
    let a := [semicolon]
    let b := [Symbol.nonterminal ⟨true, 0⟩ ['A'] none, semicolon]
    let c := [Symbol.nonterminal ⟨true, 0⟩ ['A'] (some [⟨.question, ['X']⟩]),
      Symbol.restriction ⟨false, 9⟩ .noLineTerminator, semicolon]
    sequenceFits a b = true ∧ sequenceFits b c = true ∧ sequenceFits a c = true ∧
      sequenceFits c b = false ∧ sequenceFits b a = false := by
  intro semicolon a b c
  have hab : sequenceFits a b = true := by decide
  have hbc : sequenceFits b c = true := by decide
  exact ⟨hab, hbc, isPreorder_sequenceFits.2 a b c hab hbc, by decide, by decide⟩

end Errata.Grammar
