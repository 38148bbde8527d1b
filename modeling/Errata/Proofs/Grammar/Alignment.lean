import Errata.Grammar.Matching
import Mathlib.Data.List.Basic
import Mathlib.Order.Fin.Basic

/-!
# Alignments of symbol sequences

A fragment fits a definition when its symbols can be sent to symbols of the definition that they fit, in
order and no two to the same place, so that the definition may leave out every symbol that is not hit. The
search of `sequenceFits` tries at each symbol of the definition to hit it and to leave it out; it succeeds
exactly if there is such a map.
-/

namespace Errata.Grammar

/-- `place` sends the symbols of a fragment to symbols of a definition that they fit, and what it does not
hit may be left out. -/
structure Aligns (fragment definition : List Symbol)
    (place : Fin fragment.length → Fin definition.length) : Prop where
  increasing : StrictMono place
  fits : ∀ i, (fragment.get i).fits (definition.get (place i)) = true
  skips : ∀ j, (∀ i, place i ≠ j) → (definition.get j).skippable = true

/-! ## 1. Ends of an alignment -/

theorem aligns_nil_iff {definition : List Symbol}
    {place : Fin ([] : List Symbol).length → Fin definition.length} :
    Aligns [] definition place ↔ definition.all Symbol.skippable = true := by
  rw [List.all_eq_true]
  constructor
  · intro h d hd
    obtain ⟨j, hj⟩ := List.get_of_mem hd
    rw [← hj]
    exact h.skips j fun i => i.elim0
  · intro h
    exact ⟨fun i => i.elim0, fun i => i.elim0, fun j _ => h _ (definition.get_mem j)⟩

/-- Nothing of a fragment can be sent into an empty definition. -/
theorem not_aligns_nil {s : Symbol} {fragment : List Symbol}
    {place : Fin (s :: fragment).length → Fin ([] : List Symbol).length} :
    ¬ Aligns (s :: fragment) [] place :=
  fun _ => (place 0).elim0

section Cons

variable {s d : Symbol} {fragment definition : List Symbol}

/-! ## 2. The first symbol of the definition is hit -/

/-- Sends the first symbol to the first and the others as before. -/
def hitFirst (place : Fin fragment.length → Fin definition.length) :
    Fin (s :: fragment).length → Fin (d :: definition).length :=
  Fin.cases 0 fun i => (place i).succ

theorem Aligns.hit {place : Fin fragment.length → Fin definition.length}
    (hs : s.fits d = true) (h : Aligns fragment definition place) :
    Aligns (s :: fragment) (d :: definition) (hitFirst place) where
  increasing := by
    intro i j hij
    cases i using Fin.cases with
    | zero =>
      cases j using Fin.cases with
      | zero => exact absurd hij (lt_irrefl _)
      | succ j => exact Fin.succ_pos _
    | succ i =>
      cases j using Fin.cases with
      | zero => exact absurd hij (Fin.not_lt_zero _)
      | succ j => exact Fin.succ_lt_succ_iff.mpr (h.increasing (Fin.succ_lt_succ_iff.mp hij))
  fits := by
    intro i
    cases i using Fin.cases with
    | zero => exact hs
    | succ i => exact h.fits i
  skips := by
    intro j hj
    cases j using Fin.cases with
    | zero => exact absurd rfl (hj 0)
    | succ j => exact h.skips j fun i hi => hj i.succ (congrArg Fin.succ hi)

/-- An alignment that hits the first symbol aligns the rest of the fragment with the rest of the
definition. -/
theorem Aligns.of_hit {place : Fin (s :: fragment).length → Fin (d :: definition).length}
    (h : Aligns (s :: fragment) (d :: definition) place) (hfirst : place 0 = 0) :
    s.fits d = true ∧ ∃ rest, Aligns fragment definition rest := by
  have hfits := h.fits 0
  rw [hfirst] at hfits
  have hpos : ∀ i : Fin fragment.length, place i.succ ≠ 0 := by
    intro i hi
    have hlt := h.increasing (Fin.succ_pos i)
    rw [hi] at hlt
    exact Fin.not_lt_zero _ hlt
  refine ⟨hfits, fun i => (place i.succ).pred (hpos i), ?_, ?_, ?_⟩
  · intro i j hij
    exact Fin.pred_lt_pred_iff.mpr (h.increasing (Fin.succ_lt_succ_iff.mpr hij))
  · intro i
    have hi := h.fits i.succ
    rw [← Fin.succ_pred _ (hpos i)] at hi
    exact hi
  · intro j hj
    refine h.skips j.succ fun i => ?_
    cases i using Fin.cases with
    | zero => rw [hfirst]; exact (Fin.succ_ne_zero j).symm
    | succ i =>
      intro hi
      exact hj i (Fin.succ_injective _ (by rw [Fin.succ_pred, hi]))

/-! ## 3. The first symbol of the definition is left out -/

theorem Aligns.skip {place : Fin fragment.length → Fin definition.length}
    (hd : d.skippable = true) (h : Aligns fragment definition place) :
    Aligns fragment (d :: definition) fun i => (place i).succ where
  increasing := fun _ _ hij => Fin.succ_lt_succ_iff.mpr (h.increasing hij)
  fits := h.fits
  skips := by
    intro j hj
    cases j using Fin.cases with
    | zero => exact hd
    | succ j => exact h.skips j fun i hi => hj i (congrArg Fin.succ hi)

/-- An alignment that does not hit the first symbol leaves it out, since the later symbols of the fragment
are sent even further. -/
theorem Aligns.of_skip {place : Fin (s :: fragment).length → Fin (d :: definition).length}
    (h : Aligns (s :: fragment) (d :: definition) place) (hfirst : place 0 ≠ 0) :
    d.skippable = true ∧ ∃ rest, Aligns (s :: fragment) definition rest := by
  have hpos : ∀ i, place i ≠ 0 := by
    intro i hi
    have hle : place 0 ≤ place i := h.increasing.monotone (Fin.zero_le i)
    rw [hi] at hle
    exact hfirst (Fin.le_zero_iff.mp hle)
  refine ⟨h.skips 0 hpos, fun i => (place i).pred (hpos i), ?_, ?_, ?_⟩
  · intro i j hij
    exact Fin.pred_lt_pred_iff.mpr (h.increasing hij)
  · intro i
    have hi := h.fits i
    rw [← Fin.succ_pred _ (hpos i)] at hi
    exact hi
  · intro j hj
    refine h.skips j.succ fun i hi => ?_
    exact hj i (Fin.succ_injective _ (by rw [Fin.succ_pred, hi]))

end Cons

/-! ## 4. The search finds an alignment if there is one -/

theorem sequenceFits_nil_iff_aligns (definition : List Symbol) :
    sequenceFits [] definition = true ↔ ∃ place, Aligns [] definition place := by
  rw [sequenceFits]
  exact ⟨fun h => ⟨fun i => i.elim0, aligns_nil_iff.mpr h⟩, fun ⟨_, h⟩ => aligns_nil_iff.mp h⟩

theorem sequenceFits_iff_aligns (fragment definition : List Symbol) :
    sequenceFits fragment definition = true ↔ ∃ place, Aligns fragment definition place := by
  induction definition generalizing fragment with
  | nil =>
    cases fragment with
    | nil => exact sequenceFits_nil_iff_aligns []
    | cons s fragment =>
      refine ⟨fun h => ?_, fun ⟨_, h⟩ => absurd h not_aligns_nil⟩
      rw [sequenceFits] at h
      exact absurd h Bool.false_ne_true
  | cons d definition ih =>
    cases fragment with
    | nil => exact sequenceFits_nil_iff_aligns (d :: definition)
    | cons s fragment =>
      rw [sequenceFits, Bool.or_eq_true, Bool.and_eq_true, Bool.and_eq_true, ih, ih]
      constructor
      · rintro (⟨hs, place, h⟩ | ⟨hd, place, h⟩)
        · exact ⟨hitFirst place, h.hit hs⟩
        · exact ⟨_, h.skip hd⟩
      · rintro ⟨place, h⟩
        by_cases hfirst : place 0 = 0
        · exact Or.inl (h.of_hit hfirst)
        · exact Or.inr (h.of_skip hfirst)

/-- A fragment fits a definition exactly if there is a strictly increasing map from its places to those of
the definition under which every symbol fits its image and what is not hit may be left out. -/
theorem sequenceFits_iff_exists_strictMono (fragment definition : List Symbol) :
    sequenceFits fragment definition = true ↔
      ∃ place : Fin fragment.length → Fin definition.length,
        StrictMono place ∧
        (∀ i, (fragment.get i).fits (definition.get (place i)) = true) ∧
        ∀ j, (∀ i, place i ≠ j) → (definition.get j).skippable = true := by
  rw [sequenceFits_iff_aligns]
  constructor
  · rintro ⟨place, h⟩
    exact ⟨place, h.increasing, h.fits, h.skips⟩
  · rintro ⟨place, hincreasing, hfits, hskips⟩
    exact ⟨place, hincreasing, hfits, hskips⟩

end Errata.Grammar
