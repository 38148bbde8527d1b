import Errata.Proofs.Step.Nesting
import Mathlib.Data.List.Basic
import Mathlib.Data.List.Induction
import Mathlib.Logic.Relation

/-!
# Levels of indentation

The lines of an algorithm that begin with a marker form a forest: above a line is the nearest before it that
is indented less. Read in order, each line leaves open its own level and the levels above it, and the next
line has to go on with one of these or to be inside all of them.
-/

namespace Errata.Step

/-- A line with a marker as far as the layout is concerned. -/
structure Level where
  indent : Nat
  kind : ListKind

/-! ## 1. The level above a level -/

/-- The number of the nearest level before number `i` that is indented less. -/
def above? (levels : List Level) (i : Nat) : Option Nat :=
  (enclosing [] (levels.map Level.indent))[i]?.join

/-- Number `k` is number `i` or one that stands above it. -/
def LeadsUp (levels : List Level) (i k : Nat) : Prop :=
  Relation.ReflTransGen (fun i k => above? levels i = some k) i k

theorem getElem?_enclosing (before indents : List Nat) (i : Nat) :
    (enclosing before indents)[i]? =
      indents[i]?.map fun indent => lastBelow indent ((indents.take i).reverse ++ before) := by
  induction indents generalizing before i with
  | nil => rfl
  | cons indent indents ih =>
    cases i with
    | zero => rfl
    | succ i => simp [enclosing, ih]

theorem lastBelow_eq_some_iff {indent k : Nat} {indents : List Nat} :
    lastBelow indent indents.reverse = some k ↔ ∃ hk : k < indents.length, indents[k] < indent ∧
      ∀ x (hx : x < indents.length), k < x → indent ≤ indents[x] := by
  induction indents using List.reverseRecOn with
  | nil => simp [lastBelow]
  | append_singleton indents last ih =>
    rw [List.reverse_append, List.reverse_singleton, List.singleton_append, lastBelow,
      List.length_reverse]
    split
    · grind
    · rw [ih]
      grind

theorem lastBelow_eq_none {indent : Nat} {before : List Nat} (h : lastBelow indent before = none) :
    ∀ other ∈ before, indent ≤ other := by
  induction before with
  | nil => simp
  | cons first before ih =>
    rw [lastBelow] at h
    split at h
    · cases h
    · grind

section Above

variable {levels : List Level} {i j k : Nat}

theorem above?_eq (hi : i < levels.length) :
    above? levels i = lastBelow levels[i].indent ((levels.take i).map Level.indent).reverse := by
  simp [above?, getElem?_enclosing, hi]

theorem above?_eq_some_iff (hi : i < levels.length) :
    above? levels i = some k ↔ ∃ hk : k < i, levels[k].indent < levels[i].indent ∧
      ∀ x (hx : x < i), k < x → levels[i].indent ≤ levels[x].indent := by
  rw [above?_eq hi, lastBelow_eq_some_iff]
  grind

/-- What is above a line comes no earlier than any line before it that is indented less. -/
theorem exists_above? (hi : i < levels.length) (hk : k < i)
    (hless : levels[k].indent < levels[i].indent) : ∃ p, above? levels i = some p ∧ k ≤ p := by
  cases habove : above? levels i with
  | none =>
    have hmem : levels[k] ∈ levels.take i := List.mem_take_iff_getElem.mpr ⟨k, by omega, rfl⟩
    have hle := lastBelow_eq_none ((above?_eq hi).symm.trans habove) levels[k].indent
      (List.mem_reverse.mpr (List.mem_map_of_mem hmem))
    omega
  | some p =>
    refine ⟨p, rfl, ?_⟩
    grind [above?_eq_some_iff]

/-- The lines above a line, and it, are those after which all lines to it are indented more. -/
theorem leadsUp_iff (hi : i < levels.length) :
    LeadsUp levels i k ↔
      ∃ hk : k ≤ i, ∀ x (hx : x ≤ i), k < x → levels[k].indent < levels[x].indent := by
  constructor
  · intro h
    unfold LeadsUp at h
    induction h with
    | refl => grind
    | @tail j k hj hstep ih => grind [above?_eq_some_iff]
  · -- up from `i` the next line comes no earlier than `k`, as `k` is indented less
    induction i using Nat.strongRecOn with
    | ind i ih =>
      rintro ⟨hk, hmore⟩
      rcases Nat.lt_or_eq_of_le hk with hlt | rfl
      · obtain ⟨p, hp, hle⟩ := exists_above? hi hlt (hmore i (Nat.le_refl i) hlt)
        obtain ⟨hpi, -, -⟩ := (above?_eq_some_iff hi).mp hp
        exact Relation.ReflTransGen.head hp (ih p hpi (by omega) ⟨hle, fun x hx => hmore x (by omega)⟩)
      · exact Relation.ReflTransGen.refl

/-- Two lines with the same indentation and only deeper ones between them have the same line above. -/
theorem above?_eq_above? (hj : j < levels.length) (hi : i < j)
    (hsame : levels[i].indent = levels[j].indent)
    (hbetween : ∀ x (hx : x < j), i < x → levels[i].indent < levels[x].indent) :
    above? levels i = above? levels j := by
  ext k
  rw [above?_eq_some_iff (by omega), above?_eq_some_iff hj]
  grind

end Above

/-! ## 2. Open levels -/

/-- The levels that are open after a line with a marker: its own and those that are indented less. -/
def enter (opened : List Level) (level : Level) : List Level :=
  level :: opened.filter (·.indent < level.indent)

/-- A line with a marker is inside all levels that are open or goes on with one of them. -/
def Fits (opened : List Level) (level : Level) : Prop :=
  (∀ other ∈ opened, other.indent < level.indent) ∨
    ∃ other ∈ opened, other.indent = level.indent ∧ other.kind = level.kind

/-- The levels that are open after some lines. -/
def openedBy (levels : List Level) : List Level := levels.foldl enter []

theorem openedBy_concat (before : List Level) (level : Level) :
    openedBy (before ++ [level]) = enter (openedBy before) level := by
  rw [openedBy, List.foldl_append]
  rfl

/-- A line is inside all levels that are open if it is indented more than the last line with a marker. -/
theorem inside_openedBy_iff {before : List Level} {indent : Nat} :
    (openedBy before ≠ [] ∧ ∀ other ∈ openedBy before, other.indent < indent) ↔
      ∃ last ∈ before.getLast?, last.indent < indent := by
  cases before using List.reverseRecOn with
  | nil => simp [openedBy]
  | append_singleton before last =>
    rw [openedBy_concat, enter, List.getLast?_concat]
    simp only [Option.mem_some_iff, exists_eq_left', List.forall_mem_cons, List.mem_filter,
      decide_eq_true_eq]
    grind

theorem mem_openedBy_iff {levels : List Level} {level : Level} :
    level ∈ openedBy levels ↔ ∃ k, ∃ hk : k < levels.length, levels[k] = level ∧
      ∀ x (hx : x < levels.length), k < x → level.indent < levels[x].indent := by
  induction levels using List.reverseRecOn with
  | nil => simp [openedBy]
  | append_singleton levels last ih =>
    have hmem : level ∈ openedBy (levels ++ [last]) ↔
        level = last ∨ level ∈ openedBy levels ∧ level.indent < last.indent := by
      simp [openedBy, enter]
    rw [hmem, ih]
    constructor
    · rintro (rfl | ⟨⟨k, hk, rfl, hmore⟩, hless⟩)
      · exact ⟨levels.length, by grind⟩
      · exact ⟨k, by grind⟩
    · rintro ⟨k, hk, rfl, hmore⟩
      grind

/-- The levels that are open after a line are its own and those above it. -/
theorem mem_openedBy_take_iff {levels : List Level} {i : Nat} (hi : i < levels.length) {level : Level} :
    level ∈ openedBy (levels.take (i + 1)) ↔ ∃ k, ∃ hk : k < levels.length, levels[k] = level ∧
      LeadsUp levels i k := by
  simp only [mem_openedBy_iff, leadsUp_iff hi]
  constructor
  · rintro ⟨k, hk, rfl, hmore⟩
    exact ⟨k, by grind⟩
  · rintro ⟨k, hk, rfl, hmore⟩
    exact ⟨k, by grind⟩

theorem fits_openedBy_iff {levels : List Level} {i : Nat} (hi : i + 1 < levels.length) :
    Fits (openedBy (levels.take (i + 1))) levels[i + 1] ↔ levels[i].indent < levels[i + 1].indent ∨
      ∃ k, ∃ hk : k < levels.length, LeadsUp levels i k ∧
        levels[k].indent = levels[i + 1].indent ∧ levels[k].kind = levels[i + 1].kind := by
  unfold Fits
  refine or_congr ⟨fun hall => ?_, fun hless other hother => ?_⟩ ⟨?_, ?_⟩
  · exact hall _ ((mem_openedBy_take_iff (by omega)).mpr ⟨i, by omega, rfl, Relation.ReflTransGen.refl⟩)
  · obtain ⟨k, hk, rfl, habove⟩ := (mem_openedBy_take_iff (by omega)).mp hother
    obtain ⟨hle, hmore⟩ := (leadsUp_iff (by omega)).mp habove
    grind
  · rintro ⟨other, hother, hsame⟩
    obtain ⟨k, hk, rfl, habove⟩ := (mem_openedBy_take_iff (by omega)).mp hother
    exact ⟨k, hk, habove, hsame⟩
  · rintro ⟨k, hk, habove, hsame⟩
    exact ⟨_, (mem_openedBy_take_iff (by omega)).mpr ⟨k, hk, rfl, habove⟩, hsame⟩

/-! ## 3. Lists have one kind -/

/-- Each level fits those that are open before it. -/
def AllFit (levels : List Level) : Prop :=
  ∀ before level after, levels = before ++ level :: after → Fits (openedBy before) level

theorem allFit_iff_getElem {levels : List Level} :
    AllFit levels ↔ ∀ i (hi : i < levels.length), Fits (openedBy (levels.take i)) levels[i] := by
  constructor
  · intro h i hi
    refine h (levels.take i) levels[i] (levels.drop (i + 1)) ?_
    rw [List.getElem_cons_drop, List.take_append_drop]
  · rintro h before level after rfl
    simpa using h before.length (by simp)

/-- A line of a list that is open has the same line above it as the line that goes on with the list. -/
theorem above?_eq_of_leadsUp {levels : List Level} {i k : Nat} (hi : i + 1 < levels.length)
    (hk : k < levels.length) (habove : LeadsUp levels i k)
    (hsame : levels[k].indent = levels[i + 1].indent) : above? levels k = above? levels (i + 1) := by
  obtain ⟨hle, hmore⟩ := (leadsUp_iff (by omega)).mp habove
  exact above?_eq_above? hi (by omega) hsame fun x hx => hmore x (by omega)

/-- Levels below the same level have one kind, since each goes on with the list of the one before. -/
theorem AllFit.kind_eq {levels : List Level} (h : AllFit levels) {i j : Nat} (hj : j < levels.length)
    (hi : i < j) (hsame : above? levels i = above? levels j) : levels[i].kind = levels[j].kind := by
  induction j using Nat.strongRecOn generalizing i with
  | ind j ih =>
    obtain ⟨last, rfl⟩ : ∃ last, j = last + 1 := ⟨j - 1, by omega⟩
    have hfits := (fits_openedBy_iff hj).mp (allFit_iff_getElem.mp h (last + 1) hj)
    rcases hfits with hless | ⟨k, hk, habove, hindent, hkind⟩
    · -- the second begins a list, so what is above it comes after the first
      obtain ⟨p, hp, hle⟩ := exists_above? hj (Nat.lt_succ_self last) hless
      obtain ⟨hpi, -, -⟩ := (above?_eq_some_iff (by omega)).mp (hsame.trans hp)
      omega
    · have hlist := above?_eq_of_leadsUp hj hk habove hindent
      obtain ⟨hle, hmore⟩ := (leadsUp_iff (by omega)).mp habove
      rcases Nat.lt_trichotomy i k with hlt | rfl | hgt
      · exact (ih k (by omega) hk hlt (hsame.trans hlist.symm)).trans hkind
      · exact hkind
      · -- the first is inside the list of the second
        obtain ⟨p, hp, hkp⟩ := exists_above? (by omega) hgt (hmore i (by omega) hgt)
        obtain ⟨hpk, -, -⟩ := (above?_eq_some_iff hk).mp ((hlist.trans hsame.symm).trans hp)
        omega

theorem allFit_iff {levels : List Level} : AllFit levels ↔
    (∀ i (hi : i + 1 < levels.length), levels[i].indent < levels[i + 1].indent ∨
      ∃ k, ∃ hk : k < levels.length, LeadsUp levels i k ∧ levels[k].indent = levels[i + 1].indent) ∧
    ∀ i j (hi : i < levels.length) (hj : j < levels.length), above? levels i = above? levels j →
      levels[i].kind = levels[j].kind := by
  constructor
  · intro h
    refine ⟨fun i hi => ?_, fun i j hi hj hsame => ?_⟩
    · have hfits := (fits_openedBy_iff hi).mp (allFit_iff_getElem.mp h (i + 1) hi)
      rcases hfits with hless | ⟨k, hk, habove, hindent, -⟩
      · exact .inl hless
      · exact .inr ⟨k, hk, habove, hindent⟩
    · rcases Nat.lt_trichotomy i j with hlt | rfl | hgt
      · exact h.kind_eq hj hlt hsame
      · rfl
      · exact (h.kind_eq hi hgt hsame.symm).symm
  · rintro ⟨hopened, hsiblings⟩
    refine allFit_iff_getElem.mpr fun i hi => ?_
    cases i with
    | zero => exact .inl (by simp [openedBy])
    | succ i =>
      rw [fits_openedBy_iff hi]
      refine (hopened i hi).imp_right ?_
      rintro ⟨k, hk, habove, hindent⟩
      exact ⟨k, hk, habove, hindent,
        hsiblings k (i + 1) hk hi (above?_eq_of_leadsUp hi hk habove hindent)⟩

end Errata.Step
