import Errata.Scope.Action
import Mathlib.Data.List.Nodup

/-!
# The entries of a scope

What the operations on a scope do to the entries, and the entries that will be complained about if only
certain names are still to be used.
-/

namespace Errata.Scope

/-! ## 1. Looking up names -/

/-- The names that have an entry. -/
def names (s : Scope) : List Text := s.entries.map Prod.fst

theorem isDeclared_iff {s : Scope} {name : Text} : s.isDeclared name = true ↔ name ∈ s.names := by
  rw [isDeclared, get?, List.lookup_isSome_iff, names, List.mem_map]
  constructor
  · rintro ⟨entry, hentry, hname⟩
    exact ⟨entry, hentry, (beq_iff_eq.mp hname).symm⟩
  · rintro ⟨entry, hentry, rfl⟩
    exact ⟨entry, hentry, BEq.rfl⟩

theorem not_isDeclared_iff {s : Scope} {name : Text} :
    s.isDeclared name = false ↔ name ∉ s.names := by
  rw [← isDeclared_iff, Bool.not_eq_true]

/-- The later scope still has the entries of the earlier one, which may have been used since. -/
def Extends (s later : Scope) : Prop :=
  ∀ name d, s.get? name = some d → ∃ e, later.get? name = some e ∧
    e.kind = d.kind ∧ e.offset = d.offset ∧ (d.used = true → e.used = true)

namespace Extends

theorem refl (s : Scope) : Extends s s := fun _ d h => ⟨d, h, rfl, rfl, id⟩

theorem trans {s t u : Scope} (h : Extends s t) (h' : Extends t u) : Extends s u := by
  intro name d hd
  obtain ⟨e, he, hkind, hoffset, hused⟩ := h name d hd
  obtain ⟨f, hf, hkind', hoffset', hused'⟩ := h' name e he
  exact ⟨f, hf, hkind'.trans hkind, hoffset'.trans hoffset, fun hd => hused' (hused hd)⟩

theorem of_entries_eq {s s' : Scope} (h : s'.entries = s.entries) : Extends s s' := by
  intro name d hd
  refine ⟨d, ?_, rfl, rfl, id⟩
  rw [get?, h]
  exact hd

theorem isDeclared {s s' : Scope} (h : Extends s s') {name : Text}
    (hname : s.isDeclared name = true) : s'.isDeclared name = true := by
  obtain ⟨d, hd⟩ := Option.isSome_iff_exists.mp hname
  obtain ⟨e, he, -⟩ := h name d hd
  exact Option.isSome_of_eq_some he

end Extends

/-! ## 2. The operations -/

@[simp] theorem entries_push (s : Scope) : s.push.entries = s.entries := rfl

@[simp] theorem entries_pop (s : Scope) : s.pop.entries = s.entries := by
  unfold pop
  split
  · rfl
  · rfl

/-- A declaration of a new name adds an entry, and any other leaves the entries as they are. -/
theorem declare_cases (s : Scope) (name : Text) (kind : Kind) (offset : Option Nat) (shadow : Bool) :
    (s.isDeclared name = false ∧ (s.declare name kind offset shadow).2 = .new ∧
      (s.declare name kind offset shadow).1.entries = s.entries ++ [(name, ⟨kind, false, offset⟩)]) ∨
    (s.isDeclared name = true ∧ (s.declare name kind offset shadow).2 ≠ .new ∧
      (s.declare name kind offset shadow).1.entries = s.entries) := by
  unfold declare
  by_cases hname : s.isDeclared name = true
  · right
    rw [if_pos hname]
    refine ⟨hname, ?_⟩
    split
    · exact ⟨by simp, rfl⟩
    · exact ⟨by simp, rfl⟩
  · left
    rw [if_neg hname]
    exact ⟨by simpa using hname, rfl, rfl⟩

theorem extends_declare (s : Scope) (name : Text) (kind : Kind) (offset : Option Nat) (shadow : Bool) :
    Extends s (s.declare name kind offset shadow).1 := by
  rcases s.declare_cases name kind offset shadow with ⟨-, -, h⟩ | ⟨-, -, h⟩
  · intro n d hd
    refine ⟨d, ?_, rfl, rfl, id⟩
    rw [get?, h]
    exact (List.prefix_append s.entries _).lookup_eq_some hd
  · exact .of_entries_eq h

theorem nodup_declare {s : Scope} (hs : s.names.Nodup) (name : Text) (kind : Kind)
    (offset : Option Nat) (shadow : Bool) : (s.declare name kind offset shadow).1.names.Nodup := by
  rcases s.declare_cases name kind offset shadow with ⟨hname, -, h⟩ | ⟨-, -, h⟩
  · have hconcat := hs.concat (not_isDeclared_iff.mp hname)
    rw [List.concat_eq_append] at hconcat
    rw [names, h, List.map_append]
    exact hconcat
  · rwa [names, h]

theorem names_use (s : Scope) (name : Text) : (s.use name).names = s.names := by
  rw [names, names, use, List.map_map]
  apply List.map_congr_left
  intro entry _
  show (if entry.1 = name then _ else _ : Text × Declaration).1 = _
  split
  · rfl
  · rfl

theorem get?_use (s : Scope) (used name : Text) :
    (s.use used).get? name =
      (s.get? name).map fun d => if name = used then { d with used := true } else d := by
  obtain ⟨level, outer, entries⟩ := s
  show (List.map _ entries).lookup name = (entries.lookup name).map _
  induction entries with
  | nil => rfl
  | cons entry entries ih =>
    obtain ⟨n, d⟩ := entry
    rw [List.map_cons, List.lookup_cons]
    by_cases hn : n = used
    · rw [if_pos hn, List.lookup_cons]
      by_cases hname : name = n
      · simp [hname, hn]
      · simp only [beq_eq_false_iff_ne.mpr hname]
        exact ih
    · rw [if_neg hn, List.lookup_cons]
      by_cases hname : name = n
      · simp [hname, hn]
      · simp only [beq_eq_false_iff_ne.mpr hname]
        exact ih

theorem extends_use (s : Scope) (used : Text) : Extends s (s.use used) := by
  intro name d hd
  refine ⟨if name = used then { d with used := true } else d, by rw [get?_use, hd]; rfl, ?_⟩
  split
  · exact ⟨rfl, rfl, fun _ => rfl⟩
  · exact ⟨rfl, rfl, id⟩

theorem get?_remove {s : Scope} {name removed : Text} (h : name ≠ removed) :
    (s.remove removed).get? name = s.get? name := by
  obtain ⟨level, outer, entries⟩ := s
  show (List.filter _ entries).lookup name = entries.lookup name
  induction entries with
  | nil => rfl
  | cons entry entries ih =>
    obtain ⟨n, d⟩ := entry
    by_cases hn : n = removed
    · have hne : name ≠ n := hn ▸ h
      rw [List.filter_cons_of_neg (by simpa using hn), List.lookup_cons, beq_eq_false_iff_ne.mpr hne]
      exact ih
    · rw [List.filter_cons_of_pos (by simpa using hn), List.lookup_cons, List.lookup_cons, ih]

theorem nodup_remove {s : Scope} (hs : s.names.Nodup) (name : Text) : (s.remove name).names.Nodup :=
  hs.sublist (List.filter_sublist.map Prod.fst)

/-! ## 3. Complaints to come -/

/-- The complaint about an entry if it is not used any more after the names `later` have been used. -/
def complaint? (later : List Text) (entry : Text × Declaration) : Option (Finding Problem) :=
  if entry.2.used = true ∨ entry.1 ∈ later then none
  else entry.2.offset.bind fun offset =>
    (unusedProblem? entry.1 entry.2.kind).map fun problem => ⟨problem, offset⟩

/-- The complaints about the entries of a scope if only the names `later` are used any more. -/
def pending (s : Scope) (later : List Text) : List (Finding Problem) :=
  s.entries.filterMap (complaint? later)

theorem pending_congr {s : Scope} {later later' : List Text}
    (h : ∀ name ∈ s.names, name ∈ later ↔ name ∈ later') : s.pending later = s.pending later' := by
  apply List.filterMap_congr
  intro entry hentry
  have hname := h entry.1 (List.mem_map_of_mem hentry)
  simp only [complaint?, hname]

theorem pending_append (s : Scope) {t : Scope} {entries : List (Text × Declaration)}
    (h : t.entries = s.entries ++ entries) (later : List Text) :
    t.pending later = s.pending later ++ entries.filterMap (complaint? later) := by
  rw [pending, h, List.filterMap_append]
  rfl

theorem pending_use (s : Scope) (name : Text) (later : List Text) :
    (s.use name).pending later = s.pending (name :: later) := by
  rw [pending, pending, use, List.filterMap_map]
  apply List.filterMap_congr
  intro entry _
  show complaint? later (if entry.1 = name then _ else _) = _
  by_cases h : entry.1 = name
  · rw [if_pos h, complaint?, complaint?, if_pos (.inl rfl), if_pos (.inr (by simp [h]))]
  · rw [if_neg h, complaint?, complaint?]
    simp only [List.mem_cons, h, false_or]

/-- Without the entry of one name the complaint about it is missing. -/
theorem pending_remove {s : Scope} (hs : s.names.Nodup) {name : Text} {d : Declaration}
    (hd : s.get? name = some d) (later : List Text) :
    (s.pending later).Perm ((s.remove name).pending later ++ (complaint? later (name, d)).toList) := by
  obtain ⟨before, after, hentries, -⟩ := List.lookup_eq_some_iff.mp hd
  have hout : name ∉ (before ++ after).map Prod.fst := by
    rw [names, hentries, List.map_append, List.map_cons, List.nodup_middle, ← List.map_append] at hs
    exact (List.nodup_cons.mp hs).1
  have hkept : (before ++ after).filter (·.1 ≠ name) = before ++ after := by
    rw [List.filter_eq_self]
    intro entry hentry
    have hne : entry.1 ≠ name := fun h => hout (h ▸ List.mem_map_of_mem hentry)
    exact decide_eq_true hne
  have hremoved : (s.remove name).entries = before ++ after := by
    show s.entries.filter (·.1 ≠ name) = before ++ after
    rw [← hkept, hentries, List.filter_append, List.filter_cons_of_neg (by simp), List.filter_append]
  rw [pending, pending, hentries, hremoved]
  have hmiddle : (before ++ (name, d) :: after).Perm (before ++ after ++ [(name, d)]) :=
    List.perm_middle.trans (List.perm_append_singleton _ _).symm
  have hmapped := hmiddle.filterMap (complaint? later)
  rw [List.filterMap_append (l := before ++ after)] at hmapped
  exact hmapped

theorem reportUnused_perm (s : Scope) : s.reportUnused.Perm (s.pending []) := by
  have hsorted : s.unused.Perm (s.entries.filter (!·.2.used)) := List.mergeSort_perm _ _
  refine (hsorted.filterMap _).trans ?_
  rw [List.filterMap_filter, pending]
  apply List.Perm.of_eq
  apply List.filterMap_congr
  intro entry _
  cases hused : entry.2.used with
  | true => simp [complaint?, hused]
  | false =>
    have hunused : ¬(entry.2.used = true ∨ entry.1 ∈ []) := by simp [hused]
    rw [complaint?, if_neg hunused]
    simp only [Option.map_eq_bind]
    rfl

end Errata.Scope
