import Errata.Text.Basic

/-!
Texts of bounded length. There are only so many of them, so what asks for a new one at every step comes
to an end.
-/

namespace Errata.Text

/-- All characters. -/
noncomputable def characters : List Char := (List.range 0x110000).map Char.ofNat

theorem mem_characters (c : Char) : c ∈ characters := by
  refine List.mem_map.mpr ⟨c.toNat, List.mem_range.mpr ?_, Char.ofNat_toNat c⟩
  rcases c.valid with h | h
  · exact Nat.lt_trans h (by decide)
  · exact h.2

/-- The texts of at most `n` characters. -/
noncomputable def upTo : Nat → List Text
  | 0 => [[]]
  | n + 1 => [] :: characters.flatMap fun c => (upTo n).map (c :: ·)

theorem mem_upTo {t : Text} {n : Nat} (h : t.length ≤ n) : t ∈ upTo n := by
  induction n generalizing t with
  | zero =>
    rw [List.length_eq_zero_iff.mp (Nat.le_zero.mp h)]
    exact List.mem_singleton_self _
  | succ n ih =>
    cases t with
    | nil => exact List.mem_cons_self
    | cons c t =>
      refine List.mem_cons_of_mem _ (List.mem_flatMap.mpr ⟨c, mem_characters c, ?_⟩)
      exact List.mem_map.mpr ⟨t, ih (Nat.le_of_succ_le_succ h), rfl⟩

theorem length_le_size (t : Text) : t.length ≤ t.size := by
  induction t with
  | nil => exact Nat.le_refl 0
  | cons c t ih =>
    have := c.utf8Size_pos
    rw [List.length_cons, size_cons]
    omega

/-- Fewer texts have a property if one of those that had it before has lost it and none has won it. -/
theorem countP_upTo_lt {p q : Text → Bool} (himp : ∀ t, p t = true → q t = true) {t : Text} {n : Nat}
    (ht : t.size ≤ n) (hp : p t = false) (hq : q t = true) : (upTo n).countP p < (upTo n).countP q := by
  obtain ⟨before, after, hsplit⟩ := List.append_of_mem (mem_upTo (Nat.le_trans t.length_le_size ht))
  have hbefore : before.countP p ≤ before.countP q := List.countP_mono_left fun x _ => himp x
  have hafter : after.countP p ≤ after.countP q := List.countP_mono_left fun x _ => himp x
  rw [hsplit, List.countP_append, List.countP_append, List.countP_cons_of_neg (by simp [hp]),
    List.countP_cons_of_pos hq]
  omega

end Errata.Text
