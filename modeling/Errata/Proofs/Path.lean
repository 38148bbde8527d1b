import Errata.Path
import Mathlib.Data.List.Basic

/-!
# Spellings of a path

A path leads to a place below the working directory, if it does not leave it. Two spellings that are not
the same path can lead to the same place: one of them goes up, or only one of them begins with `.`.
-/

namespace Errata.Path

/-! ## 1. The same path -/

theorem same_iff {p q : Path} :
    p.same q = true ↔ p.isAbsolute = q.isAbsolute ∧ p.components = q.components := by
  simp [same]

theorem same_comm (p q : Path) : p.same q = q.same p := by
  rw [Bool.eq_iff_iff, same_iff, same_iff]
  exact ⟨fun h => ⟨h.1.symm, h.2.symm⟩, fun h => ⟨h.1.symm, h.2.symm⟩⟩

theorem same_trans {p q r : Path} (hpq : p.same q = true) (hqr : q.same r = true) : p.same r = true := by
  rw [same_iff] at hpq hqr ⊢
  exact ⟨hpq.1.trans hqr.1, hpq.2.trans hqr.2⟩

/-! ## 2. Places -/

/-- Whether a piece is the name of something. -/
def isNamePiece (piece : Text) : Bool := !piece.isEmpty && piece ≠ ['.']

/-- The place that one piece of a path leads to, its last component first. Above the working directory
there is none, and no way back. -/
def follow : Option (List Text) → Text → Option (List Text)
  | none, _ => none
  | some place, piece =>
    if !isNamePiece piece then some place
    else if piece = ['.', '.'] then place.tail?
    else some (piece :: place)

/-- The place below the working directory that a path leads to. -/
def place? (p : Path) : Option (List Text) :=
  if p.isAbsolute then none else (p.pieces separator).foldl follow (some [])

/-- Whether the path has a component that leads to the directory above. -/
def goesUp (p : Path) : Bool := p.components.contains ['.', '.']

/-- Whether the path begins with the working directory. -/
def isDotted (p : Path) : Bool := p.components.head? = some ['.']

/-! ### Components are the pieces that are names, and a `.` in front -/

theorem isComponent_eq_isNamePiece {index : Nat} {piece : Text} (h : index ≠ 0 ∨ piece ≠ ['.']) :
    isComponent false index piece = isNamePiece piece := by
  unfold isComponent isNamePiece
  cases piece.isEmpty with
  | true => rfl
  | false => by_cases hdot : piece = ['.'] <;> simp_all

theorem filter_zipIdx_succ (pieces : List Text) (n : Nat) :
    ((pieces.zipIdx (n + 1)).filter fun x => isComponent false x.2 x.1).map Prod.fst =
      pieces.filter isNamePiece := by
  induction pieces generalizing n with
  | nil => rfl
  | cons piece pieces ih =>
    rw [List.zipIdx_cons, List.filter_cons, List.filter_cons,
      isComponent_eq_isNamePiece (.inl n.succ_ne_zero)]
    split
    · rw [List.map_cons, ih]
    · exact ih (n + 1)

theorem components_eq {p : Path} (h : p.isAbsolute = false) :
    p.components = (if (p.pieces separator).head? = some ['.'] then [['.']] else []) ++
      (p.pieces separator).filter isNamePiece := by
  rw [components, h]
  cases p.pieces separator with
  | nil => rfl
  | cons piece pieces =>
    show ((((piece, 0) :: pieces.zipIdx 1).filter fun x => isComponent false x.2 x.1).map Prod.fst) = _
    have hrest := filter_zipIdx_succ pieces 0
    rw [List.filter_cons, List.filter_cons, List.head?_cons]
    -- the first piece counts also if it is a `.`
    by_cases hdot : piece = ['.']
    · subst hdot
      rw [if_pos (by rfl), if_pos rfl, if_neg (by decide), List.map_cons, hrest]
      rfl
    · rw [isComponent_eq_isNamePiece (.inr hdot), if_neg (fun heq => hdot (Option.some.inj heq))]
      split
      · rw [List.map_cons, hrest]
        rfl
      · exact hrest

theorem isDotted_eq {p : Path} (h : p.isAbsolute = false) :
    p.isDotted = decide ((p.pieces separator).head? = some ['.']) := by
  rw [isDotted, components_eq h]
  by_cases hdot : (p.pieces separator).head? = some ['.']
  · simp [hdot]
  · rw [if_neg hdot, List.nil_append]
    rw [decide_eq_decide]
    refine ⟨fun hhead => ?_, fun hhead => absurd hhead hdot⟩
    have hname := (List.mem_filter.mp (List.mem_of_head? hhead)).2
    exact absurd hname (by decide)

/-- A path that does not go up leads to the place that its names say. -/
theorem foldl_follow {pieces : List Text} (h : ['.', '.'] ∉ pieces) (place : List Text) :
    pieces.foldl follow (some place) = some ((pieces.filter isNamePiece).reverse ++ place) := by
  induction pieces generalizing place with
  | nil => rfl
  | cons piece pieces ih =>
    rw [List.mem_cons, not_or] at h
    have hup : ¬ piece = ['.', '.'] := fun heq => h.1 heq.symm
    rw [List.foldl_cons, List.filter_cons, follow]
    cases isNamePiece piece with
    | false => exact ih h.2 place
    | true =>
      rw [if_neg Bool.noConfusion, if_neg hup, ih h.2, if_pos rfl, List.reverse_cons, List.append_assoc]
      rfl

theorem place?_eq {p : Path} (h : p.isAbsolute = false) (hup : p.goesUp = false) :
    p.place? = some ((p.pieces separator).filter isNamePiece).reverse := by
  have hpieces : ['.', '.'] ∉ p.pieces separator := by
    intro hmem
    have hcomponent : (['.', '.'] : Text) ∈ p.components := by
      rw [components_eq h]
      exact List.mem_append_right _ (List.mem_filter.mpr ⟨hmem, by decide⟩)
    rw [goesUp, List.contains_eq_mem, decide_eq_false_iff_not] at hup
    exact hup hcomponent
  rw [place?, h, foldl_follow hpieces, List.append_nil]
  rfl

/-- Without going up, only the `.` in front tells spellings of one place apart. -/
theorem same_of_place?_eq {p q : Path} (hp : p.isAbsolute = false) (hq : q.isAbsolute = false)
    (hpup : p.goesUp = false) (hqup : q.goesUp = false) (hdotted : p.isDotted = q.isDotted)
    (h : p.place? = q.place?) : p.same q = true := by
  rw [place?_eq hp hpup, place?_eq hq hqup, Option.some.injEq, List.reverse_inj] at h
  rw [isDotted_eq hp, isDotted_eq hq, decide_eq_decide] at hdotted
  rw [same_iff, hp, hq, components_eq hp, components_eq hq, h]
  simp only [hdotted, and_self]

end Errata.Path
