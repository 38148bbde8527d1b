import Errata.Finding
import Errata.Proofs.Text.Excerpt

/-!
# Findings in a part of a text

Where a part of a text is looked at, findings are at positions of that part. If all positions of the part
are shown in the text, so are the complaints that the findings become.
-/

namespace Errata

/-- All findings are at positions of the text. -/
def FoundIn {α : Type} (t : Text) (found : List (Finding α)) : Prop :=
  ∀ f ∈ found, t.IsPosition f.offset

theorem foundIn_nil {α : Type} (t : Text) : FoundIn t ([] : List (Finding α)) :=
  List.forall_mem_nil _

theorem foundIn_singleton {α : Type} {t : Text} {problem : α} {offset : Nat}
    (h : t.IsPosition offset) : FoundIn t [⟨problem, offset⟩] := by
  intro f hf
  rw [List.mem_singleton.mp hf]
  exact h

theorem FoundIn.append {α : Type} {t : Text} {first second : List (Finding α)} (h : FoundIn t first)
    (h' : FoundIn t second) : FoundIn t (first ++ second) :=
  List.forall_mem_append.mpr ⟨h, h'⟩

/-- The complaint is about a node that is in use, at a position that is shown. -/
structure Complaint.IsShown {α : Type} (doc : Document) (text : Text) (c : Complaint α) : Prop where
  element_lt : c.element < doc.count
  offset : text.IsShown c.offset

theorem FoundIn.isShown_complaint {α : Type} {doc : Document} {text part : Text} {found : List (Finding α)}
    (h : FoundIn part found) {base : Nat} (hpart : text.ShowsPart base part) {element : NodeId}
    (helement : element < doc.count) :
    ∀ c ∈ found.map (Finding.complaint element base), c.IsShown doc text := by
  intro c hc
  obtain ⟨f, hf, rfl⟩ := List.mem_map.mp hc
  exact ⟨helement, hpart f.offset (h f hf)⟩

end Errata
