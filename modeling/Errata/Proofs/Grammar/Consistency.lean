import Errata.Grammar.Consistency
import Errata.Proofs.Document.Tree
import Errata.Proofs.Finding
import Errata.Proofs.Grammar.Placement

/-!
# Where problems of grammar are found

The definitions and fragments of a document stand between the tags of elements, and what is found in them
is shown in the text of the document.
-/

namespace Errata.Grammar.Consistency

open Text

/-! ## 1. Fragments -/

section Fragments

variable {t : Text}

theorem firstLineTerminator?_mem {symbols : List Symbol} {n : Nat}
    (h : firstLineTerminator? symbols = some n) : ∃ s ∈ symbols, lineTerminator? s = some n := by
  induction symbols with
  | nil => cases h
  | cons s symbols ih =>
    rw [firstLineTerminator?] at h
    cases hs : lineTerminator? s with
    | some m =>
      rw [hs] at h
      cases h
      exact ⟨s, List.mem_cons_self, hs⟩
    | none =>
      rw [hs] at h
      obtain ⟨s', hmem, hs'⟩ := ih h
      exact ⟨s', List.mem_cons_of_mem s hmem, hs'⟩

theorem isPosition_lineTerminator? {s : Symbol} (hs : s.Placed t) {n : Nat}
    (h : lineTerminator? s = some n) : t.IsPosition n := by
  induction hs generalizing n with
  | terminal => cases h
  | nonterminal => cases h
  | @butNot mark left right _ _ _ ihLeft ihRight =>
    rw [lineTerminator?] at h
    cases hleft : lineTerminator? left with
    | some m =>
      rw [hleft] at h
      cases h
      exact ihLeft hleft
    | none =>
      rw [hleft] at h
      exact ihRight h
  | oneOf _ _ ih =>
    obtain ⟨s, hs, hfound⟩ := firstLineTerminator?_mem h
    exact ih s hs hfound
  | empty => cases h
  | @restriction mark kind hmark =>
    cases kind with
    | noLineTerminator =>
      cases h
      exact hmark
    | lookahead _ => cases h
    | prose _ => cases h

theorem foundIn_misplaced {side : RightHandSide} (h : side.Placed t) : FoundIn t (misplaced side) := by
  unfold misplaced
  refine FoundIn.append ?_ ?_
  · cases hguard : side.guard with
    | none => exact foundIn_nil t
    | some guard => exact foundIn_singleton (h.guard guard hguard)
  · intro f hf
    obtain ⟨offset, hoffset, rfl⟩ := List.mem_map.mp hf
    obtain ⟨s, hs, hfound⟩ := List.mem_filterMap.mp hoffset
    exact isPosition_lineTerminator? (h.symbols s hs) hfound

theorem foundIn_unknown {side : RightHandSide} (h : side.Placed t)
    (definition : Option (List RightHandSide)) (name : Text) :
    FoundIn t (unknown definition name side) := by
  unfold unknown
  split
  · exact foundIn_singleton h.offset
  · split
    · exact foundIn_nil t
    · exact foundIn_singleton h.offset

theorem foundIn_checkFragment (definitions : List Production) (t : Text) :
    FoundIn t (checkFragment definitions (compile [t] false)) := by
  obtain ⟨hproductions, hdiagnostics⟩ := in_compile [t] false
  unfold checkFragment
  refine FoundIn.append ?_ ?_
  · intro f hf
    obtain ⟨d, hd, hf⟩ := List.mem_filterMap.mp hf
    obtain ⟨t', hsource, hposition⟩ := hdiagnostics d hd
    rw [List.mem_singleton.mp (List.mem_of_getElem? hsource)] at hposition
    split at hf
    · cases hf
      exact hposition
    · cases hf
  · intro f hf
    obtain ⟨p, hp, hf⟩ := List.mem_flatMap.mp hf
    obtain ⟨t', hsource, hplaced⟩ := hproductions p hp
    rw [List.mem_singleton.mp (List.mem_of_getElem? hsource)] at hplaced
    obtain ⟨side, hside, hf⟩ := List.mem_flatMap.mp hf
    have hsidePlaced := hplaced.rightHandSides side hside
    exact (foundIn_misplaced hsidePlaced).append (foundIn_unknown hsidePlaced _ _) f hf

end Fragments

/-! ## 2. Passages -/

section Passages

variable {doc : Document} {text : Text} {pos : Nat}

/-- The passage is that of a node in use, and all of it is shown. -/
structure Passage.IsShown (doc : Document) (text : Text) (p : Passage) : Prop where
  element_lt : p.element < doc.count
  part : text.ShowsPart p.base p.text

theorem yields_passage (hdoc : doc.Sound text pos) {id : NodeId} (hid : id ≠ 0) :
    Yields (fun found => ∀ p, found = some p → p.IsShown doc text) (passage doc id) := by
  unfold passage
  split
  · exact fun _ hp => nomatch hp
  · rename_i e he
    refine (hdoc.yields_inner hid he).bind fun found hfound => ?_
    cases found with
    | none => exact fun _ hp => nomatch hp
    | some part =>
      rintro p hp
      cases hp
      exact ⟨(hdoc.element he).1, hfound part.1 part.2 rfl⟩

theorem yields_passages (hdoc : doc.Sound text pos) {ids : List NodeId} (h : ∀ id ∈ ids, id ≠ 0) :
    Yields (fun ps => ∀ p ∈ ps, p.IsShown doc text) (passages doc ids) := by
  have hall : Yields (fun found => ∀ p? ∈ found, ∀ p, p? = some p → p.IsShown doc text)
      (ids.mapM (passage doc)) :=
    Ends.mapM fun id hid => yields_passage hdoc (h id hid)
  refine Ends.bind hall fun found hfound p hp => ?_
  obtain ⟨p?, hmem, heq⟩ := List.mem_filterMap.mp hp
  exact hfound p? hmem p heq

theorem isShown_definitionComplaint? {definitions : List Passage} {d : Diagnostic}
    {c : Complaint Problem} (h : ∀ p ∈ definitions, p.IsShown doc text)
    (hd : d.In (definitions.map Passage.text)) (hc : definitionComplaint? definitions d = some c) :
    c.IsShown doc text := by
  obtain ⟨p, hp, rfl⟩ := Option.map_eq_some_iff.mp hc
  obtain ⟨t, hsource, hposition⟩ := hd
  rw [List.getElem?_map, hp] at hsource
  cases hsource
  obtain ⟨helement, hpart⟩ := h p (List.mem_of_getElem? hp)
  exact ⟨helement, hpart d.offset hposition⟩

theorem isShown_checkPassages {definitions fragments : List Passage}
    (hdefinitions : ∀ p ∈ definitions, p.IsShown doc text) (hfragments : ∀ p ∈ fragments, p.IsShown doc text) :
    ∀ c ∈ checkPassages compile definitions fragments, c.IsShown doc text := by
  have hdiagnostics := (in_compile (definitions.map Passage.text) true).2
  intro c hc
  unfold checkPassages checkCompilations at hc
  dsimp only at hc
  rw [List.partition_eq_filter_filter] at hc
  -- diagnostics of the definitions, then what the fragments show, then the diagnostics held back
  rcases List.mem_append.mp hc with hc | hc
  · rcases List.mem_append.mp hc with hc | hc
    · obtain ⟨d, hd, hc⟩ := List.mem_filterMap.mp hc
      exact isShown_definitionComplaint? hdefinitions (hdiagnostics d (List.mem_filter.mp hd).1) hc
    · obtain ⟨part, hpart, hc⟩ := List.mem_flatMap.mp hc
      obtain ⟨p, hp, rfl⟩ := List.mem_map.mp hpart
      obtain ⟨helement, hshown⟩ := hfragments p hp
      exact (foundIn_checkFragment _ p.text).isShown_complaint hshown helement c hc
  · obtain ⟨d, hd, hc⟩ := List.mem_filterMap.mp hc
    have hheld := (List.mem_filter.mp (List.mem_filter.mp hd).1).1
    exact isShown_definitionComplaint? hdefinitions (hdiagnostics d hheld) hc

theorem yields_check (hdoc : doc.Sound text pos) {collection : Collection}
    (hgrammars : ∀ id ∈ collection.grammars, id ≠ 0)
    (hoperations : ∀ operation ∈ collection.operations, operation.grammar ≠ 0)
    (hearlyErrors : ∀ group ∈ collection.earlyErrors, group.grammar ≠ 0) :
    Yields (fun complaints => ∀ c ∈ complaints, c.IsShown doc text) (check compile doc collection) := by
  have hids : ∀ id ∈ collection.operations.map Collection.Operation.grammar ++
      collection.earlyErrors.map Collection.EarlyErrors.grammar, id ≠ 0 := by
    refine List.forall_mem_append.mpr ⟨fun id hid => ?_, fun id hid => ?_⟩
    · obtain ⟨operation, hoperation, rfl⟩ := List.mem_map.mp hid
      exact hoperations operation hoperation
    · obtain ⟨group, hgroup, rfl⟩ := List.mem_map.mp hid
      exact hearlyErrors group hgroup
  refine (yields_passages hdoc hgrammars).bind fun definitions hdefinitions => ?_
  refine (yields_passages hdoc hids).bind fun fragments hfragments => ?_
  exact isShown_checkPassages hdefinitions hfragments

end Passages

end Errata.Grammar.Consistency
