import Errata.Header
import Errata.Proofs.Document.Tree
import Errata.Proofs.Finding

/-!
# Where problems of headers are found

A problem of a header is before one of the characters of its text. That text is put together from pieces
of the source, so the problem has a place in the source.
-/

namespace Errata.Header

open Text

/-- The position is before a character of the text. -/
def IsBefore (t : Text) (n : Nat) : Prop := t.IsPosition n ∧ n < t.size

theorem isBefore_of_append {t before after : Text} (ht : t = before ++ after) (hafter : after ≠ []) :
    IsBefore t before.size := by
  have hpos : 0 < size after := Nat.pos_of_ne_zero fun hzero => hafter (size_eq_zero_iff.mp hzero)
  refine ⟨⟨before, after, by simp [ht], rfl⟩, ?_⟩
  rw [ht, size_append]
  omega

/-! ## 1. Texts -/

theorem isBefore_checkName {contents name after : Text} (hcontents : contents = name ++ after)
    (hafter : after ≠ []) : ∀ f ∈ checkName name, IsBefore contents f.offset := by
  have hstart : IsBefore contents 0 := by
    refine @isBefore_of_append contents [] contents rfl ?_
    rw [hcontents]
    exact List.append_ne_nil_of_right_ne_nil name hafter
  have hend : IsBefore contents name.trimEnd.size := by
    have htrim := (trimEnd_append name).1
    rw [← htrim, List.append_assoc] at hcontents
    exact isBefore_of_append hcontents (List.append_ne_nil_of_right_ne_nil _ hafter)
  unfold checkName
  dsimp only
  split
  · exact List.forall_mem_singleton.mpr hend
  split
  · exact List.forall_mem_nil _
  · exact List.forall_mem_singleton.mpr hstart

/-- Behind an opening parenthesis something follows if the whole ends with a closing one. -/
theorem append_of_endsWith {contents : Text} (h : contents.endsWith ")") {n : Nat}
    (hn : contents.find? ['('] = some n) :
    ∃ rest, contents = contents.take n ++ '(' :: rest ∧ rest ≠ [] := by
  obtain ⟨rest, hrest⟩ := prefix_of_find? hn
  have hsplit : contents = contents.take n ++ '(' :: rest := by
    rw [← List.singleton_append, hrest, List.take_append_drop]
  refine ⟨rest, hsplit, ?_⟩
  rintro rfl
  -- otherwise the last character would be both parentheses
  obtain ⟨init, hinit⟩ := List.isSuffixOf_iff_suffix.mp h
  have hlast := congrArg List.getLast? (hinit.trans hsplit)
  have hclosing : (init ++ ")".toList).getLast? = some ')' := List.getLast?_concat
  rw [hclosing, List.getLast?_concat] at hlast
  cases hlast

theorem isBefore_checkContents (contents : Text) :
    ∀ f ∈ checkContents contents, IsBefore contents f.offset := by
  unfold checkContents
  split
  · exact List.forall_mem_nil _
  · rename_i hlooked
    have hends : contents.endsWith ")" = true := by
      rw [Bool.or_eq_true, not_or, Bool.not_eq_true', Bool.not_eq_false] at hlooked
      exact hlooked.1
    split
    · exact List.forall_mem_nil _
    · rename_i n hn
      obtain ⟨rest, hsplit, hrest⟩ := append_of_endsWith hends hn
      refine List.forall_mem_append.mpr ⟨isBefore_checkName hsplit (List.cons_ne_nil _ _), ?_⟩
      split
      · exact List.forall_mem_nil _
      · intro f hf
        rw [List.mem_singleton.mp hf]
        have hparen : contents = (contents.take n ++ ['(']) ++ rest := by
          rw [List.append_assoc]
          exact hsplit
        have hbefore := isBefore_of_append hparen hrest
        rw [size_append] at hbefore
        exact hbefore

theorem isBefore_checkText (t : Text) : ∀ f ∈ checkText t, IsBefore t f.offset := by
  intro f hf
  obtain ⟨f, hfound, rfl⟩ := List.mem_map.mp hf
  obtain ⟨hposition, hlt⟩ := isBefore_checkContents t.trim f hfound
  -- the trimmed text stands in the whole behind the blanks at its start
  obtain ⟨lead, trail, hlead, -, -, -, ht⟩ := Line.raw_eq t
  have hsize : t.size - t.trimStart.size = lead.size := by
    have hsplit : lead ++ t.trimStart = t := by
      rw [hlead, take_length_sub_trimStart]
      exact List.takeWhile_append_dropWhile
    have := congrArg size hsplit
    rw [size_append] at this
    omega
  have hheld : t.Holds lead.size (t.trim ++ trail) := ⟨lead, [], by simpa [trim] using ht, rfl⟩
  refine ⟨?_, ?_⟩
  · show t.IsPosition (t.size - t.trimStart.size + f.offset)
    rw [hsize]
    exact hheld.left.isPosition hposition
  · show t.size - t.trimStart.size + f.offset < t.size
    rw [hsize]
    have := hheld.left.le_size
    omega

/-! ## 2. Elements -/

section Elements

variable {doc : Document} {text : Text} {pos : Nat}

theorem yields_checkElement (hdoc : doc.Sound text pos) {id : NodeId} (hid : id < doc.count) :
    Yields (fun complaints => ∀ c ∈ complaints, c.IsShown doc text) (checkElement doc id) := by
  obtain ⟨pieces, hpieces, htext, hoffset⟩ := hdoc.textExcluding hid Collection.deletedName
  unfold checkElement
  rw [htext]
  apply Ends.mapM
  intro f hf
  obtain ⟨hposition, hlt⟩ := isBefore_checkText _ f hf
  obtain ⟨offset, hfound, hshown⟩ := Document.isShown_pieceOffset? hpieces hposition hlt
  rw [hoffset, hfound]
  exact ⟨hid, hshown⟩

theorem yields_check (hdoc : doc.Sound text pos) {headers : List Collection.Header}
    (h : ∀ header ∈ headers, header.element < doc.count) :
    Yields (fun complaints => ∀ c ∈ complaints, c.IsShown doc text) (check doc headers) := by
  have hall : Yields (fun found => ∀ complaints ∈ found, ∀ c ∈ complaints, c.IsShown doc text)
      ((headers.filter fun header => !header.inAnnex).mapM fun header =>
        checkElement doc header.element) :=
    Ends.mapM fun header hheader => yields_checkElement hdoc (h header (List.mem_filter.mp hheader).1)
  refine Ends.bind hall fun found hfound c hc => ?_
  obtain ⟨complaints, hmem, hc⟩ := List.mem_flatten.mp hc
  exact hfound complaints hmem c hc

end Elements

end Errata.Header
