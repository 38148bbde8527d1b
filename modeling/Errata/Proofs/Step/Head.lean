import Errata.Proofs.Except
import Errata.Proofs.Text.Lines
import Errata.Step.Head

/-!
# The first line of a step

The line of a step is its marker, then blanks and maybe attributes in brackets, and then the beginning of
the content.
-/

namespace Errata.Step

open Text

/-- What may stand between a marker and the content: only blanks if there are no attributes, and brackets
with blanks around them otherwise. -/
def IsAttributePart (attributes : List StepAttribute) (part : Text) : Prop :=
  if attributes = [] then part.AllBlank
  else ∃ lead inner trail : Text, part = lead ++ ('[' :: (inner ++ ']' :: trail)) ∧
    lead.AllBlank ∧ trail.AllBlank

/-! ## 1. Attributes -/

theorem passes_attributeAt? {c d : Cursor} {a : StepAttribute} (h : attributeAt? c = some (a, d)) :
    ∃ passed, c.Passes passed d := by
  simp only [attributeAt?, Option.bind_eq_bind, Option.bind_eq_some_iff] at h
  obtain ⟨⟨key, afterKey⟩, hkey, ⟨sign, inQuotes⟩, hquotes, h⟩ := h
  split at h
  · simp only [Option.some.injEq, Prod.mk.injEq] at h
    obtain ⟨_, rfl⟩ := h
    obtain ⟨_, hkey⟩ := Cursor.passes_scan? hkey
    obtain ⟨_, hquotes⟩ := Cursor.passes_scan? hquotes
    exact ⟨_, (((c.passes_skip isBlank).trans hkey).trans hquotes).trans (inQuotes.passes_advance _)⟩
  · simp at h

/-- Attributes that can be read are at least one, and the bracket after them is closed. -/
theorem passes_attributesAt {c d : Cursor} {attributes : List StepAttribute}
    (h : attributesAt c = .ok (attributes, d)) :
    attributes ≠ [] ∧
      ∃ inner trail : Text, trail.AllBlank ∧ c.Passes (inner ++ ']' :: trail) d := by
  fun_induction attributesAt c generalizing attributes d with
  | case1 => simp at h
  | case2 c first e hfirst _ rest hrest ih =>
    obtain ⟨⟨others, last⟩, hothers, h⟩ := bind_eq_ok_iff.mp h
    cases h
    obtain ⟨passed, hpassed⟩ := passes_attributeAt? hfirst
    obtain ⟨lead, -, hlead⟩ := e.passes_skipBlanks
    obtain ⟨blanks, -, hblanks⟩ := (e.skipBlanks.advance 1).passes_skipBlanks
    obtain ⟨-, inner, trail, htrail, hinner⟩ := ih hothers
    have hall := (((hpassed.trans hlead).trans (Cursor.passes_head hrest)).trans hblanks).trans hinner
    rw [← List.append_assoc] at hall
    exact ⟨List.cons_ne_nil _ _, _, trail, htrail, hall⟩
  | case3 c first e hfirst _ rest hrest =>
    cases h
    obtain ⟨passed, hpassed⟩ := passes_attributeAt? hfirst
    obtain ⟨lead, -, hlead⟩ := e.passes_skipBlanks
    obtain ⟨trail, htrail, hblanks⟩ := (e.skipBlanks.advance 1).passes_skipBlanks
    have hall := ((hpassed.trans hlead).trans (Cursor.passes_head hrest)).trans hblanks
    rw [List.append_assoc _ [']']] at hall
    exact ⟨List.cons_ne_nil _ _, _, trail, htrail, hall⟩
  | case4 => simp at h

/-! ## 2. The head -/

theorem head?_of_hasAttributes {t : Text} (h : hasAttributes t = true) : ∃ rest, t = '[' :: rest := by
  obtain ⟨n, hn⟩ := Option.isSome_iff_exists.mp h
  obtain ⟨a, b, ha, -, -⟩ := Scan.seq_cons_eq_some_iff.mp hn
  exact List.head?_eq_some_iff.mp (Scan.char_eq_some_iff.mp ha).1

/-- The marker that a line begins with. -/
def markerOf? (line : Line) : Option Fragment :=
  (marker? line.text).map (Cursor.atStart line.text line.start).fragment

theorem isSome_markerOf? (line : Line) : (markerOf? line).isSome = isMarked line := Option.isSome_map

/-- The line is divided into the marker, what may stand after it, and the beginning of the content. -/
structure Head.Divides (head : Head) (line : Line) (between : Text) : Prop where
  marker : markerOf? line = some head.marker
  start : head.marker.offset = line.start
  attributes : IsAttributePart head.attributes between
  text : line.text = head.marker.text ++ (between ++ head.content.rest)
  content : head.content.offset = head.marker.stop + between.size

theorem Head.Divides.stop {head : Head} {line : Line} {between : Text} (h : head.Divides line between) :
    head.content.offset + head.content.rest.size = line.stop := by
  rw [h.content, Fragment.stop, h.start, Line.stop, h.text]
  simp only [size_append]
  omega

theorem divides_of_passes {line : Line} {n : Nat} {attributes : List StepAttribute} {between : Text}
    {c d : Cursor} (hmarker : marker? line.text = some n) (hc : c = .atStart line.text line.start)
    (hpasses : (c.advance n).Passes between d) (hbetween : IsAttributePart attributes between) :
    Head.Divides ⟨c.fragment n, attributes, d⟩ line between where
  marker := by rw [markerOf?, hmarker, hc]; rfl
  start := by rw [hc]; rfl
  attributes := hbetween
  text := by
    show line.text = c.rest.take n ++ (between ++ d.rest)
    rw [← hpasses.1, Cursor.rest_advance, List.take_append_drop, hc]
    rfl
  content := hpasses.2

theorem divides_headOf {line : Line} {head : Head} (h : headOf line = .ok head) :
    ∃ between, head.Divides line between := by
  rw [headOf] at h
  split at h
  · cases h
  · rename_i n hn
    obtain ⟨lead, hlead, hbody⟩ :=
      ((Cursor.atStart line.text line.start).advance n).passes_skipBlanks
    dsimp only at h
    split at h
    · rename_i hattributes
      obtain ⟨⟨attributes, content⟩, hread, h⟩ := bind_eq_ok_iff.mp h
      cases h
      obtain ⟨rest, hrest⟩ := head?_of_hasAttributes hattributes
      obtain ⟨hne, inner, trail, htrail, hpasses⟩ := passes_attributesAt hread
      refine ⟨_, divides_of_passes hn rfl ((hbody.trans (Cursor.passes_head hrest)).trans hpasses) ?_⟩
      rw [IsAttributePart, if_neg hne, List.append_assoc]
      exact ⟨lead, inner, trail, rfl, hlead, htrail⟩
    · cases h
      refine ⟨lead, divides_of_passes hn rfl hbody ?_⟩
      rw [IsAttributePart, if_pos rfl]
      exact hlead

end Errata.Step
