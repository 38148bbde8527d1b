import Errata.Markup.Token
import Errata.Proofs.Text.Excerpt

/-!
# Where tokens stand

Each token of markup stands from one position of the text to the next, and the positions where tags begin
and where start tags end are shown.
-/

namespace Errata.Markup

open Text

/-! ## 1. Start tags -/

theorem take_add_of_drop {t init : Text} {k m : Nat} (h : (t.drop k).take m = init ++ ['>']) :
    t.take (k + m) = (t.take k ++ init) ++ ['>'] := by
  rw [List.take_add, h, List.append_assoc]

theorem tagRest?_ends {t : Text} {attributes : List Attribute} {closed : Bool} {n : Nat}
    (h : tagRest? t = some (attributes, closed, n)) : ∃ init, t.take n = init ++ ['>'] := by
  fun_induction tagRest? t generalizing attributes closed n with
  | case1 t blanks rest =>
    rename_i hrest
    cases h
    have hend : (t.drop blanks).take 1 = [] ++ ['>'] := by
      rw [hrest]
      rfl
    exact ⟨_, take_add_of_drop hend⟩
  | case2 t blanks rest =>
    rename_i hrest
    cases h
    have hend : (t.drop blanks).take 2 = ['/'] ++ ['>'] := by
      rw [hrest]
      rfl
    exact ⟨_, take_add_of_drop hend⟩
  | case3 => cases h
  | case4 => cases h
  | case5 =>
    rename_i ih
    obtain ⟨⟨others, closed', m⟩, hothers, heq⟩ := Option.map_eq_some_iff.mp h
    cases heq
    obtain ⟨init, hinit⟩ := ih hothers
    exact ⟨_, take_add_of_drop hinit⟩

theorem startTag?_ends {t : Text} {tag : Tag} {n : Nat} (h : startTag? t = some (tag, n)) :
    ∃ init, t.take n = init ++ ['>'] := by
  simp only [startTag?, Option.bind_eq_bind, Option.bind_eq_some_iff] at h
  obtain ⟨k, -, ⟨attributes, closed, m⟩, hrest, heq⟩ := h
  cases heq
  obtain ⟨init, hinit⟩ := tagRest?_ends hrest
  exact ⟨_, take_add_of_drop hinit⟩

/-! ## 2. Tokens -/

/-- The token stands from `a` to `b` in the text. -/
inductive Token.Covers (text : Text) (a b : Nat) : Token → Prop
  | text : Covers text a b (.text ⟨a, b⟩)
  | comment : Covers text a b (.comment ⟨a, b⟩)
  | startTag {tag : Tag} (hstop : text.IsShown b) : Covers text a b (.startTag tag ⟨a, b⟩)
  | rawElement {tag : Tag} {m k : Nat} {endTag : Option Span} (hm : text.IsPosition m)
      (hk : text.IsPosition k) (ham : a ≤ m) (hmk : m ≤ k) (hkb : k ≤ b)
      (hend : ∀ span, endTag = some span → span = ⟨k, b⟩ ∧ text.IsShown k) :
      Covers text a b (.rawElement tag ⟨a, m⟩ ⟨m, k⟩ endTag)
  | endTag {name : Text} : Covers text a b (.endTag name ⟨a, b⟩)

theorem offset_advance_le (c : Cursor) {m n : Nat} (h : m ≤ n) :
    (c.advance m).offset ≤ (c.advance n).offset :=
  Nat.add_le_add_left (size_take_le c.rest h) c.offset

theorem isShown_of_rest_ne_nil {text : Text} {c : Cursor} (hc : c.In text) (hrest : c.rest ≠ []) :
    text.IsShown c.offset := by
  obtain ⟨first, rest, hcons⟩ := List.exists_cons_of_ne_nil hrest
  have hheld : text.Holds c.offset c.rest := hc
  rw [hcons] at hheld
  exact hheld.isShown

theorem isShown_advance {text : Text} {c : Cursor} (hc : c.In text) {n : Nat}
    (hn : c.rest.drop n ≠ []) : text.IsShown (c.advance n).offset :=
  isShown_of_rest_ne_nil (hc.advance n) hn

theorem drop_ne_nil_of_find? {t needle : Text} {i : Nat} (hneedle : needle ≠ [])
    (h : (toLower t).find? needle = some i) : t.drop i ≠ [] := by
  intro hnil
  have hstarts := prefix_of_find? h
  rw [toLower, ← List.map_drop, hnil] at hstarts
  exact hneedle (List.prefix_nil.mp hstarts)

theorem covers_rawElement {text : Text} {c : Cursor} (hc : c.In text) (tag : Tag) (n : Nat) :
    (rawElement c tag n).1.Covers text c.offset (c.advance (rawElement c tag n).2).offset := by
  have hstart : c.offset ≤ (c.advance n).offset := Nat.le_add_right _ _
  unfold rawElement
  dsimp only
  split
  · rename_i i hi
    have hne := drop_ne_nil_of_find? (List.cons_ne_nil _ _) hi
    rw [List.drop_drop] at hne
    refine .rawElement (hc.advance n).isPosition (hc.advance (n + i)).isPosition hstart
      (offset_advance_le c (by omega)) (offset_advance_le c (by omega)) ?_
    rintro span hspan
    cases hspan
    exact ⟨rfl, isShown_advance hc hne⟩
  · have hstop : (c.advance n).offset ≤ (c.advance c.rest.length).offset := by
      show c.offset + size (c.rest.take n) ≤ c.offset + size (c.rest.take c.rest.length)
      have := (isPosition_size_take c.rest n).le_size
      rw [List.take_length]
      omega
    refine .rawElement (hc.advance n).isPosition (hc.advance c.rest.length).isPosition hstart hstop
      (Nat.le_refl _) ?_
    rintro span hspan
    cases hspan

theorem covers_nextToken {text : Text} {c : Cursor} (hc : c.In text) :
    (nextToken c).1.Covers text c.offset (c.advance (nextToken c).2).offset := by
  unfold nextToken
  split
  · exact .comment
  split
  · exact .comment
  split
  · exact .endTag
  split
  · rename_i tag n htag
    split
    · exact covers_rawElement hc tag n
    · obtain ⟨init, hinit⟩ := startTag?_ends htag
      have hheld : text.Holds c.offset (init ++ ['>']) := by
        rw [← hinit]
        exact hc.fragment n
      refine .startTag ?_
      show text.IsShown (c.offset + size (c.rest.take n))
      rw [hinit]
      exact hheld.isShown_stop (by decide)
  · exact .text

end Errata.Markup
