import Errata.Proofs.Expression.Tiling
import Mathlib.Data.List.Chain

/-!
# The order of the items

The items of a content follow one another without a gap, and the tokens in them, also those inside
parentheses and records, stand at increasing positions. So a token is known by its position alone.
-/

namespace Errata

open Text

/-! ## 1. Tokens from left to right -/

/-- The fragments stand one after another between two positions, and none is empty. -/
structure Fragment.InOrder (a b : Nat) (fs : List Fragment) : Prop where
  apart : fs.Pairwise fun f g => f.stop ≤ g.offset
  within : ∀ f ∈ fs, a ≤ f.offset ∧ f.offset < f.stop ∧ f.stop ≤ b

namespace Fragment

theorem inOrder_nil (a b : Nat) : InOrder a b [] := ⟨.nil, List.forall_mem_nil _⟩

theorem InOrder.mono {a a' b b' : Nat} {fs : List Fragment} (h : InOrder a b fs) (ha : a' ≤ a)
    (hb : b ≤ b') : InOrder a' b' fs := by
  refine ⟨h.apart, fun f hf => ?_⟩
  have := h.within f hf
  omega

theorem InOrder.append {a b c : Nat} {fs gs : List Fragment} (hf : InOrder a b fs)
    (hg : InOrder b c gs) (hab : a ≤ b) (hbc : b ≤ c) : InOrder a c (fs ++ gs) := by
  refine ⟨List.pairwise_append.mpr ⟨hf.apart, hg.apart, fun f hmem g hmem' => ?_⟩, ?_⟩
  · have := hf.within f hmem
    have := hg.within g hmem'
    omega
  · exact List.forall_mem_append.mpr
      ⟨(hf.mono (Nat.le_refl a) hbc).within, (hg.mono hab (Nat.le_refl c)).within⟩

theorem InOrder.offset_lt {a b : Nat} {fs : List Fragment} (h : InOrder a b fs) :
    fs.Pairwise fun f g => f.offset < g.offset := by
  refine h.apart.imp_of_mem fun {f g} hf _ hle => ?_
  have := h.within f hf
  omega

end Fragment

theorem Item.Spells.ne_nil {item : Item} {a : Nat} {s : Text} (h : item.Spells a s) : s ≠ [] := by
  cases item with
  | leaf kind fragment => exact h.2
  | paren span inner =>
    obtain ⟨body, rfl, -⟩ := h
    exact List.cons_ne_nil _ _
  | record span fields =>
    obtain ⟨body, rfl, -⟩ := h
    exact List.cons_ne_nil _ _

mutual

theorem Item.Spells.inOrder {kind : Leaf} : ∀ {item : Item} {a : Nat} {s : Text},
    item.Spells a s → Fragment.InOrder a (a + s.size) (item.leaves kind)
  | .leaf k fragment, a, s, h => by
    obtain ⟨rfl, hne⟩ := h
    have hpos : 0 < s.size := Nat.pos_of_ne_zero fun h0 => hne (size_eq_zero_iff.mp h0)
    rw [Item.leaves]
    split
    · refine ⟨List.pairwise_singleton _ _, fun f hf => ?_⟩
      rw [List.mem_singleton.mp hf]
      show a ≤ a ∧ a < a + s.size ∧ a + s.size ≤ a + s.size
      omega
    · exact Fragment.inOrder_nil _ _
  | .paren span inner, a, s, h => by
    obtain ⟨body, rfl, -, hinner⟩ := h
    refine hinner.inOrder.mono (Nat.le_succ a) ?_
    rw [size_cons, size_append]
    show a + 1 + size body ≤ a + (1 + (size body + 1))
    omega
  | .record span fields, a, s, h => by
    obtain ⟨body, rfl, -, -, hfields⟩ := h
    refine hfields.inOrder.mono (Nat.le_succ a) ?_
    rw [size_cons]
    show a + 1 + size body ≤ a + (1 + size body)
    omega

theorem Expression.Tiles.inOrder {kind : Leaf} : ∀ {items : List Item} {a : Nat} {s : Text},
    Expression.Tiles a s items → Fragment.InOrder a (a + s.size) (Expression.leaves kind items)
  | [], a, s, _ => Fragment.inOrder_nil _ _
  | item :: items, a, s, h => by
    obtain ⟨first, rest, rfl, hfirst, -, hrest⟩ := h
    rw [Expression.leaves, size_append, ← Nat.add_assoc]
    exact hfirst.inOrder.append hrest.inOrder (Nat.le_add_right _ _) (Nat.le_add_right _ _)

theorem Field.Spells.inOrder {kind : Leaf} : ∀ {field : Field} {a : Nat} {s : Text},
    field.Spells a s → Fragment.InOrder a (a + s.size) (field.leaves kind)
  | ⟨name, value⟩, a, s, h => by
    obtain ⟨gap, sign, body, rfl, -, -, hname, hvalue⟩ := h
    -- only the value holds tokens
    have hstop : name.stop = a + gap.size + name.text.size := by rw [Fragment.stop, hname]
    refine hvalue.inOrder.mono ?_ ?_
    · omega
    · rw [hstop, size_append, size_append, size_append]
      omega

theorem Field.Listed.inOrder {kind : Leaf} {closed : Bool} : ∀ {fields : List Field} {a : Nat} {s : Text},
    Field.Listed closed a s fields → Fragment.InOrder a (a + s.size) (Field.leavesAll kind fields)
  | [], a, s, _ => Fragment.inOrder_nil _ _
  | field :: fields, a, s, h => by
    obtain ⟨first, rest, rfl, hfirst, hrest⟩ := h
    have hsize : a + size (first ++ fieldMark closed fields :: rest) =
        a + size first + 1 + size rest := by
      rw [size_append, size_cons, utf8Size_fieldMark]
      omega
    rw [Field.leavesAll, hsize]
    refine (hfirst.inOrder.mono (Nat.le_refl a) (Nat.le_succ _)).append hrest.inOrder ?_ ?_
    · omega
    · omega

end

/-! ## 2. Items from end to end -/

namespace Expression

/-- The items stand from `start` to `stop` without a gap, none is empty, and no text is next to
another. -/
structure Covers (start stop : Nat) (items : Expression) : Prop where
  first : ∀ item, items.head? = some item → item.start = start
  next : items.IsChain fun item following => following.start = item.stop
  last : ∀ item, items.getLast? = some item → item.stop = stop
  nonempty : ∀ item ∈ items, item.start < item.stop
  apart : items.IsChain fun item following => item.text? = none ∨ following.text? = none

theorem Tiles.covers {a : Nat} {s : Text} {items : Expression} (h : Tiles a s items) :
    Covers a (a + s.size) items := by
  induction items generalizing a s with
  | nil => exact ⟨nofun, .nil, nofun, List.forall_mem_nil _, .nil⟩
  | cons item items ih =>
    obtain ⟨first, rest, rfl, hfirst, hapart, hrest⟩ := h
    have hbelow := ih hrest
    have hpos : 0 < first.size := Nat.pos_of_ne_zero fun h0 => hfirst.ne_nil (size_eq_zero_iff.mp h0)
    rw [size_append, ← Nat.add_assoc]
    refine ⟨?_, ?_, ?_, ?_, ?_⟩
    · rintro x hx
      cases hx
      exact hfirst.start
    · refine hbelow.next.cons fun following hfollowing => ?_
      rw [hbelow.first following hfollowing, hfirst.stop]
    · cases items with
      | nil =>
        cases hrest
        rintro x hx
        cases hx
        exact hfirst.stop
      | cons second items => exact fun x hx => hbelow.last x (by simpa using hx)
    · refine List.forall_mem_cons.mpr ⟨?_, hbelow.nonempty⟩
      rw [hfirst.start, hfirst.stop]
      omega
    · refine hbelow.apart.cons fun following hfollowing => ?_
      have hhead : items.head? = some following := hfollowing
      cases htext : item.text? with
      | none => exact .inl rfl
      | some t =>
        have hnone := hapart (Option.isSome_of_eq_some htext)
        rw [hhead] at hnone
        exact .inr hnone

end Expression

/-! ## 3. Whole contents -/

/-- What stands behind `first` in a text stands in the rest of it. -/
theorem Text.Holds.of_append {first second piece : Text} {d : Nat}
    (h : Text.Holds (first ++ second) (first.size + d) piece) : second.Holds d piece := by
  obtain ⟨before, after, happend, hsize⟩ := h
  rw [List.append_assoc] at happend
  rcases List.append_eq_append_iff.mp happend with ⟨gap, hbefore, hsecond⟩ | ⟨gap, hfirst, hrest⟩
  · rw [hbefore, size_append] at hsize
    exact ⟨gap, after, by rw [hsecond, List.append_assoc], by omega⟩
  · rw [hfirst, size_append] at hsize
    have hgap : gap = [] := size_eq_zero_iff.mp (by omega)
    rw [hgap, List.nil_append] at hrest
    exact ⟨[], after, by rw [← hrest]; rfl, by rw [size_nil]; omega⟩

theorem Text.exists_size_eq (n : Nat) : ∃ filler : Text, filler.size = n := by
  induction n with
  | zero => exact ⟨[], rfl⟩
  | succ n ih =>
    obtain ⟨filler, hfiller⟩ := ih
    refine ⟨'a' :: filler, ?_⟩
    rw [size_cons, hfiller]
    exact Nat.add_comm 1 n

theorem Text.holds_append (first second : Text) : Text.Holds (first ++ second) first.size second :=
  ⟨first, [], by rw [List.append_nil], rfl⟩

/-- A fragment stands in any text that has it at its offset. -/
theorem Fragment.exists_in (f : Fragment) : ∃ t, f.In t := by
  obtain ⟨filler, hfiller⟩ := exists_size_eq f.offset
  refine ⟨filler ++ f.text, ?_⟩
  rw [Fragment.In, ← hfiller]
  exact holds_append filler f.text

namespace Expression

theorem tiles_of_parse {content : Fragment} {items : Expression} (h : parse content = .ok items) :
    Tiles content.offset content.text items := by
  obtain ⟨t, hin⟩ := content.exists_in
  have hends := ends_parse hin
  rw [h] at hends
  exact hends

/-- A token is the piece of the content that stands where the token says. -/
theorem Tiles.slice?_leaf {a : Nat} {s : Text} {items : Expression} (h : Tiles a s items)
    {kind : Leaf} {f : Fragment} (hf : f ∈ Expression.leaves kind items) :
    ∃ d, f.offset = a + d ∧ s.slice? d (d + f.text.size) = some f.text := by
  obtain ⟨filler, rfl⟩ := exists_size_eq a
  obtain ⟨d, hd⟩ := Nat.exists_eq_add_of_le (h.inOrder.within f hf).1
  have hin : Text.Holds (filler ++ s) f.offset f.text := h.leaves (holds_append filler s) hf
  rw [hd] at hin
  exact ⟨d, hd, slice?_of_holds hin.of_append⟩

/-- The items tile the content, at every depth: those of a parenthesis tile what stands between its signs,
and those of a field's value stand in the record with only blanks and signs around them and the names. -/
structure IsTilingOf (content : Fragment) (items : Expression) : Prop where
  tiles : Tiles content.offset content.text items
  covers : Covers content.offset content.stop items
  slices : ∀ kind, ∀ f ∈ leaves kind items, ∃ d, f.offset = content.offset + d ∧
    content.text.slice? d (d + f.text.size) = some f.text
  vars : (vars items).Pairwise fun f g => f.offset < g.offset

theorem isTilingOf_parse (content : Fragment) (items : Expression) (h : parse content = .ok items) :
    IsTilingOf content items := by
  have htiles := tiles_of_parse h
  exact ⟨htiles, htiles.covers, fun kind f hf => htiles.slice?_leaf hf, htiles.inOrder.offset_lt⟩

/-- Variables in a parenthesis, in a record in it, and in a parenthesis in that. -/
theorem isTilingOf_nested :
    let content : Fragment := ⟨"Set _x_ to f(_y_, { [[A]]: _z_ , [[B]] : (_w_)}).".toList, 4⟩
    ∃ items, parse content = .ok items ∧ (vars items).map Fragment.offset = [8, 17, 31, 46] ∧
      IsTilingOf content items := by
  intro content
  have hparse : (parse content).toOption.map (fun items => (vars items).map Fragment.offset) =
      some [8, 17, 31, 46] := by
    decide +kernel
  cases hitems : parse content with
  | error e =>
    rw [hitems] at hparse
    cases hparse
  | ok items =>
    rw [hitems] at hparse
    exact ⟨items, rfl, Option.some.inj hparse, isTilingOf_parse content items hitems⟩

end Expression

end Errata
