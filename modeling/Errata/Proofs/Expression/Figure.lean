import Errata.Proofs.Expression.Tokens
import Mathlib.Data.List.Basic

/-!
# Figures from both ends

The end of a figure is found by counting tags forwards from its start, and the start of the figure that a
content ends with by counting them backwards from the end of the content. The two agree exactly if the figure
is closed by the tag `</figure>` at its end. Forwards an end tag may hold anything up to the next `>`, so it
may hold further tags of figures, and these count backwards.
-/

namespace Errata.Figure

open Text

/-! ## 1. The tags of a text -/

theorem startsIn_tag_iff {start : String} {p : Char → Bool} {t : Text} :
    Scan.startsIn (.seq [.literal start, .one p]) t = true ↔
      ∃ c rest, t = start.toList ++ c :: rest ∧ p c = true := by
  constructor
  · intro h
    obtain ⟨n, hn⟩ := Option.isSome_iff_exists.mp h
    obtain ⟨a, b, ha, hb, -⟩ := Scan.seq_cons_eq_some_iff.mp hn
    obtain ⟨d, -, hd, -, -⟩ := Scan.seq_cons_eq_some_iff.mp hb
    obtain ⟨⟨more, rfl⟩, rfl⟩ := Scan.literal_eq_some_iff.mp ha
    rw [List.drop_left] at hd
    obtain ⟨c, rest, rfl, hc, -⟩ := Scan.exists_of_one hd
    exact ⟨c, rest, rfl, hc⟩
  · rintro ⟨c, rest, rfl, hc⟩
    have hliteral : Scan.literal start (start.toList ++ c :: rest) = some start.toList.length :=
      Scan.literal_eq_some_iff.mpr ⟨List.prefix_append _ _, rfl⟩
    rw [Scan.startsIn, Scan.seq, hliteral, Option.bind_some, List.drop_left, Scan.seq, Scan.one, if_pos hc]
    rfl

/-- A tag that begins before a `<` ends before it. -/
theorem startsIn_tag_append {start : String} {body s : Text} {p : Char → Bool}
    (hstart : start.toList = '<' :: body) (hbody : '<' ∉ body) (hp : p '<' = false) (hs : s ≠ []) (t : Text) :
    Scan.startsIn (.seq [.literal start, .one p]) (s ++ '<' :: t) =
      Scan.startsIn (.seq [.literal start, .one p]) s := by
  rw [Bool.eq_iff_iff, startsIn_tag_iff, startsIn_tag_iff]
  constructor
  · rintro ⟨c, rest, happend, hc⟩
    have hsplit : s ++ '<' :: t = (start.toList ++ [c]) ++ rest := by rw [happend]; simp
    rcases List.append_eq_append_iff.mp hsplit with ⟨inside, htag, hmore⟩ | ⟨more, hmore, -⟩
    · cases inside with
      | nil => exact ⟨c, [], by simpa using htag.symm, hc⟩
      | cons first inside =>
        -- the tag would hold the `<` after its first character
        cases hmore
        obtain ⟨d, s, rfl⟩ := List.exists_cons_of_ne_nil hs
        rw [hstart, List.cons_append, List.cons_append] at htag
        obtain ⟨-, htail⟩ := List.cons.inj htag
        have hmem : '<' ∈ body ++ [c] := by rw [htail]; simp
        rcases List.mem_append.mp hmem with hmem | hmem
        · exact absurd hmem hbody
        · rw [← List.mem_singleton.mp hmem, hp] at hc
          cases hc
    · exact ⟨c, more, by simpa using hmore, hc⟩
  · rintro ⟨c, rest, rfl, hc⟩
    exact ⟨c, rest ++ '<' :: t, by simp, hc⟩

theorem startTag_append {s : Text} (hs : s ≠ []) (t : Text) :
    startTag.startsIn (s ++ '<' :: t) = startTag.startsIn s :=
  startsIn_tag_append rfl (by decide) (by decide) hs t

theorem endTag_append {s : Text} (hs : s ≠ []) (t : Text) :
    endTag.startsIn (s ++ '<' :: t) = endTag.startsIn s :=
  startsIn_tag_append rfl (by decide) (by decide) hs t

theorem tagsFrom_append (place : Nat) (s t : Text) :
    tagsFrom place (s ++ '<' :: t) = tagsFrom place s ++ tagsFrom (place + s.length) ('<' :: t) := by
  induction s generalizing place with
  | nil => rfl
  | cons c s ih =>
    have hstart := startTag_append (List.cons_ne_nil c s) t
    have hend := endTag_append (List.cons_ne_nil c s) t
    have hplace : place + 1 + s.length = place + (c :: s).length := by
      rw [List.length_cons]
      omega
    rw [List.cons_append] at hstart hend
    rw [List.cons_append, tagsFrom, tagsFrom, hstart, hend, ih, hplace]
    split
    · rfl
    · split
      · rfl
      · rfl

theorem of_mem_tagsFrom {place : Nat} {t : Text} {tag : Tag} (h : tag ∈ tagsFrom place t) :
    ∃ k, tag.place = place + k ∧ k < t.length ∧
      (tag.isEnd = true → endTag.startsIn (t.drop k) = true) := by
  induction t generalizing place with
  | nil => exact absurd h List.not_mem_nil
  | cons c t ih =>
    have hlater : tag ∈ tagsFrom (place + 1) t → ∃ k, tag.place = place + k ∧ k < (c :: t).length ∧
        (tag.isEnd = true → endTag.startsIn ((c :: t).drop k) = true) := by
      intro hmem
      obtain ⟨k, hplace, hlt, hend⟩ := ih hmem
      exact ⟨k + 1, by omega, by rw [List.length_cons]; omega, hend⟩
    have hhere : 0 < (c :: t).length := Nat.succ_pos _
    rw [tagsFrom] at h
    split at h
    · rcases List.mem_cons.mp h with rfl | h
      · exact ⟨0, rfl, hhere, fun hend => absurd hend Bool.false_ne_true⟩
      · exact hlater h
    · split at h
      · rename_i hend
        rcases List.mem_cons.mp h with rfl | h
        · exact ⟨0, rfl, hhere, fun _ => hend⟩
        · exact hlater h
      · exact hlater h

/-- Tags are listed in the order of their places. -/
theorem pairwise_tagsFrom (place : Nat) (t : Text) : (tagsFrom place t).Pairwise (·.place < ·.place) := by
  induction t generalizing place with
  | nil => exact .nil
  | cons c t ih =>
    have hlater : ∀ tag ∈ tagsFrom (place + 1) t, place < tag.place := by
      intro tag htag
      obtain ⟨k, hplace, -⟩ := of_mem_tagsFrom htag
      omega
    rw [tagsFrom]
    split
    · exact (ih _).cons hlater
    · split
      · exact (ih _).cons hlater
      · exact ih _

/-- The tag with `k` more characters before it. -/
def Tag.moved (k : Nat) (tag : Tag) : Tag := { tag with place := k + tag.place }

theorem tagsFrom_add (k place : Nat) (t : Text) :
    tagsFrom (k + place) t = (tagsFrom place t).map (Tag.moved k) := by
  induction t generalizing place with
  | nil => rfl
  | cons c t ih =>
    rw [tagsFrom, tagsFrom, Nat.add_assoc, ih]
    split
    · rfl
    · split
      · rfl
      · rfl

/-! ## 2. Counting tags -/

/-- The tags open figures and close all of them. -/
inductive Nested : List Tag → Prop
  | nil : Nested []
  | cons {a b : Nat} {inner rest : List Tag} (hinner : Nested inner) (hrest : Nested rest) :
      Nested (⟨a, false⟩ :: (inner ++ ⟨b, true⟩ :: rest))

theorem Nested.map_moved {tags : List Tag} (h : Nested tags) (k : Nat) : Nested (tags.map (Tag.moved k)) := by
  induction h with
  | nil => exact .nil
  | cons _ _ ihInner ihRest =>
    rw [List.map_cons, List.map_append, List.map_cons]
    exact .cons ihInner ihRest

/-- Counting forwards passes over figures that are closed, up to an end tag that closes one more. -/
theorem exists_nested_of_endPlace? {d p : Nat} {tags : List Tag} (h : endPlace? (d + 1) tags = some p) :
    ∃ inner b rest, tags = inner ++ ⟨b, true⟩ :: rest ∧ Nested inner ∧
      if d = 0 then b = p else endPlace? d rest = some p := by
  induction hlength : tags.length using Nat.strongRecOn generalizing d tags with
  | ind n ih =>
    subst hlength
    cases tags with
    | nil => cases h
    | cons tag tags =>
      obtain ⟨place, isEnd⟩ := tag
      cases isEnd with
      | true =>
        refine ⟨[], place, tags, rfl, .nil, ?_⟩
        rw [endPlace?] at h
        split
        · rename_i hd
          rw [if_pos (by omega)] at h
          exact Option.some.inj h
        · rw [if_neg (by omega)] at h
          exact h
      | false =>
        -- first the figure that is opened here is closed, then the others
        have hopened : endPlace? (d + 1 + 1) tags = some p := h
        obtain ⟨inner, b, rest, rfl, hinner, hrest⟩ := ih _ (Nat.lt_succ_self _) hopened rfl
        rw [if_neg (Nat.succ_ne_zero d)] at hrest
        have hless : rest.length < (⟨place, false⟩ :: (inner ++ ⟨b, true⟩ :: rest) : List Tag).length := by
          simp only [List.length_cons, List.length_append]
          omega
        obtain ⟨inner', b', rest', rfl, hinner', hrest'⟩ := ih _ hless hrest rfl
        exact ⟨⟨place, false⟩ :: (inner ++ ⟨b, true⟩ :: inner'), b', rest', by simp, .cons hinner hinner', hrest'⟩

/-- Counting backwards passes over figures that are closed. -/
theorem Nested.startPlace?_append {tags : List Tag} (h : Nested tags) (d : Nat) (rest : List Tag) :
    startPlace? (d + 1) (tags.reverse ++ rest) = startPlace? (d + 1) rest := by
  induction h generalizing d rest with
  | nil => rfl
  | @cons a b inner others _ _ ihInner ihRest =>
    calc startPlace? (d + 1) ((⟨a, false⟩ :: (inner ++ ⟨b, true⟩ :: others)).reverse ++ rest)
      _ = startPlace? (d + 1) (others.reverse ++ ⟨b, true⟩ :: (inner.reverse ++ ⟨a, false⟩ :: rest)) := by simp
      _ = startPlace? (d + 1 + 1) (inner.reverse ++ ⟨a, false⟩ :: rest) := ihRest d _
      _ = startPlace? (d + 1 + 1) (⟨a, false⟩ :: rest) := ihInner (d + 1) _
      _ = startPlace? (d + 1) rest := by rw [startPlace?, if_neg (by omega)]; rfl

/-- While it has not come to a start, counting backwards keeps a figure open. -/
theorem startPlace?_append_cases (d : Nat) (tags rest : List Tag) :
    (∃ tag ∈ tags, startPlace? (d + 1) (tags ++ rest) = some tag.place) ∨
      ∃ e, startPlace? (d + 1) (tags ++ rest) = startPlace? (e + 1) rest := by
  induction tags generalizing d with
  | nil => exact .inr ⟨d, rfl⟩
  | cons tag tags ih =>
    obtain ⟨place, isEnd⟩ := tag
    have hlater : ∀ e, startPlace? (d + 1) (⟨place, isEnd⟩ :: tags ++ rest) = startPlace? (e + 1) (tags ++ rest) →
        (∃ tag ∈ (⟨place, isEnd⟩ :: tags : List Tag),
          startPlace? (d + 1) (⟨place, isEnd⟩ :: tags ++ rest) = some tag.place) ∨
        ∃ e, startPlace? (d + 1) (⟨place, isEnd⟩ :: tags ++ rest) = startPlace? (e + 1) rest := by
      intro e he
      rw [he]
      exact (ih e).imp_left fun hfound => hfound.imp fun tag h => ⟨List.mem_cons_of_mem _ h.1, h.2⟩
    cases isEnd with
    | true => exact hlater (d + 1) rfl
    | false =>
      cases d with
      | zero => exact .inl ⟨_, List.mem_cons_self, rfl⟩
      | succ d => exact hlater d (by rw [List.cons_append, startPlace?, if_neg (by omega)]; rfl)

theorem exists_mem_of_startPlace? {d p : Nat} {tags : List Tag} (h : startPlace? d tags = some p) :
    ∃ tag ∈ tags, tag.place = p := by
  induction tags generalizing d with
  | nil => cases h
  | cons tag tags ih =>
    obtain ⟨place, isEnd⟩ := tag
    have hlater : ∀ {e}, startPlace? e tags = some p → ∃ tag ∈ (⟨place, isEnd⟩ :: tags : List Tag), tag.place = p :=
      fun he => (ih he).imp fun tag htag => ⟨List.mem_cons_of_mem _ htag.1, htag.2⟩
    cases isEnd with
    | true => exact hlater h
    | false =>
      rw [startPlace?] at h
      split at h
      · exact ⟨_, List.mem_cons_self, Option.some.inj h⟩
      · exact hlater h

/-- Counting backwards from the end comes to the start at `k` exactly if the figure that it opens is closed by
the last tag. -/
theorem startPlace?_reverse_iff {k p : Nat} {before inner later : List Tag} (hinner : Nested inner)
    (hbefore : ∀ tag ∈ before, tag.place < k) (hlater : ∀ tag ∈ later, k < tag.place)
    (hlast : ∀ tag ∈ later.getLast?, tag.isEnd = true) :
    startPlace? 0 (before ++ ⟨k, false⟩ :: (inner ++ ⟨p, true⟩ :: later)).reverse = some k ↔ later = [] := by
  constructor
  · intro hfound
    by_contra hne
    obtain ⟨init, ⟨place, isEnd⟩, rfl⟩ := (List.eq_nil_or_concat' later).resolve_left hne
    have hend : isEnd = true := hlast ⟨place, isEnd⟩ List.getLast?_concat
    subst hend
    -- the last tag opens a figure backwards, which is closed before `k` or left open there
    let rest : List Tag := ⟨p, true⟩ :: (inner.reverse ++ ⟨k, false⟩ :: before.reverse)
    have hreverse : (before ++ ⟨k, false⟩ :: (inner ++ ⟨p, true⟩ :: (init ++ [⟨place, true⟩])) : List Tag).reverse =
        ⟨place, true⟩ :: (init.reverse ++ rest) := by
      simp [rest]
    have hopened : startPlace? 1 (init.reverse ++ rest) = some k := by
      rw [hreverse] at hfound
      exact hfound
    rcases startPlace?_append_cases 0 init.reverse rest with ⟨tag, htag, hcase⟩ | ⟨e, hcase⟩
    · rw [hopened] at hcase
      have hless := hlater tag (List.mem_append_left _ (List.mem_reverse.mp htag))
      have hsame := Option.some.inj hcase
      omega
    · have hpassed : startPlace? (e + 1) rest = startPlace? (e + 1) before.reverse := by
        calc startPlace? (e + 1) rest
          _ = startPlace? (e + 1 + 1) (inner.reverse ++ ⟨k, false⟩ :: before.reverse) := rfl
          _ = startPlace? (e + 1 + 1) (⟨k, false⟩ :: before.reverse) := hinner.startPlace?_append (e + 1) _
          _ = startPlace? (e + 1) before.reverse := by rw [startPlace?, if_neg (by omega)]; rfl
      obtain ⟨tag, htag, hsame⟩ := exists_mem_of_startPlace? ((hpassed.symm.trans hcase.symm).trans hopened)
      have hless := hbefore tag (List.mem_reverse.mp htag)
      omega
  · rintro rfl
    have hreverse : (before ++ ⟨k, false⟩ :: (inner ++ [⟨p, true⟩]) : List Tag).reverse =
        ⟨p, true⟩ :: (inner.reverse ++ ⟨k, false⟩ :: before.reverse) := by
      simp
    rw [hreverse]
    exact hinner.startPlace?_append 0 _

/-! ## 3. The figure at the end of a text -/

/-- The end tag of the figure that a text begins with, and all that stands behind it. -/
def closing? (t : Text) : Option Text := (endPlace? 0 (tags t)).map t.drop

/-- The tags of a text that begins with a figure: its start, the tags in it, its end, and those later. -/
theorem exists_tags {t : Text} {p : Nat} (hstart : startTag.startsIn t = true)
    (hend : endPlace? 0 (tags t) = some p) :
    ∃ inner later, tags t = ⟨0, false⟩ :: (inner ++ ⟨p, true⟩ :: later) ∧ Nested inner := by
  cases t with
  | nil => cases hstart
  | cons c t =>
    have htags : tags (c :: t) = ⟨0, false⟩ :: tagsFrom 1 t := by
      rw [tags, tagsFrom, if_pos hstart]
    rw [htags] at hend ⊢
    obtain ⟨inner, b, later, hlater, hinner, rfl⟩ := exists_nested_of_endPlace? (d := 0) hend
    exact ⟨inner, later, by rw [hlater], hinner⟩

theorem length_le_of_mem_tags {t : Text} {p : Nat} (h : ⟨p, true⟩ ∈ tags t) :
    p + "</figure>".toList.length ≤ t.length := by
  obtain ⟨k, hplace, hlt, hend⟩ := of_mem_tagsFrom h
  obtain ⟨c, rest, hdrop, -⟩ := startsIn_tag_iff.mp (hend rfl)
  have hlength := congrArg List.length hdrop
  rw [List.length_drop, List.length_append, List.length_cons] at hlength
  have hk : p = k := hplace.trans (Nat.zero_add k)
  have hsize : "</figure".toList.length = 8 := rfl
  have hsize' : "</figure>".toList.length = 9 := rfl
  omega

theorem tagsFrom_length (k : Nat) (t : Text) : tagsFrom k t = (tags t).map (Tag.moved k) :=
  tagsFrom_add k 0 t

theorem tags_concat (s : Text) : tags (s ++ "</figure>".toList) = tags s ++ [⟨s.length, true⟩] := by
  have hplain : "</figure>".toList = '<' :: "/figure>".toList := by decide
  have htag : tags "</figure>".toList = [⟨0, true⟩] := by decide
  rw [tags, hplain, tagsFrom_append, ← hplain, Nat.zero_add, tagsFrom_length s.length, htag]
  rfl

theorem tags_append {t : Text} (hstart : startTag.startsIn t = true) (before : Text) :
    tags (before ++ t) = tags before ++ (tags t).map (Tag.moved before.length) := by
  obtain ⟨c, rest, rfl, -⟩ := startsIn_tag_iff.mp hstart
  have hplain : "<figure".toList ++ c :: rest = '<' :: ("figure".toList ++ c :: rest) := rfl
  rw [hplain, tags, tagsFrom_append, Nat.zero_add, tagsFrom_length before.length]
  rfl

/-- Counting backwards comes to the start of the figure if no tag stands behind its end. -/
theorem opening?_append_iff {before t : Text} {inner later : List Tag} {p : Nat}
    (hstart : startTag.startsIn t = true)
    (htags : tags t = ⟨0, false⟩ :: (inner ++ ⟨p, true⟩ :: later)) (hinner : Nested inner)
    (hlast : ∀ tag ∈ later.getLast?, tag.isEnd = true) :
    opening? (before ++ t) = some before.length ↔ later = [] := by
  have horder := pairwise_tagsFrom 0 t
  rw [← tags, htags] at horder
  have hall : tags (before ++ t) = tags before ++ ⟨before.length, false⟩ ::
      (inner.map (Tag.moved before.length) ++ ⟨before.length + p, true⟩ ::
        later.map (Tag.moved before.length)) := by
    rw [tags_append hstart, htags, List.map_cons, List.map_append, List.map_cons]
    rfl
  rw [opening?, hall, startPlace?_reverse_iff (hinner.map_moved _), List.map_eq_nil_iff]
  · intro tag htag
    obtain ⟨k, hplace, hlt, -⟩ := of_mem_tagsFrom htag
    omega
  · intro moved hmoved
    obtain ⟨tag, htag, rfl⟩ := List.mem_map.mp hmoved
    have hpos : 0 < tag.place := (List.pairwise_cons.mp horder).1 tag (by simp [htag])
    show before.length < before.length + tag.place
    omega
  · intro moved hmoved
    rw [List.getLast?_map] at hmoved
    obtain ⟨tag, htag, rfl⟩ := Option.map_eq_some_iff.mp hmoved
    exact hlast tag htag

/-- In a text that ends with `</figure>` the figure is closed by this tag, or a tag stands behind its end and
this is the last of them. -/
theorem later_cases {s : Text} {inner later : List Tag} {p : Nat}
    (htags : tags (s ++ "</figure>".toList) = ⟨0, false⟩ :: (inner ++ ⟨p, true⟩ :: later)) :
    (later = [] ∧ p = s.length) ∨ (later.getLast? = some ⟨s.length, true⟩ ∧ p < s.length) := by
  have horder := pairwise_tagsFrom 0 (s ++ "</figure>".toList)
  rw [← tags, htags] at horder
  have hlast := congrArg List.getLast? htags
  rw [tags_concat, List.getLast?_concat] at hlast
  rcases List.eq_nil_or_concat' later with rfl | ⟨init, last, rfl⟩
  · rw [← List.cons_append, List.getLast?_concat] at hlast
    cases hlast
    exact .inl ⟨rfl, rfl⟩
  · have hinit : (⟨0, false⟩ :: (inner ++ ⟨p, true⟩ :: (init ++ [last])) : List Tag) =
        (⟨0, false⟩ :: (inner ++ ⟨p, true⟩ :: init)) ++ [last] := by simp
    rw [hinit, List.getLast?_concat] at hlast
    cases hlast
    have hless := (List.pairwise_cons.mp (List.pairwise_append.mp (List.pairwise_cons.mp horder).2).2.1).1
      ⟨s.length, true⟩ (by simp)
    exact .inr ⟨List.getLast?_concat, hless⟩

theorem drop_eq_iff {s ending : Text} {p : Nat} (hp : p ≤ s.length) :
    (s ++ ending).drop p = ending ↔ p = s.length := by
  constructor
  · intro hdrop
    have hlength := congrArg List.length hdrop
    rw [List.length_drop, List.length_append] at hlength
    omega
  · rintro rfl
    exact List.drop_left

/-- In a text that ends with a figure, counting backwards comes to the start of the figure exactly if the end
tag found by counting forwards is `</figure>`. -/
theorem opening?_append_iff_closing? {before t : Text} {n : Nat} (hstart : startTag.startsIn t = true)
    (hwidth : width? t = some n) (hends : "</figure>".toList <:+ before ++ t) :
    opening? (before ++ t) = some before.length ↔ closing? t = some "</figure>".toList := by
  obtain ⟨p, hend, -⟩ := Option.bind_eq_some_iff.mp hwidth
  obtain ⟨inner, later, htags, hinner⟩ := exists_tags hstart hend
  have hlength := length_le_of_mem_tags (by rw [htags]; simp : ⟨p, true⟩ ∈ tags t)
  -- the last tag of the whole stands in the figure, since the figure is long enough
  obtain ⟨s, rfl⟩ := List.suffix_of_suffix_length_le hends (List.suffix_append before t) (by omega)
  rw [List.length_append] at hlength
  have hclosing : closing? (s ++ "</figure>".toList) = some ((s ++ "</figure>".toList).drop p) := by
    rw [closing?, hend]
    rfl
  have hlast : ∀ tag ∈ later.getLast?, tag.isEnd = true := by
    rcases later_cases htags with ⟨rfl, -⟩ | ⟨hlast, -⟩
    · exact fun tag htag => absurd htag (by simp)
    · rw [hlast]
      rintro tag ⟨⟩
      rfl
  rw [opening?_append_iff hstart htags hinner hlast, hclosing, Option.some.injEq, drop_eq_iff (by omega)]
  rcases later_cases htags with ⟨rfl, rfl⟩ | ⟨hlast, hless⟩
  · exact iff_of_true rfl rfl
  · refine iff_of_false ?_ (Nat.ne_of_lt hless)
    rintro rfl
    cases hlast

/-! ## 4. Contents that end with a figure -/

/-- Where a content ends with a figure and its text with `</figure>`, counting backwards comes to the start of
the figure exactly if the end tag that closes it is written `</figure>`. -/
theorem opening?_eq_start_iff (content : Fragment) (items : Expression) (f : Fragment)
    (h : Expression.parse content = .ok items) (hlast : items.getLast? = some (.leaf .figure f))
    (hends : content.text.endsWith "</figure>" = true) :
    ∃ before : Text, content.text = before ++ f.text ∧ f.offset = content.offset + before.size ∧
      (opening? content.text = some before.length ↔ closing? f.text = some "</figure>".toList) := by
  obtain ⟨before, n, htext, hoffset, hstart, hwidth⟩ := Expression.exists_isTokenOf_last h hlast
  have hsuffix : "</figure>".toList <:+ before ++ f.text := by
    rw [← htext]
    exact List.isSuffixOf_iff_suffix.mp hends
  refine ⟨before, htext, hoffset, ?_⟩
  rw [htext]
  exact opening?_append_iff_closing? hstart hwidth hsuffix

/-- The figure that a content ends with. -/
def last? (content : Fragment) : Option Fragment :=
  (Expression.parse content).toOption.bind fun items => items.getLast?.bind fun item =>
    match item with
    | .leaf .figure f => some f
    | _ => none

theorem exists_of_last? {content f : Fragment} (h : last? content = some f) :
    ∃ items, Expression.parse content = .ok items ∧ items.getLast? = some (.leaf .figure f) := by
  obtain ⟨items, hitems, h⟩ := Option.bind_eq_some_iff.mp h
  obtain ⟨item, hitem, h⟩ := Option.bind_eq_some_iff.mp h
  have hparse : Expression.parse content = .ok items := by
    cases hread : Expression.parse content with
    | error e =>
      rw [hread] at hitems
      cases hitems
    | ok read =>
      rw [hread] at hitems
      rw [Option.some.inj hitems]
  split at h
  · cases h
    exact ⟨items, hparse, hitem⟩
  · cases h

/-- A figure in a figure, after another figure and an end tag in code. -/
theorem opening?_eq_start_iff_nested :
    let content : Fragment := ⟨"A <figure\n></figure> `</figure>`: <figure><figure></figure></figure>".toList, 3⟩
    let f : Fragment := ⟨"<figure><figure></figure></figure>".toList, 37⟩
    opening? content.text = some 34 ∧ closing? f.text = some "</figure>".toList ∧
      ∃ before : Text, content.text = before ++ f.text ∧ f.offset = content.offset + before.size ∧
        (opening? content.text = some before.length ↔ closing? f.text = some "</figure>".toList) := by
  intro content f
  have hlast : last? content = some f := by decide +kernel
  have hends : content.text.endsWith "</figure>" = true := by decide +kernel
  obtain ⟨items, hitems, hfigure⟩ := exists_of_last? hlast
  exact ⟨by decide +kernel, by decide +kernel, opening?_eq_start_iff content items f hitems hfigure hends⟩

/-- A figure whose end tag holds another end tag begins after four characters, but counting backwards does not
find its start. -/
theorem opening?_of_end_tag_in_end_tag :
    let content : Fragment := ⟨"Foo <figure></figure </figure>".toList, 0⟩
    ∃ items f, Expression.parse content = .ok items ∧ items.getLast? = some (.leaf .figure f) ∧
      f.offset = 4 ∧ content.text.endsWith "</figure>" = true ∧ opening? content.text = none := by
  intro content
  have hlast : last? content = some ⟨"<figure></figure </figure>".toList, 4⟩ := by decide +kernel
  obtain ⟨items, hitems, hfigure⟩ := exists_of_last? hlast
  exact ⟨items, _, hitems, hfigure, rfl, by decide +kernel, by decide +kernel⟩

end Errata.Figure
