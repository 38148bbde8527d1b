import Errata.Proofs.Expression.Tokens
import Errata.Style.Check
import Mathlib.Data.List.Basic

/-!
# How a line ends

The checks on a step's line look at the text that the parsed content begins with and at the one that it ends
with. These stand at the two ends of the content, and for every ending that is checked the content ends with
it exactly if the text that was found does: the characters that other items end with are in none of them.
-/

namespace Errata

open Text

/-! ## 1. Characters that tokens end with -/

namespace Scan

/-- What the scan matches ends with the character. -/
def Closes (c : Char) (s : Scan) : Prop := ∀ t n, s t = some n → (t.take n).getLast? = some c

variable {c : Char}

theorem closes_char (c : Char) : Closes c (char c) := by
  intro t n h
  obtain ⟨hhead, rfl⟩ := char_eq_some_iff.mp h
  obtain ⟨rest, rfl⟩ := List.head?_eq_some_iff.mp hhead
  rfl

/-- The last of several scans decides how the whole ends. -/
theorem Closes.seq {last : Scan} (h : Closes c last) (scans : List Scan) : Closes c (seq (scans ++ [last])) := by
  induction scans with
  | nil =>
    intro t n hn
    obtain ⟨a, b, ha, hb, rfl⟩ := seq_cons_eq_some_iff.mp hn
    cases hb
    exact h t a ha
  | cons s scans ih =>
    intro t n hn
    obtain ⟨a, b, -, hb, rfl⟩ := seq_cons_eq_some_iff.mp hn
    rw [List.take_add, List.getLast?_append, ih _ b hb]
    rfl

theorem Closes.first {scans : List Scan} (h : ∀ s ∈ scans, Closes c s) : Closes c (first scans) := by
  induction scans with
  | nil => exact fun t n hn => by cases hn
  | cons s scans ih =>
    obtain ⟨hs, hscans⟩ := List.forall_mem_cons.mp h
    intro t n hn
    rcases Option.or_eq_some_iff.mp hn with hn | ⟨-, hn⟩
    · exact hs t n hn
    · exact ih hscans t n hn

end Scan

namespace Expression

theorem getLast?_starToken {t : Text} {n : Nat} (h : starToken t = some n) :
    (t.take n).getLast? = some '*' := by
  unfold starToken at h
  split at h
  · rename_i t
    dsimp only at h
    split at h
    · rename_i hvalue
      cases h
      simp only [Bool.and_eq_true, decide_eq_true_eq] at hvalue
      obtain ⟨c, rest, ht, hc⟩ := exists_of_takeWhile_lt hvalue.1.1.1
      have hstar : c = '*' := by simpa using hc
      subst hstar
      -- the closing star stands right after the value
      rw [List.getLast?_take, if_neg (Nat.succ_ne_zero _)]
      have hplace : ('*' :: t)[(t.takeWhile (· ≠ '*')).length + 1]? = some '*' := by
        rw [List.getElem?_cons_succ]
        nth_rewrite 1 [ht]
        rw [List.getElem?_append_right (Nat.le_refl _), Nat.sub_self]
        rfl
      show ('*' :: t)[(t.takeWhile (· ≠ '*')).length + 1]?.or _ = _
      rw [hplace]
      rfl
    · cases h
  · cases h

theorem getLast?_width? {t : Text} {n : Nat} (h : Figure.width? t = some n) :
    (t.take n).getLast? = some '>' := by
  obtain ⟨place, -, h⟩ := Option.bind_eq_some_iff.mp h
  obtain ⟨k, hk, h⟩ := Option.bind_eq_some_iff.mp h
  cases h
  obtain ⟨hlt, hsign, -⟩ := List.findIdx?_eq_some_iff_getElem.mp hk
  have hplace : t[place + k]? = some '>' := by
    rw [← List.getElem?_drop, List.getElem?_eq_getElem hlt, eq_of_beq hsign]
  rw [List.getLast?_take, if_neg (Nat.succ_ne_zero _), Nat.add_sub_cancel, hplace]
  rfl

/-- The characters that tokens end with. -/
def tokenEnds : List Char := ['_', '~', '*', '|', '\x60', '>']

theorem getLast?_of_isTokenOf {t : Text} {n : Nat} {kind : Leaf} (h : IsTokenOf t n kind)
    (hkind : kind ≠ .text) : ∃ c ∈ tokenEnds, (t.take n).getLast? = some c := by
  cases kind with
  | text => exact absurd rfl hkind
  | var => exact ⟨'_', by decide, (Scan.closes_char '_').seq [_, _] t n h⟩
  | enumValue => exact ⟨'~', by decide, (Scan.closes_char '~').seq [_, _] t n h⟩
  | figure => exact ⟨'>', by decide, getLast?_width? h.2⟩
  | nonterminal => exact ⟨'|', by decide, (Scan.closes_char '|').seq [_, _, _, _] t n h⟩
  | inert =>
    rcases h with h | h | h
    · exact ⟨'*', by decide, getLast?_starToken h⟩
    · exact ⟨'\x60', by decide, (Scan.closes_char '\x60').seq [_, _] t n h⟩
    · have hlast : Scan.Closes '>' (.first [
          .seq [.one Text.isBlank, .many fun c => !(c == '<' || c == '>'), .char '>'],
          .seq [.optional (.char '/'), .char '>']]) := by
        refine .first fun s hs => ?_
        rcases List.mem_cons.mp hs with rfl | hs
        · exact (Scan.closes_char '>').seq [_, _]
        · rw [List.mem_singleton.mp hs]
          exact (Scan.closes_char '>').seq [_]
      exact ⟨'>', by decide, hlast.seq [_, _, _] t n h⟩

end Expression

/-! ## 2. Characters that items end with -/

/-- The characters that items other than texts end with. -/
def Item.closers : List Char := ')' :: '\x7d' :: Expression.tokenEnds

section

variable {content : Fragment} {a : Nat} {s : Text}

/-- A token or text that is read is written as what its form matches. -/
theorem Item.Spells.exists_isTokenOf {kind : Leaf} {f : Fragment} (h : (Item.leaf kind f).Spells a s)
    (hread : (Item.leaf kind f).IsRead content) :
    ∃ (rest : Text) (n : Nat), s = rest.take n ∧ Expression.IsTokenOf rest n kind := by
  obtain ⟨before, rest, n, -, hf, htoken⟩ := Item.isRead_leaf_iff.mp hread
  exact ⟨rest, n, congrArg Fragment.text (h.1.symm.trans hf), htoken⟩

theorem Item.Spells.getLast?_leaf {kind : Leaf} {f : Fragment} (h : (Item.leaf kind f).Spells a s)
    (hread : (Item.leaf kind f).IsRead content) (hkind : kind ≠ .text) :
    ∃ c ∈ Expression.tokenEnds, s.getLast? = some c := by
  obtain ⟨rest, n, rfl, htoken⟩ := h.exists_isTokenOf hread
  exact Expression.getLast?_of_isTokenOf htoken hkind

/-- A list of fields that is closed ends with a brace. -/
theorem Field.Listed.getLast? {fields : List Field} (h : Field.Listed true a s fields) (hne : fields ≠ []) :
    s.getLast? = some '\x7d' := by
  induction fields generalizing a s with
  | nil => exact absurd rfl hne
  | cons field fields ih =>
    obtain ⟨first, rest, rfl, -, hrest⟩ := h
    cases fields with
    | nil =>
      cases hrest
      exact List.getLast?_concat
    | cons second fields =>
      rw [List.getLast?_append, List.getLast?_cons, ih hrest (List.cons_ne_nil _ _)]
      rfl

theorem Item.Spells.getLast?_record {span : Span} {fields : List Field}
    (h : (Item.record span fields).Spells a s) : s.getLast? = some '\x7d' := by
  obtain ⟨body, rfl, -, hne, hfields⟩ := h
  rw [List.getLast?_cons, hfields.getLast? hne]
  rfl

/-- Only a parenthesis ends with the sign that closes one. -/
theorem Item.Spells.isParen_or_getLast?_ne {item : Item} (h : item.Spells a s) (hread : item.IsRead content) :
    (∃ span inner, item = .paren span inner) ∨ s.getLast? ≠ some ')' := by
  cases item with
  | leaf kind f =>
    refine .inr fun hlast => ?_
    by_cases hkind : kind = .text
    · -- a text does not even hold the sign
      subst hkind
      obtain ⟨rest, n, rfl, htoken⟩ := h.exists_isTokenOf hread
      exact htoken (List.mem_of_getLast? hlast)
    · obtain ⟨c, hc, hends⟩ := h.getLast?_leaf hread hkind
      rw [hends] at hlast
      cases hlast
      exact absurd hc (by decide)
  | paren span inner => exact .inl ⟨span, inner, rfl⟩
  | record span fields =>
    rw [h.getLast?_record]
    exact .inr (by decide)

theorem Item.Spells.getLast?_mem_closers {item : Item} (h : item.Spells a s) (hread : item.IsRead content)
    (htext : item.text? = none) : ∃ c ∈ Item.closers, s.getLast? = some c := by
  cases item with
  | leaf kind f =>
    have hkind : kind ≠ .text := by
      rintro rfl
      cases htext
    obtain ⟨c, hc, hlast⟩ := h.getLast?_leaf hread hkind
    exact ⟨c, List.mem_cons_of_mem _ (List.mem_cons_of_mem _ hc), hlast⟩
  | paren span inner =>
    obtain ⟨body, rfl, -⟩ := h
    exact ⟨')', List.mem_cons_self, by rw [← List.cons_append, List.getLast?_concat]⟩
  | record span fields =>
    exact ⟨'\x7d', List.mem_cons_of_mem _ List.mem_cons_self, h.getLast?_record⟩

namespace Expression

theorem lastText_concat (init : List Item) (item : Item) : lastText (init ++ [item]) = item.lastText := by
  induction init with
  | nil => rfl
  | cons head init ih =>
    cases init with
    | nil => exact ih
    | cons second init => exact ih

/-- Items that do not end with a text end with one of a few characters. -/
theorem Tiles.getLast?_mem_closers {items : List Item} (h : Tiles a s items)
    (hread : ∀ item ∈ items, item.IsRead content) (hlast : items.getLast?.bind Item.text? = none) :
    ∀ c ∈ s.getLast?, c ∈ Item.closers := by
  rcases List.eq_nil_or_concat' items with rfl | ⟨init, item, rfl⟩
  · cases h
    exact fun c hc => by cases hc
  · obtain ⟨front, last, rfl, -, hitem, -⟩ := h.of_concat
    rw [List.getLast?_concat] at hlast
    obtain ⟨c, hc, hlast⟩ := hitem.getLast?_mem_closers (hread item (by simp)) hlast
    intro d hd
    rw [List.getLast?_append, hlast] at hd
    cases hd
    exact hc

end Expression

end

/-! ## 3. Endings -/

namespace Text

variable {e front last s : Text}

theorem not_mem_of_all {chars : List Char} (h : (chars.all fun c => !e.contains c) = true) :
    ∀ c ∈ chars, c ∉ e := by
  intro c hc
  simpa using List.all_eq_true.mp h c hc

/-- An ending does not reach into what stands before, if that ends with a character that it does not have. -/
theorem suffix_append_iff (h : ∀ c ∈ front.getLast?, c ∉ e) : e <:+ front ++ last ↔ e <:+ last := by
  refine ⟨fun he => ?_, List.suffix_append_of_suffix⟩
  rcases List.suffix_or_suffix_of_suffix he (List.suffix_append front last) with hlast | ⟨more, rfl⟩
  · exact hlast
  · rcases List.eq_nil_or_concat' more with rfl | ⟨init, c, rfl⟩
    · exact List.suffix_rfl
    · obtain ⟨before, rfl⟩ := List.suffix_append_self_iff.mp he
      exact absurd (by simp) (h c (by simp))

theorem suffix_iff_eq_nil (h : ∀ c ∈ s.getLast?, c ∉ e) : e <:+ s ↔ e = [] := by
  have happend : e <:+ s ++ [] ↔ e <:+ [] := suffix_append_iff h
  rwa [List.append_nil, List.suffix_nil] at happend

theorem not_concat_suffix {c : Char} (h : s.getLast? ≠ some c) : ¬ e ++ [c] <:+ s := by
  rintro ⟨before, rfl⟩
  exact h (by rw [← List.append_assoc, List.getLast?_concat])

end Text

theorem Item.exists_of_text? {item : Item} {t : Text} (h : item.text? = some t) :
    ∃ f : Fragment, item = .leaf .text f ∧ f.text = t := by
  unfold Item.text? at h
  split at h
  · rename_i f
    exact ⟨f, rfl, Option.some.inj h⟩
  · cases h

mutual

theorem Item.Spells.lastText_suffix : ∀ {item : Item} {a : Nat} {s : Text},
    item.Spells a s → item.lastText <:+ s
  | .leaf kind f, a, s, h => by
    obtain ⟨rfl, -⟩ := h
    cases kind with
    | text => exact List.suffix_rfl
    | _ => exact List.nil_suffix
  | .paren span inner, a, s, h => by
    obtain ⟨body, rfl, -, hinner⟩ := h
    rw [Item.lastText, ← List.cons_append, List.suffix_append_self_iff]
    exact hinner.lastText_suffix.trans (List.suffix_cons _ _)
  | .record span fields, a, s, _ => List.nil_suffix

theorem Expression.Tiles.lastText_suffix : ∀ {items : List Item} {a : Nat} {s : Text},
    Expression.Tiles a s items → Expression.lastText items <:+ s
  | [], a, s, _ => List.nil_suffix
  | [item], a, s, h => by
    obtain ⟨first, rest, rfl, hfirst, -, hrest⟩ := h
    cases hrest
    rw [List.append_nil]
    exact hfirst.lastText_suffix
  | item :: second :: items, a, s, h => by
    obtain ⟨first, rest, rfl, -, -, hrest⟩ := h
    exact List.suffix_append_of_suffix hrest.lastText_suffix

end

theorem Expression.Tiles.firstText_prefix {items : Expression} {a : Nat} {s : Text}
    (h : Expression.Tiles a s items) : items.firstText <+: s := by
  cases items with
  | nil => exact List.nil_prefix
  | cons item items =>
    obtain ⟨first, rest, rfl, hfirst, -⟩ := h
    show item.text?.getD [] <+: first ++ rest
    cases htext : item.text? with
    | none => exact List.nil_prefix
    | some t =>
      obtain ⟨f, rfl, rfl⟩ := Item.exists_of_text? htext
      obtain ⟨rfl, -⟩ := hfirst
      exact List.prefix_append _ _

namespace Expression

variable {content : Fragment} {a : Nat} {s e : Text} {items : List Item}

/-- The items end with an ending without closing characters exactly if the text does that was found. -/
theorem Tiles.suffix_iff (h : Tiles a s items) (hread : ∀ item ∈ items, item.IsRead content)
    (he : ∀ c ∈ Item.closers, c ∉ e) : e <:+ s ↔ e <:+ lastText items := by
  refine ⟨fun hs => ?_, fun hlast => hlast.trans h.lastText_suffix⟩
  rcases List.eq_nil_or_concat' items with rfl | ⟨init, item, rfl⟩
  · cases h
    exact hs
  cases htext : item.text? with
  | some t =>
    obtain ⟨front, last, rfl, hfront, hitem, hapart⟩ := h.of_concat
    have hinit := hapart (by rw [htext]; rfl)
    obtain ⟨f, rfl, -⟩ := Item.exists_of_text? htext
    obtain ⟨rfl, -⟩ := hitem
    -- before a text stands no other, so the ending does not reach into what is before
    have hclosed := hfront.getLast?_mem_closers (fun i hi => hread i (List.mem_append_left _ hi)) hinit
    rw [lastText_concat]
    exact (suffix_append_iff fun c hc => he c (hclosed c hc)).mp hs
  | none =>
    have hclosed := h.getLast?_mem_closers hread (by rw [List.getLast?_concat]; exact htext)
    rw [(suffix_iff_eq_nil fun c hc => he c (hclosed c hc)).mp hs]
    exact List.nil_suffix

/-- The same if a parenthesis is closed after the ending, which then stands at the end of its inside. -/
theorem Tiles.concat_suffix_iff (h : Tiles a s items) (hread : ∀ item ∈ items, item.IsRead content)
    (he : ∀ c ∈ '(' :: Item.closers, c ∉ e) : e ++ [')'] <:+ s ↔ e ++ [')'] <:+ lastText items := by
  refine ⟨fun hs => ?_, fun hlast => hlast.trans h.lastText_suffix⟩
  rcases List.eq_nil_or_concat' items with rfl | ⟨init, item, rfl⟩
  · cases h
    exact hs
  obtain ⟨front, last, rfl, -, hitem, -⟩ := h.of_concat
  have hitemRead := hread item (by simp)
  rcases hitem.isParen_or_getLast?_ne hitemRead with ⟨span, inner, rfl⟩ | hlast
  · obtain ⟨body, rfl, -, hinner⟩ := hitem
    obtain ⟨hopen, hclosers⟩ := List.forall_mem_cons.mp he
    have hsplit : front ++ '(' :: (body ++ [')']) = (front ++ ['(']) ++ body ++ [')'] := by simp
    rw [hsplit, List.suffix_append_self_iff, suffix_append_iff] at hs
    · rw [lastText_concat, Item.lastText, List.suffix_append_self_iff]
      exact (hinner.suffix_iff (Item.isRead_paren_iff.mp hitemRead) hclosers).mp hs
    · intro c hc
      rw [List.getLast?_concat] at hc
      cases hc
      exact hopen
  · rw [← List.getLast?_append_of_ne_nil front hitem.ne_nil] at hlast
    exact absurd hs (not_concat_suffix hlast)

end Expression

/-! ## 4. The checks of a line -/

namespace Style

/-- The endings that the checks ask for. -/
def lineEndings : List String := [".", ".)", ":", ",", ", then", ", do"]

/-- The check of a line of the given kind. -/
def Category.check : Category → Shape → List (Finding Problem)
  | .conditional => checkConditional
  | .alternative => checkAlternative
  | .repetition => checkRepetition
  | .forEach => checkForEach
  | .freeform => checkFreeform

/-- The checks of a line, if `last` is taken for the text that it ends with. -/
def checkLineWith (last : Text) (step : Step) (items : Expression) : List (Finding Problem) :=
  if items.isEmpty then [⟨.line .emptyStep, step.content.offset⟩]
  else if endsWithPre items then require (!step.hasSubsteps) .preWithSubsteps step.content.stop
  else if step.content.text.endsWith "</figure>" then checkFigure step.content
  else (classify items.firstText).check
    ⟨items.firstText, last, items.length, step.content, step.sublist.map StepList.kind⟩

theorem checkLine_eq (step : Step) (items : Expression) :
    checkLine step items = checkLineWith (Expression.lastText items) step items := by
  unfold checkLine checkLineWith
  dsimp only
  cases classify items.firstText with
  | conditional => rfl
  | alternative => rfl
  | repetition => rfl
  | forEach => rfl
  | freeform => rfl

/-- Of the text that a line ends with the checks see only which of the endings it has. -/
theorem Category.check_congr {t u : Text} (h : ∀ e ∈ lineEndings, t.endsWith e = u.endsWith e) (k : Category)
    (s : Shape) : k.check { s with last := t } = k.check { s with last := u } := by
  simp only [lineEndings, List.forall_mem_cons] at h
  obtain ⟨hdot, hclosed, hcolon, hcomma, hthen, hdo, -⟩ := h
  -- these two lists are the only ones that are checked at once
  have htwo : endsWithAny t [".", ".)"] = endsWithAny u [".", ".)"] := by
    simp only [endsWithAny, List.any_cons, List.any_nil, hdot, hclosed]
  have hthree : endsWithAny t [".", ".)", ":"] = endsWithAny u [".", ".)", ":"] := by
    simp only [endsWithAny, List.any_cons, List.any_nil, hdot, hclosed, hcolon]
  cases k with
  | conditional => simp only [check, checkConditional, hthree, hcolon, hthen]
  | alternative => simp only [check, checkAlternative, hthree, hcomma]
  | repetition => simp only [check, checkRepetition, hcomma]
  | forEach => simp only [check, checkForEach, htwo, hdo]
  | freeform => simp only [check, checkFreeform, htwo, hcolon]

theorem checkLineWith_congr {t u : Text} (h : ∀ e ∈ lineEndings, t.endsWith e = u.endsWith e) (step : Step)
    (items : Expression) : checkLineWith t step items = checkLineWith u step items := by
  unfold checkLineWith
  rw [(classify items.firstText).check_congr h ⟨_, t, _, _, _⟩]

/-- The closing characters are in none of the endings, except for the parenthesis after a full stop. -/
theorem plain_or_closed_of_mem_lineEndings : ∀ e ∈ lineEndings,
    (Item.closers.all fun c => !e.toList.contains c) = true ∨ e.toList = ['.'] ++ [')'] := by
  decide

theorem endsWith_eq_of_parse {content : Fragment} {items : Expression}
    (h : Expression.parse content = .ok items) {e : String} (he : e ∈ lineEndings) :
    content.text.endsWith e = Text.endsWith (Expression.lastText items) e := by
  have htiles := Expression.tiles_of_parse h
  have hread := (Expression.ends_isRead_parse content).of_ok h
  rw [Bool.eq_iff_iff, Text.endsWith, Text.endsWith, List.isSuffixOf_iff_suffix, List.isSuffixOf_iff_suffix]
  rcases plain_or_closed_of_mem_lineEndings e he with hplain | hclosed
  · exact htiles.suffix_iff hread (Text.not_mem_of_all hplain)
  · rw [hclosed]
    exact htiles.concat_suffix_iff hread (Text.not_mem_of_all rfl)

/-- The texts that the checks look at stand at the ends of the content, and the checks find the same as if they
looked at the end of the content itself. -/
structure LooksAt (content : Fragment) (items : Expression) : Prop where
  first : items.firstText <+: content.text
  last : Expression.lastText items <:+ content.text
  endings : ∀ e ∈ lineEndings,
    content.text.endsWith e = true ↔ Text.endsWith (Expression.lastText items) e = true
  checks : ∀ step : Step, checkLine step items = checkLineWith content.text step items

theorem looksAt_of_parse (content : Fragment) (items : Expression)
    (h : Expression.parse content = .ok items) : LooksAt content items := by
  have htiles := Expression.tiles_of_parse h
  refine ⟨htiles.firstText_prefix, htiles.lastText_suffix, fun e he => ?_, fun step => ?_⟩
  · rw [endsWith_eq_of_parse h he]
  · rw [checkLine_eq]
    exact checkLineWith_congr (fun e he => (endsWith_eq_of_parse h he).symm) step items

/-- The full stop stands in a parenthesis, which also holds a record with another one. -/
theorem looksAt_of_closed_sentence :
    let content : Fragment := ⟨"Return _x_ (see \x7b [[A]]: (_y_.) \x7d and *z*.)".toList, 4⟩
    ∃ items, Expression.parse content = .ok items ∧ items.firstText = "Return ".toList ∧
      Expression.lastText items = ".)".toList ∧ LooksAt content items := by
  intro content
  have hparse : (Expression.parse content).toOption.map
      (fun items => (Expression.firstText items, Expression.lastText items)) =
      some ("Return ".toList, ".)".toList) := by
    decide +kernel
  cases hitems : Expression.parse content with
  | error e =>
    rw [hitems] at hparse
    cases hparse
  | ok items =>
    rw [hitems] at hparse
    obtain ⟨hfirst, hlast⟩ := Prod.mk.inj (Option.some.inj hparse)
    exact ⟨items, rfl, hfirst, hlast, looksAt_of_parse content items hitems⟩

end Style

end Errata
