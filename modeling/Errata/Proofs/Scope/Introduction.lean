import Errata.Scope.Reading

/-!
# The words that introduce a closure

The parameters of a closure are names with commas between them in a parenthesis, and its captures are names
with separators between them, up to the words that begin its steps. Nothing is wrong in the introduction of a
closure exactly if it has this form.
-/

namespace Errata.Scope

/-! ## 1. Lists of names -/

/-- Items that alternate: pairs, each of which is a name and what divides it from the next. -/
def alternated (listed : List (Item × Item)) : List Item := listed.flatMap fun pair => [pair.1, pair.2]

/-- Names with commas between them, at least one. -/
def IsParameterList (items : List Item) : Prop :=
  ∃ (listed : List (Item × Item)) (last : Item), items = alternated listed ++ [last] ∧
    (∀ pair ∈ listed, pair.1.isVar = true ∧ pair.2.text? = some ", ".toList) ∧ last.isVar = true

theorem isParameterList_singleton {item : Item} : IsParameterList [item] ↔ item.isVar = true := by
  constructor
  · rintro ⟨listed, last, heq, -, hlast⟩
    cases listed with
    | nil =>
      cases heq
      exact hlast
    | cons pair listed => cases heq
  · exact fun h => ⟨[], item, rfl, List.forall_mem_nil _, h⟩

theorem isParameterList_cons {item comma : Item} {items : List Item} :
    IsParameterList (item :: comma :: items) ↔
      item.isVar = true ∧ comma.text? = some ", ".toList ∧ IsParameterList items := by
  constructor
  · rintro ⟨listed, last, heq, hlisted, hlast⟩
    cases listed with
    | nil => cases heq
    | cons pair listed =>
      obtain ⟨hpair, hlisted⟩ := List.forall_mem_cons.mp hlisted
      cases heq
      exact ⟨hpair.1, hpair.2, listed, last, rfl, hlisted, hlast⟩
  · rintro ⟨hitem, hcomma, listed, last, rfl, hlisted, hlast⟩
    exact ⟨(item, comma) :: listed, last, rfl, List.forall_mem_cons.mpr ⟨⟨hitem, hcomma⟩, hlisted⟩, hlast⟩

theorem not_isParameterList_nil : ¬ IsParameterList [] := by
  rintro ⟨listed, last, heq, -, -⟩
  exact absurd heq.symm (List.append_ne_nil_of_right_ne_nil _ (List.cons_ne_nil _ _))

/-- Whether a text begins the steps of a closure. -/
def beginsSteps (t : Text) : Bool := t.startsWith " and performs" || t.startsWith " performs"

/-- Names with separators between them, at least one, and then the words that begin the steps. -/
def IsCaptureList (items : List Item) : Prop :=
  ∃ (listed : List (Item × Item)) (last words : Item) (others : List Item),
    items = alternated listed ++ last :: words :: others ∧
    (∀ pair ∈ listed, pair.1.isVar = true ∧ pair.2.text?.any isSeparator = true) ∧
    last.isVar = true ∧ words.text?.any beginsSteps = true

theorem isCaptureList_cons {item separator : Item} {items : List Item} :
    IsCaptureList (item :: separator :: items) ↔
      item.isVar = true ∧
        (separator.text?.any beginsSteps = true ∨
          separator.text?.any isSeparator = true ∧ IsCaptureList items) := by
  constructor
  · rintro ⟨listed, last, words, others, heq, hlisted, hlast, hwords⟩
    cases listed with
    | nil =>
      cases heq
      exact ⟨hlast, .inl hwords⟩
    | cons pair listed =>
      obtain ⟨hpair, hlisted⟩ := List.forall_mem_cons.mp hlisted
      cases heq
      exact ⟨hpair.1, .inr ⟨hpair.2, listed, last, words, others, rfl, hlisted, hlast, hwords⟩⟩
  · rintro ⟨hitem, hwords | ⟨hseparator, listed, last, words, others, rfl, hlisted, hlast, hwords⟩⟩
    · exact ⟨[], item, separator, items, rfl, List.forall_mem_nil _, hitem, hwords⟩
    · exact ⟨(item, separator) :: listed, last, words, others, rfl,
        List.forall_mem_cons.mpr ⟨⟨hitem, hseparator⟩, hlisted⟩, hlast, hwords⟩

theorem IsCaptureList.length {items : List Item} (h : IsCaptureList items) : 2 ≤ items.length := by
  obtain ⟨listed, last, words, others, rfl, -⟩ := h
  rw [List.length_append, List.length_cons, List.length_cons]
  omega

theorem IsCaptureList.isVar {item : Item} {items : List Item} (h : IsCaptureList (item :: items)) :
    item.isVar = true := by
  cases items with
  | nil => exact absurd h.length (by simp)
  | cons separator items => exact (isCaptureList_cons.mp h).1

theorem not_beginsSteps_of_isSeparator {t : Text} (h : isSeparator t = true) : beginsSteps t = false := by
  have hall : ∀ s ∈ [", ", ", and ", " and "], beginsSteps s.toList = false := by decide
  obtain ⟨s, hs, ht⟩ := List.any_eq_true.mp h
  rw [of_decide_eq_true ht]
  exact hall s hs

/-! ## 2. Reading them -/

theorem isVar_of_var? {item : Item} {token : Fragment} (h : item.var? = some token) : item.isVar = true := by
  rw [Item.isVar, h]
  rfl

theorem not_isVar_of_var? {item : Item} (h : item.var? = none) : ¬ item.isVar = true := by
  rw [Item.isVar, h]
  exact Bool.false_ne_true

theorem parameterBindings_eq_none_iff {items : List Item} (hne : items ≠ []) :
    (parameterBindings items).2 = none ↔ IsParameterList items := by
  fun_induction parameterBindings items with
  | case1 => exact absurd rfl hne
  | case2 item hvar =>
    rw [isParameterList_singleton]
    exact iff_of_false (Option.some_ne_none _) (not_isVar_of_var? hvar)
  | case3 item token hvar =>
    rw [isParameterList_singleton]
    exact iff_of_true rfl (isVar_of_var? hvar)
  | case4 item comma items hvar =>
    rw [isParameterList_cons]
    exact iff_of_false (Option.some_ne_none _) fun h => not_isVar_of_var? hvar h.1
  | case5 item comma items token hvar first hcomma =>
    rw [isParameterList_cons]
    exact iff_of_false (Option.some_ne_none _) fun h => hcomma h.2.1
  | case6 item comma items token hvar first hcomma hempty =>
    rw [isParameterList_cons, List.isEmpty_iff.mp hempty]
    exact iff_of_false (Option.some_ne_none _) fun h => not_isParameterList_nil h.2.2
  | case7 item comma items token hvar first hcomma hmore others wrong hothers ih =>
    have hne' : items ≠ [] := fun h => hmore (List.isEmpty_iff.mpr h)
    rw [hothers] at ih
    rw [isParameterList_cons, ← ih hne']
    exact ⟨fun h => ⟨isVar_of_var? hvar, Decidable.not_not.mp hcomma, h⟩, fun h => h.2.2⟩

theorem captureBindings_eq_none_iff {stop : Nat} {items : List Item} :
    (captureBindings stop items).2 = none ↔ IsCaptureList items := by
  fun_induction captureBindings stop items with
  | case1 stop => exact iff_of_false (Option.some_ne_none _) fun h => absurd h.length (by simp)
  | case2 stop item items hvar =>
    exact iff_of_false (Option.some_ne_none _) fun h => not_isVar_of_var? hvar h.isVar
  | case3 stop item token hvar first =>
    exact iff_of_false (Option.some_ne_none _) fun h => absurd h.length (by simp)
  | case4 stop item token hvar first separator items htext =>
    rw [isCaptureList_cons, htext]
    exact iff_of_false (Option.some_ne_none _) (by simp)
  | case5 stop item token hvar first separator items t htext hseparator others wrong hothers ih =>
    rw [hothers] at ih
    rw [isCaptureList_cons, htext, Option.any_some, Option.any_some, hseparator,
      not_beginsSteps_of_isSeparator hseparator, ← ih]
    exact ⟨fun h => ⟨isVar_of_var? hvar, .inr ⟨rfl, h⟩⟩, fun h => h.2.elim (absurd · Bool.false_ne_true) And.right⟩
  | case6 stop item token hvar first separator items t htext _ hwords =>
    rw [isCaptureList_cons, htext]
    exact iff_of_true rfl ⟨isVar_of_var? hvar, .inl hwords⟩
  | case7 stop item token hvar first separator items t htext hseparator hwords =>
    rw [isCaptureList_cons, htext]
    exact iff_of_false (Option.some_ne_none _) fun h => h.2.elim hwords fun h => hseparator h.1

/-- A closure is well introduced if its parameters and its captures, where it has any, are lists of their
kinds. -/
structure WellIntroduced (items : Expression) : Prop where
  parameters : ∀ stop rest, afterWords " with parameters " items = some (stop, rest) →
    ∃ span inner others, rest = .paren span inner :: others ∧ IsParameterList inner
  captures : ∀ stop rest, afterWords " that captures " items = some (stop, rest) → IsCaptureList rest

theorem closureParameters_eq_none_iff (items : Expression) :
    (closureParameters items).2 = none ↔
      ∀ stop rest, afterWords " with parameters " items = some (stop, rest) →
        ∃ span inner others, rest = .paren span inner :: others ∧ IsParameterList inner := by
  unfold closureParameters
  split
  · rename_i h
    rw [h]
    exact iff_of_true rfl fun _ _ h => absurd h.symm (Option.some_ne_none _)
  · rename_i stop h
    rw [h]
    refine iff_of_false (Option.some_ne_none _) fun hall => ?_
    obtain ⟨span, inner, others, heq, -⟩ := hall stop [] rfl
    cases heq
  · rename_i stop span inner others h
    have hiff : (∀ stop rest, afterWords " with parameters " items = some (stop, rest) →
        ∃ span inner others, rest = .paren span inner :: others ∧ IsParameterList inner) ↔
        IsParameterList inner := by
      rw [h]
      constructor
      · intro hall
        obtain ⟨_, _, _, heq, hlist⟩ := hall stop _ rfl
        cases heq
        exact hlist
      · intro hlist _ _ heq
        cases heq
        exact ⟨span, inner, others, rfl, hlist⟩
    rw [hiff]
    split
    · rename_i hempty
      rw [List.isEmpty_iff.mp hempty]
      exact iff_of_false (Option.some_ne_none _) not_isParameterList_nil
    · rename_i hmore
      exact parameterBindings_eq_none_iff fun heq => hmore (List.isEmpty_iff.mpr heq)
  · rename_i stop item others hparen h
    rw [h]
    refine iff_of_false (Option.some_ne_none _) fun hall => ?_
    obtain ⟨span, inner, others, heq, -⟩ := hall stop _ rfl
    cases heq
    exact hparen span inner rfl

theorem closureCaptures_eq_none_iff (items : Expression) :
    (closureCaptures items).2 = none ↔
      ∀ stop rest, afterWords " that captures " items = some (stop, rest) → IsCaptureList rest := by
  unfold closureCaptures
  split
  · rename_i h
    rw [h]
    exact iff_of_true rfl fun _ _ h => absurd h.symm (Option.some_ne_none _)
  · rename_i stop rest h
    rw [h, captureBindings_eq_none_iff]
    constructor
    · intro hlist _ _ heq
      cases heq
      exact hlist
    · exact fun hall => hall stop rest rfl

/-- Nothing is wrong in the introduction of a closure exactly if it is introduced well. -/
theorem introduction_eq_none_iff {items : Expression} :
    (introduction items).2 = none ↔ WellIntroduced items := by
  have hparameters := closureParameters_eq_none_iff items
  have hcaptures := closureCaptures_eq_none_iff items
  unfold introduction
  split
  · rename_i parameters wrong h
    rw [h] at hparameters
    exact iff_of_false (Option.some_ne_none _) fun hwell =>
      Option.some_ne_none _ (hparameters.mpr hwell.parameters)
  · rename_i parameters h
    rw [h] at hparameters
    rw [hcaptures]
    exact ⟨fun hlist => ⟨hparameters.mp rfl, hlist⟩, fun hwell => hwell.captures⟩

/-! ## 3. The names that are read -/

/-- A parameter is written in the parenthesis after its words, and a capture after its own. -/
def Binding.Written (items : Expression) : Binding → Prop
  | .parameter name offset => ∃ stop span inner others token,
    afterWords " with parameters " items = some (stop, .paren span inner :: others) ∧
      token ∈ inner.filterMap Item.var? ∧ token.name = name ∧ token.offset = offset
  | .capture name offset => ∃ stop rest token,
    afterWords " that captures " items = some (stop, rest) ∧
      token ∈ rest.filterMap Item.var? ∧ token.name = name ∧ token.offset = offset

theorem mem_filterMap_cons {item : Item} {items : List Item} {token : Fragment}
    (h : token ∈ items.filterMap Item.var?) : token ∈ (item :: items).filterMap Item.var? := by
  obtain ⟨other, hother, hvar⟩ := List.mem_filterMap.mp h
  exact List.mem_filterMap.mpr ⟨other, List.mem_cons_of_mem item hother, hvar⟩

theorem mem_filterMap_head {item : Item} {items : List Item} {token : Fragment}
    (h : item.var? = some token) : token ∈ (item :: items).filterMap Item.var? :=
  List.mem_filterMap.mpr ⟨item, List.mem_cons_self, h⟩

theorem mem_parameterBindings {items : List Item} {binding : Binding}
    (h : binding ∈ (parameterBindings items).1) :
    ∃ token ∈ items.filterMap Item.var?, binding = .parameter token.name token.offset := by
  fun_induction parameterBindings items with
  | case1 => exact absurd h List.not_mem_nil
  | case2 => exact absurd h List.not_mem_nil
  | case3 item token hvar => exact ⟨token, mem_filterMap_head hvar, List.mem_singleton.mp h⟩
  | case4 => exact absurd h List.not_mem_nil
  | case5 item comma items token hvar first =>
    exact ⟨token, mem_filterMap_head hvar, List.mem_singleton.mp h⟩
  | case6 item comma items token hvar first =>
    exact ⟨token, mem_filterMap_head hvar, List.mem_singleton.mp h⟩
  | case7 item comma items token hvar first _ _ others wrong hothers ih =>
    rw [hothers] at ih
    rcases List.mem_cons.mp h with rfl | h
    · exact ⟨token, mem_filterMap_head hvar, rfl⟩
    · obtain ⟨other, hother, rfl⟩ := ih h
      exact ⟨other, mem_filterMap_cons (mem_filterMap_cons hother), rfl⟩

theorem mem_captureBindings {stop : Nat} {items : List Item} {binding : Binding}
    (h : binding ∈ (captureBindings stop items).1) :
    ∃ token ∈ items.filterMap Item.var?, binding = .capture token.name token.offset := by
  fun_induction captureBindings stop items with
  | case1 => exact absurd h List.not_mem_nil
  | case2 => exact absurd h List.not_mem_nil
  | case3 stop item token hvar => exact ⟨token, mem_filterMap_head hvar, List.mem_singleton.mp h⟩
  | case4 stop item token hvar => exact ⟨token, mem_filterMap_head hvar, List.mem_singleton.mp h⟩
  | case5 stop item token hvar first separator items t _ _ others wrong hothers ih =>
    rw [hothers] at ih
    rcases List.mem_cons.mp h with rfl | h
    · exact ⟨token, mem_filterMap_head hvar, rfl⟩
    · obtain ⟨other, hother, rfl⟩ := ih h
      exact ⟨other, mem_filterMap_cons (mem_filterMap_cons hother), rfl⟩
  | case6 stop item token hvar => exact ⟨token, mem_filterMap_head hvar, List.mem_singleton.mp h⟩
  | case7 stop item token hvar => exact ⟨token, mem_filterMap_head hvar, List.mem_singleton.mp h⟩

theorem written_closureParameters {items : Expression} {binding : Binding}
    (h : binding ∈ (closureParameters items).1) : binding.Written items := by
  unfold closureParameters at h
  split at h
  · exact absurd h List.not_mem_nil
  · exact absurd h List.not_mem_nil
  · rename_i stop span inner others hafter
    split at h
    · exact absurd h List.not_mem_nil
    · obtain ⟨token, htoken, rfl⟩ := mem_parameterBindings h
      exact ⟨stop, span, inner, others, token, hafter, htoken, rfl, rfl⟩
  · exact absurd h List.not_mem_nil

theorem written_closureCaptures {items : Expression} {binding : Binding}
    (h : binding ∈ (closureCaptures items).1) : binding.Written items := by
  unfold closureCaptures at h
  split at h
  · exact absurd h List.not_mem_nil
  · rename_i stop rest hafter
    obtain ⟨token, htoken, rfl⟩ := mem_captureBindings h
    exact ⟨stop, rest, token, hafter, htoken, rfl, rfl⟩

/-- All names that a closure gets are written in its introduction. -/
theorem written_introduction {items : Expression} {binding : Binding}
    (h : binding ∈ (introduction items).1) : binding.Written items := by
  unfold introduction at h
  split at h
  · rename_i hparameters
    refine written_closureParameters ?_
    rw [hparameters]
    exact h
  · rename_i hparameters
    rcases List.mem_append.mp h with h | h
    · refine written_closureParameters ?_
      rw [hparameters]
      exact h
    · exact written_closureCaptures h

end Errata.Scope
