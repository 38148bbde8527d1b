import Errata.Proofs.Slices.Text
import Errata.Scope.Reading

/-!
# Reading the words of a step by numbers

The items of a step are looked at here by their numbers, also those before and after a variable, and a run of
items is cut out between two numbers. Where there is no such item there is no result. This never comes to
pass, and the actions are the same.
-/

namespace Errata.Scope

/-! ## 1. Declarations -/

/-- The number of the first of the variables that are listed together before the item number `i`. -/
def listStart? (items : List Item) : Nat → Option Nat
  | j + 2 => do
    let item ← items[j]?
    if item.var?.isSome then
      let separator ← items[j + 1]?
      if separator.text?.any isSeparator then listStart? items j else return j + 2
    else return j + 2
  | j => some j

/-- The text of the item before the item number `i`. -/
def textBefore? (items : List Item) : Nat → Option Text
  | 0 => some []
  | j + 1 => do
    let item ← items[j]?
    return textOf (some item)

/-- The items from one number to another, both included. -/
def between? (items : List Item) (i j : Nat) : Option (List Item) :=
  if i ≤ j ∧ j < items.length then some ((items.take (j + 1)).drop i) else none

/-- The variables that the variable with the number `i` declares, itself among them, and whether they may
shadow. -/
def declaredAt? (conditional : Bool) (items : List Item) (i : Nat) (token : Fragment) :
    Option (Option (List Fragment × Bool)) := do
  let next := textOf items[i + 1]?
  if isExistential (← textBefore? items i) then return some ([token], true)
  if next.startsWith " be " then
    let j ← listStart? items i
    if isLet (← textBefore? items j) then
      return some ((← between? items j i).filterMap Item.var?, conditional)
    else return none
  else if next.startsWith " such that " then
    let j ← listStart? items i
    return some ((← between? items j i).filterMap Item.var?, true)
  else return none

/-- The declarations from the item number `i` on, and the places of all tokens that declare. -/
def declarationsAt? (conditional : Bool) (items : List Item) (i : Nat) (declared : List Nat) :
    List Item → Option (List Action × List Nat)
  | [] => some ([], declared)
  | item :: later =>
    match item.var? with
    | none => declarationsAt? conditional items (i + 1) declared later
    | some token =>
      if declared.contains token.offset then declarationsAt? conditional items (i + 1) declared later
      else do
        match ← declaredAt? conditional items i token with
        | none => declarationsAt? conditional items (i + 1) declared later
        | some (tokens, shadow) =>
          let new := tokens.filter fun t => !declared.contains t.offset
          let here := new.map fun t => Action.declare t.name .ordinary t.offset shadow
          let (others, all) ←
            declarationsAt? conditional items (i + 1) (new.map Fragment.offset ++ declared) later
          return (here ++ others, all)

def wordActionsAt? (items : Expression) (declared : List Nat) : Option (List Action) := do
  let conditional := conditionalScan.startsIn items.firstText
  let (here, all) ← declarationsAt? conditional items 0 declared items
  return here ++ uses all items.vars

/-! ## 2. Closures -/

/-- The parameters from the item number `k` of a parenthesis on: a name at each even number. -/
def parametersFrom (k : Nat) : List Item → Introduction
  | [] => ([], none)
  | item :: items =>
    if k % 2 = 0 then
      match item.var? with
      | none => ([], some (.parameterName, item.start))
      | some token =>
        let (others, wrong) := parametersFrom (k + 1) items
        (.parameter token.name token.offset :: others, wrong)
    else if item.text? ≠ some ", ".toList then ([], some (.comma, item.start))
    else parametersFrom (k + 1) items

def parametersAt? (parameters : List Item) : Option Introduction :=
  match parametersFrom 0 parameters with
  | (bindings, some wrong) => some (bindings, some wrong)
  | (bindings, none) =>
    if parameters.length % 2 = 0 then do
      let last ← parameters[parameters.length - 1]?
      return (bindings, some (.parameterName, last.stop))
    else some (bindings, none)

/-- The captures from the item number `k` on. -/
def capturesAt? (items : List Item) (k : Nat) : Option Introduction :=
  match items[k]? with
  | none => do
    let before ← items[k - 1]?
    return ([], some (.captureName, before.stop))
  | some item =>
    match item.var? with
    | none => some ([], some (.captureName, item.start))
    | some token =>
      let first := Binding.capture token.name token.offset
      match items[k + 1]?.bind Item.text? with
      | none => some ([first], some (.captureSeparator, (items[k + 1]?.map Item.start).getD item.stop))
      | some t =>
        if isSeparator t then do
          let again : List Item → Nat → Option Introduction := by apply capturesAt?
          let (others, wrong) ← again items (k + 2)
          return (first :: others, wrong)
        else if t.startsWith " and performs" || t.startsWith " performs" then some ([first], none)
        else some ([first], some (.captureSeparator, (items[k + 1]?.map Item.start).getD item.stop))
partial_fixpoint

/-- The number of the first text that ends with the given words. -/
def wordsAt? (words : String) (items : List Item) : Option Nat :=
  items.findIdx? fun item => item.text?.any (·.endsWith words)

def closureParametersAt? (items : Expression) : Option Introduction :=
  match wordsAt? " with parameters " items with
  | none => some ([], none)
  | some i =>
    match items[i + 1]? with
    | none => do
      let item ← (items[i]? : Option Item)
      return ([], some (.parameterList, item.stop))
    | some (.paren span inner) =>
      if inner.isEmpty then some ([], some (.parameterName, span.start + 1)) else parametersAt? inner
    | some item => some ([], some (.parameterList, item.start))

def closureCapturesAt? (items : Expression) : Option Introduction :=
  match wordsAt? " that captures " items with
  | none => some ([], none)
  | some i => capturesAt? items (i + 1)

def introductionAt? (items : Expression) : Option Introduction := do
  match ← closureParametersAt? items with
  | (parameters, some wrong) => return (parameters, some wrong)
  | (parameters, none) =>
    let (captures, wrong) ← closureCapturesAt? items
    return (parameters ++ captures, wrong)

def closureActionAt? (items : Expression) (body : List Action) : Option Action := do
  match ← introductionAt? items with
  | (bindings, none) => return .closure bindings body
  | (bindings, some (expected, offset)) => return .brokenClosure bindings expected offset

/-! ## 3. Steps -/

mutual

/-- The actions of a step in an ordered list. -/
def stepActionsAt? (cache : Cache) : Step → Option (List Action)
  | ⟨id, marker, attributes, content, sublist⟩ =>
    match cache.get? id with
    | none => some []
    | some items => do
      let annotated := attributeActions ⟨id, marker, attributes, content, sublist⟩
      if introducesClosure (Expression.lastText items) then
        let body ← closureBodyAt? cache sublist
        return annotated ++ (closureVar items ++ [← closureActionAt? items body])
      else
        let below ← sublistActionsAt? cache sublist
        match loopVar? items with
        | some token =>
          return annotated ++
            [.loop token.name token.offset ((← wordActionsAt? items [token.offset]) ++ below)]
        | none => return annotated ++ ((← wordActionsAt? items []) ++ below)

def orderedActionsAt? (cache : Cache) : List Step → Option (List Action)
  | [] => some []
  | step :: steps => do return (← stepActionsAt? cache step) ++ (← orderedActionsAt? cache steps)

def sublistActionsAt? (cache : Cache) : Option StepList → Option (List Action)
  | none => some []
  | some ⟨.ordered, steps⟩ => do return [.level (← orderedActionsAt? cache steps)]
  | some ⟨.unordered, steps⟩ => some (unorderedActions cache steps)

def closureBodyAt? (cache : Cache) : Option StepList → Option (List Action)
  | none => some []
  | some ⟨.ordered, steps⟩ => orderedActionsAt? cache steps
  | some ⟨.unordered, _⟩ => some []

end

/-- The actions of an algorithm. -/
def actionsAt? (cache : Cache) (list : StepList) : Option (List Action) := orderedActionsAt? cache list.steps

/-! ## 4. Declarations by numbers -/

section Declarations

variable {items : List Item}

theorem textBefore?_eq {i : Nat} (h : i ≤ items.length) :
    textBefore? items i = some (textOf (items.take i).reverse.head?) := by
  cases i with
  | zero => rfl
  | succ j =>
    rw [textBefore?, List.getElem?_eq_getElem h, List.take_add_one, List.getElem?_eq_getElem h,
      Option.toList_some, List.reverse_concat]
    rfl

theorem var?_of_text? {item : Item} {t : Text} (h : item.text? = some t) : item.var? = none := by
  unfold Item.text? at h
  split at h
  · rfl
  · cases h

theorem listedBefore_listed {separator item : Item} {before : List Item} {t : Text} {token : Fragment}
    (hseparator : separator.text? = some t) (ht : isSeparator t = true) (hitem : item.var? = some token) :
    listedBefore (separator :: item :: before) =
      (token :: (listedBefore before).1, (listedBefore before).2) := by
  rw [listedBefore, hseparator, hitem]
  exact if_pos ht

theorem listedBefore_ended {separator item : Item} {before : List Item}
    (h : item.var? = none ∨ separator.text?.any isSeparator = false) :
    listedBefore (separator :: item :: before) = ([], separator :: item :: before) := by
  rw [listedBefore]
  split
  · rename_i t token hseparator hitem
    rcases h with h | h
    · rw [hitem] at h
      cases h
    · rw [hseparator, Option.any_some] at h
      exact if_neg (by rw [h]; exact Bool.false_ne_true)
  · rfl

/-- The variables listed before an item are those between two numbers. -/
theorem listStart?_eq : ∀ {j : Nat}, j ≤ items.length →
    ∃ k, listStart? items j = some k ∧ k ≤ j ∧
      listedBefore (items.take j).reverse =
        ((((items.take j).drop k).filterMap Item.var?).reverse, (items.take k).reverse)
  | 0, _ => ⟨0, rfl, Nat.le_refl 0, rfl⟩
  | 1, _ => by
    refine ⟨1, rfl, Nat.le_refl 1, ?_⟩
    cases items <;> rfl
  | j + 2, h => by
    obtain ⟨item, hitem⟩ : ∃ item, items[j]? = some item := ⟨_, List.getElem?_eq_getElem (by omega)⟩
    obtain ⟨separator, hseparator⟩ : ∃ separator, items[j + 1]? = some separator :=
      ⟨_, List.getElem?_eq_getElem (by omega)⟩
    have htake : items.take (j + 2) = items.take j ++ [item, separator] := by
      rw [List.take_add_one, List.take_add_one, hitem, hseparator, List.append_assoc]
      rfl
    have hreverse : (items.take (j + 2)).reverse = separator :: item :: (items.take j).reverse := by
      rw [htake, List.reverse_append]
      rfl
    -- what is not listed with the next item ends the list
    have hend : item.var? = none ∨ separator.text?.any isSeparator = false →
        listedBefore (items.take (j + 2)).reverse =
          ((((items.take (j + 2)).drop (j + 2)).filterMap Item.var?).reverse, (items.take (j + 2)).reverse) := by
      intro hended
      rw [List.drop_eq_nil_of_le (List.length_take_le _ _), hreverse, listedBefore_ended hended]
      rfl
    rw [listStart?, hitem, hseparator]
    simp only [Option.bind_eq_bind, Option.bind_some]
    cases htoken : item.var? with
    | none => exact ⟨j + 2, rfl, Nat.le_refl _, hend (.inl htoken)⟩
    | some token =>
      cases hlisted : separator.text?.any isSeparator with
      | false => exact ⟨j + 2, rfl, Nat.le_refl _, hend (.inr hlisted)⟩
      | true =>
        obtain ⟨t, htext, ht⟩ : ∃ t, separator.text? = some t ∧ isSeparator t = true := by
          cases htext : separator.text? with
          | none =>
            rw [htext] at hlisted
            cases hlisted
          | some t =>
            rw [htext] at hlisted
            exact ⟨t, rfl, hlisted⟩
        obtain ⟨k, hk, hle, hbefore⟩ := listStart?_eq (j := j) (by omega)
        have hlength : k ≤ (items.take j).length := by
          rw [List.length_take]
          omega
        refine ⟨k, hk, by omega, ?_⟩
        rw [hreverse, listedBefore_listed htext ht htoken, hbefore, htake, List.drop_append_of_le_length hlength,
          List.filterMap_append, List.reverse_append]
        simp [htoken, var?_of_text? htext]

theorem declaredAt?_eq (conditional : Bool) {i : Nat} {item : Item} {token : Fragment} (hitem : items[i]? = some item)
    (htoken : item.var? = some token) :
    declaredAt? conditional items i token =
      some (declaredWith conditional (items.take i).reverse token (textOf items[i + 1]?)) := by
  obtain ⟨hi, -⟩ := List.getElem?_eq_some_iff.mp hitem
  obtain ⟨k, hk, hle, hbefore⟩ := listStart?_eq (Nat.le_of_lt hi)
  -- the run from the first listed variable to the token itself
  have hbetween : (between? items k i).map (List.filterMap Item.var?) =
      some (((items.take i).drop k).filterMap Item.var? ++ [token]) := by
    have hlength : k ≤ (items.take i).length := by
      rw [List.length_take]
      omega
    rw [between?, if_pos ⟨hle, hi⟩, List.take_add_one, hitem, Option.toList_some,
      List.drop_append_of_le_length hlength, Option.map_some, List.filterMap_append]
    simp [htoken]
  obtain ⟨run, hrun, hvars⟩ := Option.map_eq_some_iff.mp hbetween
  unfold declaredAt? declaredWith
  rw [textBefore?_eq (Nat.le_of_lt hi), hk, hbefore]
  simp only [Option.bind_eq_bind, Option.bind_some, textBefore?_eq (Nat.le_trans hle (Nat.le_of_lt hi)), hrun, hvars,
    List.reverse_cons, List.reverse_reverse]
  split
  · rfl
  split
  · split
    · rfl
    · rfl
  · split
    · rfl
    · rfl

/-- The declarations in the items from a number on. -/
theorem declarationsAt?_eq (conditional : Bool) {before later : List Item} (hitems : items = before.reverse ++ later)
    (declared : List Nat) :
    declarationsAt? conditional items before.length declared later =
      some (declarations conditional before declared later) := by
  induction later generalizing before declared with
  | nil => rfl
  | cons item later ih =>
    have hnext : ∀ declared, declarationsAt? conditional items (before.length + 1) declared later =
        some (declarations conditional (item :: before) declared later) := by
      intro declared
      have hmoved : items = (item :: before).reverse ++ later := by
        rw [hitems, List.reverse_cons, List.append_assoc]
        rfl
      exact ih hmoved declared
    rw [declarationsAt?, declarations]
    cases htoken : item.var? with
    | none => exact hnext declared
    | some token =>
      have hitem : items[before.length]? = some item := by
        rw [hitems, List.getElem?_append_right (by simp)]
        simp
      have htake : (items.take before.length).reverse = before := by
        rw [hitems, List.take_left' (List.length_reverse), List.reverse_reverse]
      have hhead : items[before.length + 1]? = later.head? := by
        rw [hitems, List.getElem?_append_right (by simp)]
        simp [List.head?_eq_getElem?]
      have hdeclared := declaredAt?_eq conditional hitem htoken
      rw [htake, hhead] at hdeclared
      dsimp only
      split
      · exact hnext declared
      rw [hdeclared]
      cases declaredWith conditional before token (textOf later.head?) with
      | none => exact hnext declared
      | some found =>
        simp only [Option.bind_eq_bind, Option.bind_some, hnext]
        rfl

end Declarations

theorem wordActionsAt?_eq (items : Expression) (declared : List Nat) :
    wordActionsAt? items declared = some (wordActions items declared) := by
  have hall : items = [].reverse ++ items := rfl
  have hread := declarationsAt?_eq (conditionalScan.startsIn items.firstText) hall declared
  rw [List.length_nil] at hread
  rw [wordActionsAt?, hread]
  rfl

/-! ## 5. Closures by numbers -/

theorem parametersFrom_add_two (k : Nat) (items : List Item) :
    parametersFrom (k + 2) items = parametersFrom k items := by
  induction items generalizing k with
  | nil => rfl
  | cons item items ih =>
    rw [parametersFrom, parametersFrom, Nat.add_mod_right, ih (k + 1)]

theorem parametersFrom_name {item : Item} {token : Fragment} (h : item.var? = some token) (items : List Item) :
    parametersFrom 0 (item :: items) =
      (.parameter token.name token.offset :: (parametersFrom 1 items).1, (parametersFrom 1 items).2) := by
  rw [parametersFrom, h]
  rfl

theorem parametersFrom_comma {comma : Item} (h : comma.text? = some ", ".toList) (items : List Item) :
    parametersFrom 1 (comma :: items) = parametersFrom 0 items := by
  rw [parametersFrom, if_neg (by decide), if_neg (not_not_intro h), parametersFrom_add_two 0]

/-- A name and a comma before the others leave the last of them as it is. -/
theorem parametersAt?_cons_cons {item comma : Item} {items : List Item} {token : Fragment} (hne : items ≠ [])
    (htoken : item.var? = some token) (hcomma : comma.text? = some ", ".toList) :
    parametersAt? (item :: comma :: items) =
      (parametersAt? items).map fun found => (.parameter token.name token.offset :: found.1, found.2) := by
  have hlast : (item :: comma :: items)[items.length + 1 + 1 - 1]? = items[items.length - 1]? := by
    obtain ⟨n, hn⟩ : ∃ n, items.length = n + 1 := Nat.exists_eq_succ_of_ne_zero (by simpa using hne)
    rw [hn]
    rfl
  have hparity : (items.length + 1 + 1) % 2 = items.length % 2 := Nat.add_mod_right items.length 2
  unfold parametersAt?
  rw [parametersFrom_name htoken, parametersFrom_comma hcomma, List.length_cons, List.length_cons, hparity, hlast]
  obtain ⟨bindings, found⟩ := parametersFrom 0 items
  cases found with
  | some found => rfl
  | none =>
    dsimp only
    split
    · cases items[items.length - 1]? <;> rfl
    · rfl

theorem parametersAt?_eq {items : List Item} (h : items ≠ []) :
    parametersAt? items = some (parameterBindings items) := by
  fun_induction parameterBindings items with
  | case1 => exact absurd rfl h
  | case2 item hnone =>
    rw [parametersAt?, parametersFrom, hnone]
    rfl
  | case3 item token htoken =>
    rw [parametersAt?, parametersFrom_name htoken]
    rfl
  | case4 item comma items hnone =>
    rw [parametersAt?, parametersFrom, hnone]
    rfl
  | case5 item comma items token htoken first hcomma =>
    rw [parametersAt?, parametersFrom_name htoken, parametersFrom, if_neg (by decide), if_pos hcomma]
  | case6 item comma items token htoken first hcomma hempty =>
    rw [List.isEmpty_iff.mp hempty, parametersAt?, parametersFrom_name htoken,
      parametersFrom_comma (Decidable.not_not.mp hcomma)]
    simp only [parametersFrom, List.length_cons, List.length_nil]
    rfl
  | case7 item comma items token htoken first hcomma hempty others wrong hmore ih =>
    have hne : items ≠ [] := fun h => hempty (List.isEmpty_iff.mpr h)
    rw [parametersAt?_cons_cons hne htoken (Decidable.not_not.mp hcomma), ih hne, hmore]
    rfl

theorem getElem?_of_drop {items later : List Item} {k : Nat} {item : Item} (h : items.drop k = item :: later) :
    items[k]? = some item ∧ items.drop (k + 1) = later := by
  constructor
  · rw [← List.head?_drop, h]
    rfl
  · rw [← List.tail_drop, h]
    rfl

/-- The captures in the items after one that is there. -/
theorem capturesAt?_eq {items later : List Item} {k stop : Nat} (hstop : items[k]?.map Item.stop = some stop)
    (hlater : items.drop (k + 1) = later) :
    capturesAt? items (k + 1) = some (captureBindings stop later) := by
  -- `stop` is the end of the item before, which an error at the end of the items needs
  fun_induction captureBindings stop later generalizing k with
  | case1 stop =>
    obtain ⟨before, hbefore, rfl⟩ := Option.map_eq_some_iff.mp hstop
    have hnone : items[k + 1]? = none := by
      rw [← List.head?_drop, hlater]
      rfl
    rw [capturesAt?]
    simp only [hnone, Nat.add_sub_cancel, hbefore]
    rfl
  | case2 stop item later hvar =>
    rw [capturesAt?]
    simp only [(getElem?_of_drop hlater).1, hvar]
  | case3 stop item token hvar =>
    obtain ⟨hitem, hrest⟩ := getElem?_of_drop hlater
    have hnone : items[k + 1 + 1]? = none := by
      rw [← List.head?_drop, hrest]
      rfl
    rw [capturesAt?]
    simp only [hitem, hvar, hnone]
    rfl
  | case4 stop item token hvar first separator later =>
    rename_i htext
    obtain ⟨hitem, hrest⟩ := getElem?_of_drop hlater
    rw [capturesAt?]
    simp only [hitem, hvar, (getElem?_of_drop hrest).1, Option.bind_some, htext]
    rfl
  | case5 stop item token hvar first separator later t htext hseparator others wrong hmore =>
    rename_i ih
    obtain ⟨hitem, hrest⟩ := getElem?_of_drop hlater
    obtain ⟨hnext, hlast⟩ := getElem?_of_drop hrest
    have ih := ih (by rw [hnext]; rfl) hlast
    rw [capturesAt?]
    simp only [hitem, hvar, hnext, Option.bind_some, htext, if_pos hseparator]
    rw [ih, hmore]
    rfl
  | case6 stop item token hvar first separator later t htext hseparator =>
    rename_i hperforms
    obtain ⟨hitem, hrest⟩ := getElem?_of_drop hlater
    rw [capturesAt?]
    simp only [hitem, hvar, (getElem?_of_drop hrest).1, Option.bind_some, htext, if_neg hseparator,
      if_pos hperforms]
    rfl
  | case7 stop item token hvar first separator later t htext hseparator =>
    rename_i hperforms
    obtain ⟨hitem, hrest⟩ := getElem?_of_drop hlater
    rw [capturesAt?]
    simp only [hitem, hvar, (getElem?_of_drop hrest).1, Option.bind_some, htext, if_neg hseparator,
      if_neg hperforms]
    rfl

theorem afterWords_eq (words : String) (items : List Item) :
    afterWords words items =
      (wordsAt? words items).bind fun i => items[i]?.map fun item => (item.stop, items.drop (i + 1)) := by
  induction items with
  | nil => rfl
  | cons item items ih =>
    rw [afterWords, wordsAt?, List.findIdx?_cons]
    split
    · rfl
    · rw [ih, wordsAt?]
      cases List.findIdx? _ items <;> rfl

/-- The number of a text that is found, and the text with what follows it. -/
theorem exists_of_wordsAt? {words : String} {items : List Item} {i : Nat} (h : wordsAt? words items = some i) :
    ∃ item, items[i]? = some item ∧ afterWords words items = some (item.stop, items.drop (i + 1)) := by
  obtain ⟨hlt, -⟩ := List.findIdx?_eq_some_iff_getElem.mp h
  refine ⟨items[i], List.getElem?_eq_getElem hlt, ?_⟩
  rw [afterWords_eq, h, Option.bind_some, List.getElem?_eq_getElem hlt]
  rfl

theorem closureParametersAt?_eq (items : Expression) :
    closureParametersAt? items = some (closureParameters items) := by
  unfold closureParametersAt? closureParameters
  cases hwords : wordsAt? " with parameters " items with
  | none =>
    rw [afterWords_eq, hwords]
    rfl
  | some i =>
    obtain ⟨item, hitem, hafter⟩ := exists_of_wordsAt? hwords
    rw [hafter]
    dsimp only
    cases hrest : items.drop (i + 1) with
    | nil =>
      rw [← List.head?_drop, hrest, List.head?_nil, hitem]
      rfl
    | cons next later =>
      rw [(getElem?_of_drop hrest).1]
      cases next with
      | leaf kind fragment => rfl
      | record span fields => rfl
      | paren span inner =>
        dsimp only
        split
        · rfl
        · rename_i hinner
          exact parametersAt?_eq fun h => hinner (List.isEmpty_iff.mpr h)

theorem closureCapturesAt?_eq (items : Expression) : closureCapturesAt? items = some (closureCaptures items) := by
  unfold closureCapturesAt? closureCaptures
  cases hwords : wordsAt? " that captures " items with
  | none =>
    rw [afterWords_eq, hwords]
    rfl
  | some i =>
    obtain ⟨item, hitem, hafter⟩ := exists_of_wordsAt? hwords
    rw [hafter]
    exact capturesAt?_eq (by rw [hitem]; rfl) rfl

theorem introductionAt?_eq (items : Expression) : introductionAt? items = some (introduction items) := by
  unfold introductionAt? introduction
  rw [closureParametersAt?_eq, closureCapturesAt?_eq]
  obtain ⟨parameters, wrong⟩ := closureParameters items
  cases wrong <;> rfl

theorem closureActionAt?_eq (items : Expression) (body : List Action) :
    closureActionAt? items body = some (closureAction items body) := by
  unfold closureActionAt? closureAction
  rw [introductionAt?_eq]
  obtain ⟨bindings, wrong⟩ := introduction items
  cases wrong <;> rfl

/-! ## 6. Steps -/

mutual

theorem stepActionsAt?_eq (cache : Cache) : ∀ step : Step, stepActionsAt? cache step = some (stepActions cache step)
  | ⟨id, marker, attributes, content, sublist⟩ => by
    rw [stepActionsAt?, stepActions]
    cases cache.get? id with
    | none => rfl
    | some items =>
      simp only [closureBodyAt?_eq cache sublist, sublistActionsAt?_eq cache sublist, closureActionAt?_eq,
        wordActionsAt?_eq]
      split
      · rfl
      · cases loopVar? items <;> rfl

theorem orderedActionsAt?_eq (cache : Cache) : ∀ steps : List Step,
    orderedActionsAt? cache steps = some (orderedActions cache steps)
  | [] => rfl
  | step :: steps => by
    rw [orderedActionsAt?, stepActionsAt?_eq cache step, orderedActionsAt?_eq cache steps]
    rfl

theorem sublistActionsAt?_eq (cache : Cache) : ∀ sublist : Option StepList,
    sublistActionsAt? cache sublist = some (sublistActions cache sublist)
  | none => rfl
  | some ⟨.ordered, steps⟩ => by
    rw [sublistActionsAt?, orderedActionsAt?_eq cache steps]
    rfl
  | some ⟨.unordered, steps⟩ => rfl

theorem closureBodyAt?_eq (cache : Cache) : ∀ sublist : Option StepList,
    closureBodyAt? cache sublist = some (closureBody cache sublist)
  | none => rfl
  | some ⟨.ordered, steps⟩ => orderedActionsAt?_eq cache steps
  | some ⟨.unordered, _⟩ => rfl

end

theorem actionsAt?_eq (cache : Cache) (list : StepList) : actionsAt? cache list = some (actions cache list) :=
  orderedActionsAt?_eq cache list.steps

end Errata.Scope
