import Errata.Proofs.Scope.Moments
import Errata.Proofs.Scope.Placement

/-!
# Words that declare strictly

Only words such as `Let _x_ be` declare strictly, and not even these in a step that begins with `If`, `Else` or
`Otherwise`. A variable that is said to exist may shadow, and the variable of a loop is declared by the loop.
-/

namespace Errata.Scope

/-! ## 1. Strict declarations -/

/-- The strict declarations that an action makes in the list of steps it belongs to are as `p` says. What it
does in lists below it and in the scope of a closure does not count. -/
inductive Action.DeclaresOnly (p : Text → Nat → Prop) : Action → Prop
  | annotate {name : Text} {offset : Nat} : DeclaresOnly p (.annotate name offset)
  | declare {name : Text} {kind : Kind} {offset : Nat} {shadow : Bool}
      (h : shadow = false → p name offset) : DeclaresOnly p (.declare name kind offset shadow)
  | use {name : Text} {offset : Nat} : DeclaresOnly p (.use name offset)
  | level {body : List Action} : DeclaresOnly p (.level body)
  | loop {name : Text} {offset : Nat} {body : List Action} (h : ∀ a ∈ body, DeclaresOnly p a) :
      DeclaresOnly p (.loop name offset body)
  | closure {bindings : List Binding} {body : List Action} : DeclaresOnly p (.closure bindings body)
  | brokenClosure {bindings : List Binding} {expected : ClosurePart} {offset : Nat} :
      DeclaresOnly p (.brokenClosure bindings expected offset)

theorem Action.DeclaresOnly.imp {p q : Text → Nat → Prop} (hpq : ∀ name offset, p name offset → q name offset)
    {a : Action} (h : a.DeclaresOnly p) : a.DeclaresOnly q := by
  induction h with
  | annotate => exact .annotate
  | declare h => exact .declare fun hshadow => hpq _ _ (h hshadow)
  | use => exact .use
  | level => exact .level
  | loop _ ih => exact .loop ih
  | closure => exact .closure
  | brokenClosure => exact .brokenClosure

/-! ## 2. Variables before an item -/

/-- The variables that are listed before an item are among the items before it. -/
theorem exists_suffix_of_mem_listedBefore {before : List Item} {token : Fragment}
    (h : token ∈ (listedBefore before).1) :
    ∃ item earlier, item :: earlier <:+ before ∧ item.var? = some token := by
  fun_induction listedBefore before with
  | case1 separator item before text first hfirst htext hseparator tokens rest heq ih =>
    rw [heq] at ih
    rcases List.mem_cons.mp h with rfl | h
    · exact ⟨item, before, List.suffix_cons separator _, hfirst⟩
    · obtain ⟨found, earlier, hsuffix, hfound⟩ := ih h
      have hbefore : before <:+ separator :: item :: before :=
        (List.suffix_cons item before).trans (List.suffix_cons separator _)
      exact ⟨found, earlier, hsuffix.trans hbefore, hfound⟩
  | case2 => exact absurd h List.not_mem_nil
  | case3 => exact absurd h List.not_mem_nil
  | case4 => exact absurd h List.not_mem_nil

/-- A strict declaration is made for a variable and maybe for those listed before it. -/
theorem declaredWith_strict {conditional : Bool} {before : List Item} {token : Fragment} {next : Text}
    {tokens : List Fragment} (h : declaredWith conditional before token next = some (tokens, false)) :
    conditional = false ∧ isExistential (textOf before.head?) = false ∧
      ∀ t ∈ tokens, t = token ∨ t ∈ (listedBefore before).1 := by
  unfold declaredWith at h
  split at h
  · cases h
  · rename_i hexists
    dsimp only at h
    split at h
    · split at h
      · cases h
        refine ⟨rfl, Bool.eq_false_iff.mpr hexists, fun t ht => ?_⟩
        exact List.mem_cons.mp (List.mem_reverse.mp ht)
      · cases h
    · split at h
      · cases h
      · cases h

/-! ## 3. Variables that are said to exist -/

/-- Of the items `before`, the last first, those variables that are said to exist are known to declare. -/
def Settled (before : List Item) (declared : List Nat) : Prop :=
  ∀ item earlier token, item :: earlier <:+ before → item.var? = some token →
    isExistential (textOf earlier.head?) = true → token.offset ∈ declared

theorem Settled.nil (declared : List Nat) : Settled [] declared :=
  fun _ _ _ h => absurd (List.suffix_nil.mp h) (List.cons_ne_nil _ _)

theorem Settled.cons {before : List Item} {declared declared' : List Nat} (h : Settled before declared)
    (hsubset : declared ⊆ declared') {item : Item}
    (hitem : ∀ token, item.var? = some token → isExistential (textOf before.head?) = true →
      token.offset ∈ declared') : Settled (item :: before) declared' := by
  intro other earlier token hsuffix hvar hexists
  rcases List.suffix_cons_iff.mp hsuffix with heq | hsuffix
  · cases heq
    exact hitem token hvar hexists
  · exact hsubset (h other earlier token hsuffix hvar hexists)

/-- Among the items, the last of which comes first, a variable has the name and the place, and is not said to
exist. -/
def IsWritten (items : List Item) (name : Text) (offset : Nat) : Prop :=
  ∃ item earlier token, item :: earlier <:+ items ∧ item.var? = some token ∧ token.name = name ∧
    token.offset = offset ∧ isExistential (textOf earlier.head?) = false

theorem IsWritten.append_left {items : List Item} {name : Text} {offset : Nat}
    (h : IsWritten items name offset) (later : List Item) : IsWritten (later ++ items) name offset := by
  obtain ⟨item, earlier, token, hsuffix, htoken⟩ := h
  exact ⟨item, earlier, token, hsuffix.trans (List.suffix_append later items), htoken⟩

/-! ## 4. The words of a step -/

theorem isWritten_of_declaredWith {conditional : Bool} {before : List Item} {declared : List Nat}
    {item : Item} {token : Fragment} {next : Text} {tokens : List Fragment}
    (hsettled : Settled before declared) (hvar : item.var? = some token)
    (h : declaredWith conditional before token next = some (tokens, false)) {t : Fragment}
    (ht : t ∈ tokens) (hnew : t.offset ∉ declared) : IsWritten (item :: before) t.name t.offset := by
  obtain ⟨-, hexists, htokens⟩ := declaredWith_strict h
  rcases htokens t ht with rfl | ht
  · exact ⟨item, before, t, List.suffix_refl _, hvar, rfl, rfl, hexists⟩
  · obtain ⟨other, earlier, hsuffix, hother⟩ := exists_suffix_of_mem_listedBefore ht
    -- one that is said to exist would have been declared when it was come to
    have hnone : isExistential (textOf earlier.head?) = false := by
      rw [Bool.eq_false_iff]
      exact fun hexists => hnew (hsettled other earlier t hsuffix hother hexists)
    exact ⟨other, earlier, t, hsuffix.trans (List.suffix_cons item before), hother, rfl, rfl, hnone⟩

theorem declaresOnly_declarations {conditional : Bool} {before : List Item} {declared : List Nat}
    {items : List Item} (hsettled : Settled before declared) :
    ∀ a ∈ (declarations conditional before declared items).1, a.DeclaresOnly fun name offset =>
      conditional = false ∧ offset ∉ declared ∧ IsWritten (items.reverse ++ before) name offset := by
  -- each case goes on with the item among those before it, so `Settled` has to be kept for the item
  induction items generalizing before declared with
  | nil => exact List.forall_mem_nil _
  | cons item items ih =>
    rw [List.reverse_cons, List.append_assoc, List.singleton_append, declarations]
    split
    · rename_i hvar
      refine ih (hsettled.cons (fun _ h => h) fun token htoken => ?_)
      rw [hvar] at htoken
      cases htoken
    · rename_i token hvar
      split
      · rename_i hdeclared
        refine ih (hsettled.cons (fun _ h => h) fun other hother _ => ?_)
        rw [hvar] at hother
        cases hother
        exact List.contains_iff_mem.mp hdeclared
      · rename_i hfresh
        split
        · rename_i hnone
          refine ih (hsettled.cons (fun _ h => h) fun other hother hexists => ?_)
          rw [declaredWith, if_pos hexists] at hnone
          cases hnone
        · rename_i tokens shadow hdeclared
          refine List.forall_mem_append.mpr ⟨fun a ha => ?_, fun a ha => ?_⟩
          · obtain ⟨t, ht, rfl⟩ := List.mem_map.mp ha
            obtain ⟨htokens, hnew⟩ := List.mem_filter.mp ht
            have hnew : t.offset ∉ declared := by simpa using hnew
            refine .declare fun hshadow => ?_
            subst hshadow
            exact ⟨(declaredWith_strict hdeclared).1, hnew,
              (isWritten_of_declaredWith hsettled hvar hdeclared htokens hnew).append_left _⟩
          · have hnext : Settled (item :: before)
                ((tokens.filter fun t => !declared.contains t.offset).map Fragment.offset ++ declared) := by
              refine hsettled.cons (List.subset_append_right _ _) fun other hother hexists => ?_
              rw [hvar] at hother
              cases hother
              rw [declaredWith, if_pos hexists] at hdeclared
              cases hdeclared
              rw [List.filter_cons_of_pos (by simpa using hfresh)]
              exact List.mem_append_left _ List.mem_cons_self
            refine (ih hnext a ha).imp fun name offset h => ⟨h.1, fun hmem => ?_, h.2.2⟩
            exact h.2.1 (List.mem_append_right _ hmem)

theorem declaresOnly_uses {p : Text → Nat → Prop} (declared : List Nat) (tokens : List Fragment) :
    ∀ a ∈ uses declared tokens, a.DeclaresOnly p := by
  intro a ha
  obtain ⟨t, -, rfl⟩ := List.mem_map.mp ha
  exact .use

theorem declaresOnly_wordActions (items : Expression) (declared : List Nat) :
    ∀ a ∈ wordActions items declared, a.DeclaresOnly fun name offset =>
      conditionalScan.startsIn items.firstText = false ∧ offset ∉ declared ∧
        IsWritten items.reverse name offset := by
  refine List.forall_mem_append.mpr ⟨?_, declaresOnly_uses _ _⟩
  rw [← List.append_nil items.reverse]
  exact declaresOnly_declarations (.nil declared)

/-- What is true of a strict declaration in the content of a step. -/
structure DeclaresStrictly (items : Expression) (name : Text) (offset : Nat) : Prop where
  /-- A variable has the name and the place, and the text before it does not say that something exists. -/
  written : ∃ before item after token, items = before ++ item :: after ∧ item.var? = some token ∧
    token.name = name ∧ token.offset = offset ∧ isExistential (textOf before.getLast?) = false
  /-- The step does not begin with `If`, `Else` or `Otherwise`. -/
  unconditional : conditionalScan.startsIn items.firstText = false
  /-- It is not the variable of a loop. -/
  ordinary : ∀ token, loopVar? items = some token → token.offset ≠ offset

theorem exists_append_of_isWritten {items : List Item} {name : Text} {offset : Nat}
    (h : IsWritten items.reverse name offset) :
    ∃ before item after token, items = before ++ item :: after ∧ item.var? = some token ∧
      token.name = name ∧ token.offset = offset ∧ isExistential (textOf before.getLast?) = false := by
  obtain ⟨item, earlier, token, ⟨later, heq⟩, hvar, hname, hoffset, hexists⟩ := h
  refine ⟨earlier.reverse, item, later.reverse, token, ?_, hvar, hname, hoffset, ?_⟩
  · rw [← List.reverse_reverse items, ← heq, List.reverse_append, List.reverse_cons, List.append_assoc,
      List.singleton_append]
  · rw [List.getLast?_reverse]
    exact hexists

/-! ## 5. Steps -/

/-- The words of a step that is not a loop. -/
theorem declaresStrictly_words {items : Expression} (hloop : loopVar? items = none) :
    ∀ a ∈ wordActions items [], a.DeclaresOnly (DeclaresStrictly items) := by
  intro a ha
  refine (declaresOnly_wordActions items [] a ha).imp fun name offset h => ?_
  refine ⟨exists_append_of_isWritten h.2.2, h.1, fun token htoken => ?_⟩
  rw [hloop] at htoken
  cases htoken

/-- The words of a loop, whose variable is known to declare. -/
theorem declaresStrictly_loop {items : Expression} {token : Fragment} (hloop : loopVar? items = some token) :
    ∀ a ∈ wordActions items [token.offset], a.DeclaresOnly (DeclaresStrictly items) := by
  intro a ha
  refine (declaresOnly_wordActions items [token.offset] a ha).imp fun name offset h => ?_
  refine ⟨exists_append_of_isWritten h.2.2, h.1, fun other hother => ?_⟩
  rw [hloop] at hother
  cases hother
  exact fun heq => h.2.1 (heq ▸ List.mem_singleton_self _)

/-- The variable that a closure is given to, after the word `Let`. -/
theorem declaresStrictly_closureVar (items : Expression) :
    ∀ a ∈ closureVar items, a.DeclaresOnly (DeclaresStrictly items) := by
  unfold closureVar
  split
  · rename_i first token after rest
    split
    · rename_i hwords
      have hfirst : first.text = "Let ".toList := of_decide_eq_true (Bool.and_eq_true_iff.mp hwords).1
      refine List.forall_mem_singleton.mpr (.declare fun _ => ?_)
      refine ⟨⟨[.leaf .text first], .leaf .var token, .leaf .text after :: rest, token, rfl, rfl, rfl, rfl,
        ?_⟩, ?_, fun other hother => ?_⟩
      · show isExistential first.text = false
        rw [hfirst]
        decide
      · show conditionalScan.startsIn first.text = false
        rw [hfirst]
        decide
      · have hnot : ¬ first.text.startsWith "For each " = true := by
          rw [hfirst]
          decide
        have hnone : loopVar? (.leaf .text first :: .leaf .var token :: .leaf .text after :: rest) = none :=
          if_neg hnot
        rw [hnone] at hother
        cases hother
    · exact List.forall_mem_nil _
  · exact List.forall_mem_nil _

section

variable {p : Text → Nat → Prop}

theorem declaresOnly_attributeActions (step : Step) : ∀ a ∈ attributeActions step, a.DeclaresOnly p := by
  intro a ha
  obtain ⟨name, offset, rfl⟩ := eq_annotate_of_mem_attributeActions ha
  exact .annotate

theorem declaresOnly_closureAction (items : Expression) (body : List Action) :
    (closureAction items body).DeclaresOnly p := by
  unfold closureAction
  split
  · exact .closure
  · exact .brokenClosure

mutual

theorem declaresOnly_stepUses (cache : Cache) : ∀ (step : Step), ∀ a ∈ stepUses cache step, a.DeclaresOnly p
  | ⟨id, _, _, _, sublist⟩ => by
    rw [stepUses]
    split
    · exact List.forall_mem_nil _
    · exact List.forall_mem_append.mpr ⟨declaresOnly_uses _ _, declaresOnly_sublistUses cache sublist⟩

theorem declaresOnly_unorderedActions (cache : Cache) : ∀ (steps : List Step),
    ∀ a ∈ unorderedActions cache steps, a.DeclaresOnly p
  | [] => List.forall_mem_nil _
  | step :: steps =>
    List.forall_mem_append.mpr
      ⟨declaresOnly_stepUses cache step, declaresOnly_unorderedActions cache steps⟩

theorem declaresOnly_sublistUses (cache : Cache) : ∀ (sublist : Option StepList),
    ∀ a ∈ sublistUses cache sublist, a.DeclaresOnly p
  | none => List.forall_mem_nil _
  | some ⟨_, steps⟩ => declaresOnly_unorderedActions cache steps

end

/-- The steps below a step are a list of their own, or they only use variables. -/
theorem declaresOnly_sublistActions (cache : Cache) (sublist : Option StepList) :
    ∀ a ∈ sublistActions cache sublist, a.DeclaresOnly p := by
  unfold sublistActions
  split
  · exact List.forall_mem_nil _
  · exact List.forall_mem_singleton.mpr .level
  · exact declaresOnly_unorderedActions cache _

end

/-- A step declares strictly what its own words declare so. -/
theorem declaresOnly_stepActions (cache : Cache) (step : Step) :
    ∀ a ∈ stepActions cache step, a.DeclaresOnly fun name offset =>
      ∃ items, cache.get? step.id = some items ∧ DeclaresStrictly items name offset := by
  obtain ⟨id, marker, attributes, content, sublist⟩ := step
  rw [stepActions]
  split
  · exact List.forall_mem_nil _
  · rename_i items hitems
    intro a ha
    refine Action.DeclaresOnly.imp (fun name offset h => ⟨items, hitems, h⟩) ?_
    revert a ha
    refine List.forall_mem_append.mpr ⟨declaresOnly_attributeActions _, ?_⟩
    split
    · exact List.forall_mem_append.mpr ⟨declaresStrictly_closureVar items,
        List.forall_mem_singleton.mpr (declaresOnly_closureAction items _)⟩
    · split
      · rename_i token hloop
        exact List.forall_mem_singleton.mpr (.loop (List.forall_mem_append.mpr
          ⟨declaresStrictly_loop hloop, declaresOnly_sublistActions cache sublist⟩))
      · rename_i hloop
        exact List.forall_mem_append.mpr
          ⟨declaresStrictly_words hloop, declaresOnly_sublistActions cache sublist⟩

end Errata.Scope
