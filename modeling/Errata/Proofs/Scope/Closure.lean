import Errata.Proofs.Scope.Introduction
import Errata.Proofs.Scope.Moments

/-!
# Closures and the scope around them

A closure has a scope of its own. To the scope around it a closure step may declare the variable that the
closure is given to, and it uses the captures; nothing in the body of the closure matters there, and nothing
is seen in the body but the names of the closure and what the body declares. A closure that is not introduced
well is complained about once, and its body does not count.
-/

namespace Errata.Scope

/-! ## 1. The scope around a closure -/

theorem use_eq_self {s : Scope} {name : Text} (h : s.isDeclared name = false) : s.use name = s := by
  have hentries : s.entries.map (fun entry =>
      if entry.1 = name then (entry.1, { entry.2 with used := true }) else entry) = s.entries := by
    conv_rhs => rw [← List.map_id s.entries]
    apply List.map_congr_left
    intro entry hentry
    have hne : entry.1 ≠ name := fun heq =>
      not_isDeclared_iff.mp h (heq ▸ List.mem_map_of_mem hentry)
    exact if_neg hne
  exact congrArg (fun entries => { s with entries }) hentries

theorem useAt_fst (s : Scope) (name : Text) (offset : Nat) : (s.useAt name offset).1 = s.use name := by
  unfold useAt
  split
  · rfl
  · rename_i h
    exact (use_eq_self (Bool.not_eq_true _ ▸ h)).symm

/-- The names of a closure are a matter of its own scope, apart from the uses of the captures. -/
theorem bind_fst (s inner : Scope) (bindings : List Binding) :
    (bind s inner bindings).1 = (captured bindings).foldl use s := by
  induction bindings generalizing s inner with
  | nil => rfl
  | cons binding bindings ih =>
    cases binding with
    | parameter name offset => exact ih s _
    | capture name offset =>
      rw [captured, List.foldl_cons, ← useAt_fst s name offset]
      exact ih _ _

theorem levels_foldl_use (s : Scope) (used : List Text) :
    (used.foldl use s).level = s.level ∧ (used.foldl use s).outer = s.outer := by
  induction used generalizing s with
  | nil => exact ⟨rfl, rfl⟩
  | cons name used ih => exact ih (s.use name)

theorem get?_foldl_use (s : Scope) (used : List Text) (name : Text) :
    (used.foldl use s).get? name =
      (s.get? name).map fun d => { d with used := d.used || used.contains name } := by
  induction used generalizing s with
  | nil =>
    rw [List.foldl_nil]
    cases s.get? name with
    | none => rfl
    | some d => simp
  | cons first used ih =>
    rw [List.foldl_cons, ih, get?_use, Option.map_map]
    cases s.get? name with
    | none => rfl
    | some d =>
      by_cases h : name = first
      · simp [h]
      · simp [h]

/-- The token of the variable that a closure is given to, which the words `Let ` and ` be ` stand around. -/
def givenTo? : Expression → Option Fragment
  | .leaf .text first :: .leaf .var token :: .leaf .text after :: _ =>
    if first.text = "Let ".toList && after.text.startsWith " be " then some token else none
  | _ => none

theorem closureVar_eq (items : Expression) :
    closureVar items = (givenTo? items).toList.map fun token =>
      .declare token.name .ordinary token.offset false := by
  fun_cases givenTo? items with
  | case1 first token after rest hwords =>
    rw [closureVar, if_pos hwords]
    rfl
  | case2 first token after rest hwords =>
    rw [closureVar, if_neg hwords]
    rfl
  | case3 items hother => rw [closureVar.eq_2 items hother]; rfl

/-- What a closure step may make of the scope around the closure, when it uses the names `captures`. -/
structure Confined (items : Expression) (captures : List Text) (s s' : Scope) : Prop where
  outer : s'.outer = s.outer
  level : ∀ name, name ∈ s'.level ↔ (givenTo? items).any (·.name = name) = true ∨ name ∈ s.level
  /-- An entry that was there may have been used. -/
  kept : ∀ name d, s.get? name = some d →
    s'.get? name = some { d with used := d.used || captures.contains name }
  /-- An entry that was not there is that of the variable that the closure is given to. -/
  new : ∀ name, s.get? name = none →
    s'.get? name = ((givenTo? items).filter (·.name = name)).map fun token =>
      ⟨.ordinary, captures.contains name, some token.offset⟩

theorem confined_of_none {items : Expression} (hgiven : givenTo? items = none) (captures : List Text)
    (s : Scope) : Confined items captures s (captures.foldl use s) := by
  obtain ⟨hlevel, houter⟩ := levels_foldl_use s captures
  refine ⟨houter, fun name => ?_, fun name d hd => ?_, fun name hd => ?_⟩
  · rw [hlevel, hgiven]
    exact (or_iff_right Bool.false_ne_true).symm
  · rw [get?_foldl_use, hd]
    rfl
  · rw [get?_foldl_use, hd, hgiven]
    rfl

theorem get?_declare_of_some {s : Scope} {name : Text} {d : Declaration} (hd : s.get? name = some d)
    (other : Text) (kind : Kind) (offset : Option Nat) (shadow : Bool) :
    (s.declare other kind offset shadow).1.get? name = some d := by
  rcases s.declare_cases other kind offset shadow with ⟨-, -, h⟩ | ⟨-, -, h⟩
  · rw [get?, h]
    exact (List.prefix_append s.entries _).lookup_eq_some hd
  · rw [get?, h]
    exact hd

theorem confined_of_some {items : Expression} {token : Fragment} (hgiven : givenTo? items = some token)
    (captures : List Text) (s : Scope) :
    Confined items captures s
      (captures.foldl use (s.declareAt token.name .ordinary token.offset false).1) := by
  have hself : s.isDeclared token.name = false →
      (s.declare token.name .ordinary (some token.offset) false).1.get? token.name =
        some ⟨.ordinary, false, some token.offset⟩ := by
    intro hnot
    rw [← declareAt_fst]
    exact get?_declareAt_self hnot .ordinary token.offset false
  rw [declareAt_fst]
  obtain ⟨hlevel, houter⟩ :=
    levels_foldl_use (s.declare token.name .ordinary (some token.offset) false).1 captures
  refine ⟨?_, fun name => ?_, fun name d hd => ?_, fun name hd => ?_⟩
  · rw [houter, outer_declare]
  · rw [hlevel, mem_level_declare, hgiven, Option.any_some, decide_eq_true_iff]
    exact or_congr_left eq_comm
  · rw [get?_foldl_use, get?_declare_of_some hd]
    rfl
  · rw [get?_foldl_use, hgiven]
    by_cases hname : token.name = name
    · subst hname
      have hnot : s.isDeclared token.name = false := by rw [isDeclared, hd]; rfl
      rw [hself hnot, Option.filter_some_pos (by simp)]
      rfl
    · rw [get?_declare_of_ne (Ne.symm hname), hd, Option.filter_some_neg (by simpa using hname)]
      rfl

theorem closureAction_of_none {items : Expression} (h : (introduction items).2 = none) (body : List Action) :
    closureAction items body = .closure (introduction items).1 body := by
  unfold closureAction
  split
  · rename_i heq
    rw [heq]
  · rename_i heq
    rw [heq] at h
    cases h

theorem closureAction_of_some {items : Expression} {expected : ClosurePart} {offset : Nat}
    (h : (introduction items).2 = some (expected, offset)) (body : List Action) :
    closureAction items body = .brokenClosure (introduction items).1 expected offset := by
  unfold closureAction
  split
  · rename_i heq
    rw [heq] at h
    cases h
  · rename_i heq
    rw [heq] at h ⊢
    cases h
    rfl

/-- A closure uses its captures in the scope around it, whether it is introduced well or not. -/
theorem run_closureAction_fst (items : Expression) (body : List Action) (s : Scope) :
    (run (closureAction items body) s).1 = (captured (introduction items).1).foldl use s := by
  cases h : (introduction items).2 with
  | none =>
    rw [closureAction_of_none h]
    exact bind_fst s .empty _
  | some wrong =>
    rw [closureAction_of_some h]
    exact bind_fst s .empty _

theorem confined_closureVar (items : Expression) (captures : List Text) (s : Scope) :
    Confined items captures s (captures.foldl use (runAll (closureVar items) s).1) := by
  rw [closureVar_eq]
  cases hgiven : givenTo? items with
  | none => exact confined_of_none hgiven captures s
  | some token => exact confined_of_some hgiven captures s

/-! ## 2. The scope of a closure -/

def Binding.name : Binding → Text
  | parameter name _ => name
  | capture name _ => name

theorem isDeclared_declareAt_iff {s : Scope} {name other : Text} {kind : Kind} {offset : Nat}
    {shadow : Bool} :
    (s.declareAt other kind offset shadow).1.isDeclared name = true ↔
      name = other ∨ s.isDeclared name = true := by
  by_cases h : name = other
  · subst h
    exact iff_of_true (isDeclared_declareAt_self s name kind offset shadow) (.inl rfl)
  · rw [isDeclared_declareAt_of_ne h]
    exact (or_iff_right h).symm

/-- A closure sees its parameters and captures when its body begins. -/
theorem isDeclared_bind_inner (s inner : Scope) (bindings : List Binding) {name : Text} :
    (bind s inner bindings).2.1.isDeclared name = true ↔
      name ∈ bindings.map Binding.name ∨ inner.isDeclared name = true := by
  induction bindings generalizing s inner with
  | nil => exact (or_iff_right List.not_mem_nil).symm
  | cons binding bindings ih =>
    rw [List.map_cons, List.mem_cons, or_comm (a := name = _), or_assoc]
    cases binding with
    | parameter other offset => exact (ih s _).trans (or_congr_right isDeclared_declareAt_iff)
    | capture other offset => exact (ih _ _).trans (or_congr_right isDeclared_declareAt_iff)

/-- What is seen at a moment of the body is a name of the closure, or the body has declared it by then. -/
theorem mem_or_declares_of_isDeclared {s : Scope} {bindings : List Binding} {body : List Action}
    {first others : List Moment} {m : Moment}
    (hmoments : momentsAll body (bind s .empty bindings).2.1 = first ++ m :: others)
    (hdepth : m.depth = 0) {name : Text} (hname : m.scope.isDeclared name = true) :
    name ∈ bindings.map Binding.name ∨ ∃ m' ∈ first, m'.declares name = true := by
  by_contra hnot
  obtain ⟨hbinding, hfirst⟩ := not_or.mp hnot
  have hinner : (bind s .empty bindings).2.1.isDeclared name = false := by
    rw [Bool.eq_false_iff, ne_eq, isDeclared_bind_inner]
    exact fun h => h.elim hbinding Bool.false_ne_true
  have hundeclared : ∀ m' ∈ first, m'.declares name = false := by
    intro m' hm'
    rw [Bool.eq_false_iff]
    exact fun h => hfirst ⟨m', hm', h⟩
  have hawaits := (awaits_momentsAll body hinner).1
  rw [hmoments] at hawaits
  have habsent := hawaits.not_isDeclared hundeclared hdepth
  rw [hname] at habsent
  cases habsent

/-! ## 3. Complaints about the introduction -/

/-- Whether a finding says that a closure is not introduced well. -/
def isBadClosure (f : Finding Problem) : Bool :=
  match f.problem with
  | .badClosure _ => true
  | _ => false

theorem not_isBadClosure_of_isImmediate (f : Finding Problem) (h : isImmediate f = true) :
    isBadClosure f = false := by
  unfold isImmediate at h
  unfold isBadClosure
  split at h <;> simp_all

theorem not_isBadClosure_of_isUnused (f : Finding Problem) (h : isUnused f = true) :
    isBadClosure f = false := by
  unfold isUnused at h
  unfold isBadClosure
  split at h <;> simp_all

theorem filter_bind_isBadClosure (s inner : Scope) (bindings : List Binding) :
    (bind s inner bindings).2.2.filter isBadClosure = [] :=
  filter_eq_nil_of_filter_eq_self (filter_bind_immediate s inner bindings)
    not_isBadClosure_of_isImmediate

theorem filter_runAll_closureVar (items : Expression) (s : Scope) :
    (runAll (closureVar items) s).2.filter isBadClosure = [] := by
  rw [closureVar_eq]
  cases givenTo? items with
  | none => rfl
  | some token =>
    rw [Option.toList_some, List.map_singleton, runAll_singleton]
    exact filter_eq_nil_of_filter_eq_self (filter_declareAt_immediate s _ _ _ _)
      not_isBadClosure_of_isImmediate

theorem filter_runAll_attributeActions (step : Step) (s : Scope) :
    (runAll (attributeActions step) s).2.filter isBadClosure = [] := by
  refine filter_runAll_eq_nil (fun a ha t => ?_) s
  obtain ⟨name, offset, rfl⟩ := eq_annotate_of_mem_attributeActions ha
  rw [run]
  split
  · rfl
  · exact filter_eq_nil_of_filter_eq_self (filter_declareAt_immediate t _ _ _ _)
      not_isBadClosure_of_isImmediate

/-! ## 4. Steps -/

theorem stepActions_closure {cache : Cache} {step : Step} {items : Expression}
    (hitems : cache.get? step.id = some items)
    (hclosure : introducesClosure (Expression.lastText items) = true) :
    stepActions cache step = (attributeActions step ++ closureVar items) ++
      [closureAction items (closureBody cache step.sublist)] := by
  obtain ⟨id, marker, attributes, content, sublist⟩ := step
  simp only at hitems
  rw [List.append_assoc]
  simp only [stepActions, hitems, hclosure]
  rfl

/-- A closure step complains about what its closure complains about. -/
theorem filter_runAll_stepActions {cache : Cache} {step : Step} {items : Expression} (s : Scope)
    (hitems : cache.get? step.id = some items)
    (hclosure : introducesClosure (Expression.lastText items) = true) :
    (runAll (stepActions cache step) s).2.filter isBadClosure =
      (run (closureAction items (closureBody cache step.sublist))
        (runAll (attributeActions step ++ closureVar items) s).1).2.filter isBadClosure := by
  have hbefore : (runAll (attributeActions step ++ closureVar items) s).2.filter isBadClosure = [] := by
    rw [runAll_append, List.filter_append, filter_runAll_attributeActions, filter_runAll_closureVar]
    rfl
  rw [stepActions_closure hitems hclosure, runAll_append, List.filter_append, hbefore, List.nil_append,
    runAll_singleton]

/-- What the visit of a step that introduces a closure does. -/
structure ClosureVisit (cache : Cache) (step : Step) (items : Expression) (s : Scope) : Prop where
  names : ∀ binding ∈ (introduction items).1, binding.Written items
  /-- The scope around the closure, from the attributes of the step to its end. -/
  confined : Confined items (captured (introduction items).1) (runAll (attributeActions step) s).1
    (runAll (stepActions cache step) s).1
  /-- A closure that is introduced well comes to its body after the moments of its introduction. All that is
  seen there are the names of the closure and what the body has declared by then. -/
  body : WellIntroduced items →
    let given := (runAll (attributeActions step ++ closureVar items) s).1
    let inner := (bind given .empty (introduction items).1).2.1
    let inside := momentsAll (closureBody cache step.sublist) inner
    momentsAll (stepActions cache step) s =
        momentsAll (attributeActions step ++ closureVar items) s ++
          boundMoments given .empty (introduction items).1 ++ inside.map Moment.deeper ∧
      (∀ first m others, inside = first ++ m :: others → m.depth = 0 →
        ∀ name, m.scope.isDeclared name = true →
          name ∈ (introduction items).1.map Binding.name ∨ ∃ m' ∈ first, m'.declares name = true) ∧
      (runAll (stepActions cache step) s).2.filter isBadClosure =
        (runAll (closureBody cache step.sublist) inner).2.filter isBadClosure
  /-- One that is not is complained about once, and it does not matter what its body is. -/
  broken : ¬ WellIntroduced items →
    (∃ expected offset, (runAll (stepActions cache step) s).2.filter isBadClosure =
      [⟨.badClosure expected, offset⟩]) ∧
    ∀ sublist, stepActions cache { step with sublist := sublist } = stepActions cache step

theorem filter_run_closure (bindings : List Binding) (body : List Action) (s : Scope) :
    (run (.closure bindings body) s).2.filter isBadClosure =
      (runAll body (bind s .empty bindings).2.1).2.filter isBadClosure := by
  rw [run, List.filter_append, List.filter_append, filter_bind_isBadClosure, List.nil_append,
    filter_eq_nil_of_filter_eq_self (filter_reportUnused _) not_isBadClosure_of_isUnused,
    List.append_nil]

theorem filter_run_brokenClosure (bindings : List Binding) (expected : ClosurePart) (offset : Nat)
    (s : Scope) :
    (run (.brokenClosure bindings expected offset) s).2.filter isBadClosure =
      [⟨.badClosure expected, offset⟩] := by
  rw [run, List.filter_append, filter_bind_isBadClosure]
  rfl

/-- A step that introduces a closure, whatever its introduction and its body are. -/
theorem closureVisit_step (cache : Cache) (step : Step) (items : Expression) (s : Scope)
    (hitems : cache.get? step.id = some items)
    (hclosure : introducesClosure (Expression.lastText items) = true) :
    ClosureVisit cache step items s := by
  have hactions := stepActions_closure hitems hclosure
  have hfound := filter_runAll_stepActions s hitems hclosure
  refine ⟨fun _ => written_introduction, ?_, fun hwell => ?_, fun hbroken => ?_⟩
  · rw [hactions, runAll_append, runAll_append, runAll_singleton, run_closureAction_fst]
    exact confined_closureVar items _ _
  · intro given inner inside
    rw [closureAction_of_none (introduction_eq_none_iff.mpr hwell)] at hactions hfound
    refine ⟨?_, ?_, ?_⟩
    · rw [hactions, momentsAll_append, List.append_assoc]
      exact congrArg _ (List.append_nil _)
    · intro first m others hinside hdepth name hname
      exact mem_or_declares_of_isDeclared hinside hdepth hname
    · rw [hfound, filter_run_closure]
  · obtain ⟨⟨expected, offset⟩, hwrong⟩ :=
      Option.ne_none_iff_exists'.mp fun h => hbroken (introduction_eq_none_iff.mp h)
    rw [closureAction_of_some hwrong] at hactions hfound
    -- the introduction alone decides, so the actions of the step have nothing from the steps below it
    refine ⟨⟨expected, offset, ?_⟩, fun sublist => ?_⟩
    · rw [hfound, filter_run_brokenClosure]
    · have hother : cache.get? { step with sublist := sublist }.id = some items := hitems
      rw [hactions, stepActions_closure hother hclosure, closureAction_of_some hwrong]
      rfl

/-- A closure with a parameter and a capture, and one that has no name in the place of its capture. -/
theorem closureVisit_step_twice :
    let body : Step := ⟨1, ⟨"1.".toList, 120⟩, [], ⟨"Let _z_ be _a_.".toList, 123⟩, none⟩
    let closure (words : String) : Step := ⟨0, ⟨"1.".toList, 0⟩, [],
      ⟨("Let _f_ be " ++ words ++ " performs the following steps when called:").toList, 3⟩,
      some ⟨.ordered, [body]⟩⟩
    let well := closure "one with parameters (_a_) that captures _x_ and"
    let broken := closure "one that captures *x* and"
    let cache (step : Step) := (Cache.ofStep (fun step => Expression.parse step.content) step).1
    let items (step : Step) := ((cache step).get? 0).getD []
    let s := seeded [['x']]
    (WellIntroduced (items well) ∧
      (runAll (stepActions (cache well) well) s).1 = ⟨[['f']], [], [(['x'], ⟨.parameter, true, none⟩),
        (['f'], ⟨.ordinary, false, some 7⟩)]⟩ ∧
      ClosureVisit (cache well) well (items well) s) ∧
    ¬ WellIntroduced (items broken) ∧ ClosureVisit (cache broken) broken (items broken) s := by
  intro body closure well broken cache items s
  have hitems : ∀ step ∈ [well, broken], ((cache step).get? 0).isSome = true ∧
      introducesClosure (Expression.lastText (items step)) = true := by decide +kernel
  have hintroduced : (introduction (items well)).2 = none ∧ (introduction (items broken)).2 ≠ none := by
    decide +kernel
  have hvisit : ∀ step ∈ [well, broken], step.id = 0 → ClosureVisit (cache step) step (items step) s := by
    intro step hstep hid
    refine closureVisit_step _ _ _ s ?_ (hitems step hstep).2
    rw [hid, ← Option.some_get (hitems step hstep).1, Option.get_eq_getD]
  refine ⟨⟨introduction_eq_none_iff.mp hintroduced.1, by decide +kernel, hvisit well ?_ rfl⟩,
    fun h => hintroduced.2 (introduction_eq_none_iff.mpr h), hvisit broken ?_ rfl⟩
  · exact List.mem_cons_self
  · exact List.mem_cons_of_mem _ List.mem_cons_self

end Errata.Scope
