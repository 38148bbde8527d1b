import Errata.Proofs.Scope.Moments

/-!
# The variable of a loop

The variable of a loop is declared as long as the loop lasts, whatever the steps below it do. If the loop has
introduced it, nothing of it is left when the loop is over, and a use of it after that is a use before the
declaration. If it was there before, it stays.
-/

namespace Errata.Scope

/-! ## 1. A name that is not declared -/

/-- What a scope can become while nothing declares the name in it. -/
inductive Later (name : Text) (s : Scope) : Scope → Prop
  | refl : Later name s s
  | push {t : Scope} (h : Later name s t) : Later name s t.push
  | pop {t : Scope} (h : Later name s t) : Later name s t.pop
  | declare {t : Scope} (h : Later name s t) {other : Text} (hne : name ≠ other) (kind : Kind)
      (offset : Option Nat) (shadow : Bool) : Later name s (t.declare other kind offset shadow).1
  | use {t : Scope} (h : Later name s t) (other : Text) : Later name s (t.use other)
  | remove {t : Scope} (h : Later name s t) (other : Text) : Later name s (t.remove other)

theorem not_isDeclared_remove_self (s : Scope) (name : Text) :
    (s.remove name).isDeclared name = false := by
  rw [not_isDeclared_iff]
  intro h
  obtain ⟨entry, hentry, rfl⟩ := List.mem_map.mp h
  exact absurd rfl (of_decide_eq_true (List.mem_filter.mp hentry).2)

theorem Later.not_isDeclared {name : Text} {s t : Scope} (h : Later name s t)
    (hname : s.isDeclared name = false) : t.isDeclared name = false := by
  induction h with
  | refl => exact hname
  | push _ ih => exact ih
  | @pop t _ ih =>
    rw [isDeclared, get?, entries_pop]
    exact ih
  | declare _ hne kind offset shadow ih =>
    rw [isDeclared, get?_declare_of_ne hne]
    exact ih
  | @use t _ other ih => rw [isDeclared_use, ih]
  | @remove t _ other ih =>
    by_cases hother : name = other
    · rw [hother]
      exact not_isDeclared_remove_self t other
    · rw [isDeclared, get?_remove hother]
      exact ih

theorem not_mem_stack_remove_self (s : Scope) (name : Text) :
    ∀ level ∈ (s.remove name).stack, name ∉ level := by
  have hout : ∀ level : List Text, name ∉ level.filter (· ≠ name) := by
    intro level h
    exact absurd rfl (of_decide_eq_true (List.mem_filter.mp h).2)
  intro level hlevel
  rcases List.mem_cons.mp hlevel with rfl | hlevel
  · exact hout s.level
  · obtain ⟨old, -, rfl⟩ := List.mem_map.mp hlevel
    exact hout old

/-! ## 2. Uses before a declaration -/

/-- Whether a finding says that the name is used before its declaration. -/
def isEarlyUse (name : Text) (f : Finding Problem) : Bool :=
  match f.problem with
  | .useBeforeDeclaration used => used == name
  | _ => false

theorem isImmediate_of_isEarlyUse {name : Text} {f : Finding Problem} (h : isEarlyUse name f = true) :
    isImmediate f = true := by
  unfold isEarlyUse at h
  unfold isImmediate
  split at h <;> simp_all

theorem filter_runAll_isEarlyUse (name : Text) (actions : List Action) (s : Scope) :
    (runAll actions s).2.filter (isEarlyUse name) =
      (momentsAll actions s).flatMap fun m => m.report.filter (isEarlyUse name) := by
  rw [← List.filter_flatMap, flatMap_momentsAll, List.filter_filter]
  apply List.filter_congr
  intro f _
  cases h : isEarlyUse name f with
  | false => rfl
  | true => exact (isImmediate_of_isEarlyUse h).symm

theorem filter_declareAt_isEarlyUse (s : Scope) (name used : Text) (kind : Kind) (offset : Nat)
    (shadow : Bool) : (s.declareAt name kind offset shadow).2.filter (isEarlyUse used) = [] := by
  unfold declareAt
  split
  · rfl
  · rfl

/-- Only a use of a name that is not declared is a use before the declaration. -/
theorem filter_report_isEarlyUse {m : Moment} {name : Text}
    (h : (∃ offset, m.event = .use name offset) → m.scope.isDeclared name = true) :
    m.report.filter (isEarlyUse name) = [] := by
  obtain ⟨event, s, depth⟩ := m
  cases event with
  | annotate other offset =>
    rw [Moment.report, Event.action, run]
    split
    · rfl
    · exact filter_declareAt_isEarlyUse s other name .annotated offset true
  | declare other kind offset shadow => exact filter_declareAt_isEarlyUse s other name kind offset shadow
  | use other offset =>
    rw [Moment.report, Event.action, run, useAt]
    split
    · rfl
    · rename_i hnot
      have hne : (other == name) = false := by
        rw [beq_eq_false_iff_ne]
        rintro rfl
        exact hnot (h ⟨offset, rfl⟩)
      exact List.filter_cons_of_neg (Bool.eq_false_iff.mp hne)

theorem report_use {m : Moment} {name : Text} {offset : Nat} (hevent : m.event = .use name offset)
    (hname : m.scope.isDeclared name = false) :
    m.report = [⟨.useBeforeDeclaration name, offset⟩] := by
  rw [Moment.report, hevent, Event.action, run, useAt, hname]
  rfl

/-- An attribute uses nothing. -/
theorem filter_runAll_attributeActions_isEarlyUse (step : Step) (name : Text) (s : Scope) :
    (runAll (attributeActions step) s).2.filter (isEarlyUse name) = [] := by
  refine filter_runAll_eq_nil (fun a ha t => ?_) s
  obtain ⟨other, offset, rfl⟩ := eq_annotate_of_mem_attributeActions ha
  rw [run]
  split
  · rfl
  · exact filter_declareAt_isEarlyUse t other name .annotated offset true

/-! ## 3. Loops -/

/-- What becomes of the variable of a loop. It is declared in the scope `before`; `inside` are the moments of
the loop after that, `after` is the scope when the step is done, and `found` is what the step complains about. -/
structure LastsFor (name : Text) (before : Scope) (inside : List Moment) (after : Scope)
    (found : List (Finding Problem)) : Prop where
  /-- It is declared all the time, the bodies of closures apart. -/
  declared : ∀ m ∈ inside, m.depth = 0 → m.scope.isDeclared name = true
  /-- So what is said of its use before its declaration is said in the bodies of closures. -/
  uses : found.filter (isEarlyUse name) =
    (inside.filter (·.depth ≠ 0)).flatMap fun m => m.report.filter (isEarlyUse name)
  /-- If the loop has introduced it, it is gone when the loop is over. -/
  gone : before.isDeclared name = false →
    after.isDeclared name = false ∧ ∀ level ∈ after.stack, name ∉ level
  /-- From then on it is used before its declaration, until something declares it. -/
  later : before.isDeclared name = false → ∀ t, Later name after t →
    ∀ actions first m others offset, momentsAll actions t = first ++ m :: others →
      (∀ m' ∈ first, m'.declares name = false) → m.depth = 0 → m.event = .use name offset →
      m.report = [⟨.useBeforeDeclaration name, offset⟩]
  /-- If it was declared already, it still is. -/
  stays : before.isDeclared name = true → after.isDeclared name = true

theorem flatMap_eq_flatMap_filter {α β : Type} {p : α → Bool} {f : α → List β} {l : List α}
    (h : ∀ a ∈ l, p a = false → f a = []) : l.flatMap f = (l.filter p).flatMap f := by
  induction l with
  | nil => rfl
  | cons a l ih =>
    obtain ⟨ha, hl⟩ := List.forall_mem_cons.mp h
    rw [List.flatMap_cons, ih hl]
    cases hp : p a with
    | false => rw [ha hp, List.filter_cons_of_neg (by simp [hp]), List.nil_append]
    | true => rw [List.filter_cons_of_pos hp, List.flatMap_cons]

/-- A loop that introduces its variable removes it in the end. -/
theorem run_loop_of_not_isDeclared {s : Scope} {name : Text} (hname : s.isDeclared name = false)
    (offset : Nat) (body : List Action) :
    (run (.loop name offset body) s).1 =
      (runAll body (s.declareAt name .loop offset true).1).1.remove name := by
  obtain ⟨d, hd, -⟩ := (kept_runAll body (s.declareAt name .loop offset true).1).entries name _
    (get?_declareAt_self hname .loop offset true)
  rw [run]
  dsimp only
  rw [if_neg (Bool.eq_false_iff.mp hname), endLoop, hd]

/-- The variable of a loop, in the scope that the loop begins in. -/
theorem lastsFor_loop (name : Text) (offset : Nat) (body : List Action) (s : Scope) :
    LastsFor name s (momentsAll body (s.declareAt name .loop offset true).1)
      (run (.loop name offset body) s).1 (run (.loop name offset body) s).2 := by
  have hinside : ∀ m ∈ momentsAll body (s.declareAt name .loop offset true).1, m.depth = 0 →
      m.scope.isDeclared name = true := by
    intro m hm hdepth
    exact (extends_momentsAll body hm hdepth).isDeclared
      (isDeclared_declareAt_self s name .loop offset true)
  have hgone : s.isDeclared name = false →
      (run (.loop name offset body) s).1.isDeclared name = false := by
    intro hname
    rw [run_loop_of_not_isDeclared hname]
    exact not_isDeclared_remove_self _ name
  refine ⟨hinside, ?_, fun hname => ⟨hgone hname, ?_⟩, ?_, ?_⟩
  · rw [← runAll_singleton, filter_runAll_isEarlyUse, momentsAll, momentsAll, List.append_nil, moments,
      List.flatMap_cons, filter_report_isEarlyUse (by rintro ⟨_, h⟩; cases h), List.nil_append]
    apply flatMap_eq_flatMap_filter
    intro m hm hdepth
    exact filter_report_isEarlyUse fun _ => hinside m hm (by simpa using hdepth)
  · rw [run_loop_of_not_isDeclared hname]
    exact not_mem_stack_remove_self _ name
  · intro hname t ht actions first m others place hmoments hfirst hdepth hevent
    have hawaits := (awaits_momentsAll actions (ht.not_isDeclared (hgone hname))).1
    rw [hmoments] at hawaits
    exact report_use hevent (hawaits.not_isDeclared hfirst hdepth)
  · exact fun hname => (kept_run (.loop name offset body) s).entries.isDeclared hname

/-! ## 4. Steps -/

theorem stepActions_loop {cache : Cache} {step : Step} {items : Expression} {token : Fragment}
    (hitems : cache.get? step.id = some items)
    (hclosure : introducesClosure (Expression.lastText items) = false)
    (hloop : loopVar? items = some token) :
    stepActions cache step = attributeActions step ++
      [.loop token.name token.offset
        (wordActions items [token.offset] ++ sublistActions cache step.sublist)] := by
  obtain ⟨id, marker, attributes, content, sublist⟩ := step
  simp only at hitems
  simp only [stepActions, hitems, hclosure, hloop]
  rfl

/-- A step that begins with `For each ` has the first variable of its content as the variable of the loop,
which lasts for the rest of the step and for all steps below it. -/
theorem lastsFor_step (cache : Cache) (step : Step) (items : Expression) (token : Fragment) (s : Scope)
    (hitems : cache.get? step.id = some items)
    (hclosure : introducesClosure (Expression.lastText items) = false)
    (hwords : (Expression.firstText items).startsWith "For each " = true)
    (htoken : items.findSome? Item.var? = some token) :
    let before := (runAll (attributeActions step) s).1
    let begun := (before.declareAt token.name .loop token.offset true).1
    let inside := momentsAll (wordActions items [token.offset]) begun ++
      momentsAll (sublistActions cache step.sublist) (runAll (wordActions items [token.offset]) begun).1
    momentsAll (stepActions cache step) s =
        momentsAll (attributeActions step) s ++
          ⟨.declare token.name .loop token.offset true, before, 0⟩ :: inside ∧
      LastsFor token.name before inside (runAll (stepActions cache step) s).1
        (runAll (stepActions cache step) s).2 := by
  intro before begun inside
  have hloop : loopVar? items = some token := by rw [loopVar?, if_pos hwords, htoken]
  have hinside : inside = momentsAll (wordActions items [token.offset] ++
      sublistActions cache step.sublist) begun := (momentsAll_append _ _ begun).symm
  have hlasts := lastsFor_loop token.name token.offset
    (wordActions items [token.offset] ++ sublistActions cache step.sublist) before
  rw [stepActions_loop hitems hclosure hloop, momentsAll_append, runAll_append, runAll_singleton, hinside]
  refine ⟨by rw [momentsAll, momentsAll, List.append_nil]; rfl, ?_⟩
  refine ⟨hlasts.declared, ?_, hlasts.gone, hlasts.later, hlasts.stays⟩
  rw [List.filter_append, filter_runAll_attributeActions_isEarlyUse, List.nil_append]
  exact hlasts.uses

/-- A loop whose steps declare its variable once more and loop over it, and a closure below it that does not
capture it. -/
theorem lastsFor_step_redeclared :
    let inner : Step := ⟨4, ⟨"1.".toList, 165⟩, [], ⟨"Return _x_.".toList, 168⟩, none⟩
    let closure : Step := ⟨3, ⟨"1.".toList, 80⟩, [],
      ⟨"Let _f_ be an Abstract Closure that performs the following steps when called:".toList, 83⟩,
      some ⟨.ordered, [inner]⟩⟩
    let again : Step := ⟨2, ⟨"1.".toList, 52⟩, [], ⟨"For each _x_ of _y_, do".toList, 55⟩, none⟩
    let given : Step := ⟨1, ⟨"1.".toList, 34⟩, [], ⟨"Let _x_ be _y_.".toList, 37⟩, none⟩
    let loop : Step := ⟨0, ⟨"1.".toList, 0⟩, [], ⟨"For each _x_ of _y_, do".toList, 3⟩,
      some ⟨.ordered, [given, again, closure]⟩⟩
    let cache := (Cache.ofStep (fun step => Expression.parse step.content) loop).1
    let items := (cache.get? loop.id).getD []
    let s := seeded [['y']]
    let begun := (s.declareAt ['x'] .loop 12 true).1
    let inside := momentsAll (wordActions items [12]) begun ++
      momentsAll (sublistActions cache loop.sublist) (runAll (wordActions items [12]) begun).1
    s.isDeclared ['x'] = false ∧
      (runAll (stepActions cache loop) s).2 =
        [⟨.useBeforeDeclaration ['x'], 175⟩, ⟨.unusedDeclaration ['x'], 12⟩] ∧
      LastsFor ['x'] s inside (runAll (stepActions cache loop) s).1
        (runAll (stepActions cache loop) s).2 := by
  intro inner closure again given loop cache items s begun inside
  have hsome : (cache.get? loop.id).isSome = true := by decide +kernel
  have hitems : cache.get? loop.id = some items := by
    rw [← Option.some_get hsome, Option.get_eq_getD]
  refine ⟨by decide +kernel, by decide +kernel, ?_⟩
  exact (lastsFor_step cache loop items ⟨"_x_".toList, 12⟩ s hitems (by decide +kernel)
    (by decide +kernel) (by decide +kernel)).2

end Errata.Scope
