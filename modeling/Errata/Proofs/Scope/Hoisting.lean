import Errata.Proofs.Scope.Moments
import Errata.Proofs.Step.Nesting

/-!
# Levels and visibility

A declaration is visible from then on at whatever level it stands. So the levels matter for redeclarations
only: without them a run has the same entries and the same other findings. For steps in ordered lists that
are neither loops nor closures, all that is left without the levels is the order of the steps.
-/

namespace Errata.Scope

/-! ## 1. Actions without levels -/

mutual

/-- The actions of an action without the levels in it. -/
def flat : Action → List Action
  | .annotate name offset => [.annotate name offset]
  | .declare name kind offset shadow => [.declare name kind offset shadow]
  | .use name offset => [.use name offset]
  | .level body => flatAll body
  | .loop name offset body => [.loop name offset (flatAll body)]
  | .closure bindings body => [.closure bindings (flatAll body)]
  | .brokenClosure bindings expected offset => [.brokenClosure bindings expected offset]

def flatAll : List Action → List Action
  | [] => []
  | action :: actions => flat action ++ flatAll actions

end

theorem flatAll_append (first second : List Action) :
    flatAll (first ++ second) = flatAll first ++ flatAll second := by
  induction first with
  | nil => rfl
  | cons action actions ih => rw [List.cons_append, flatAll, flatAll, ih, List.append_assoc]

/-- Two runs have come to the same entries and to the same findings other than redeclarations. -/
structure SameButLevels (r r' : Scope × List (Finding Problem)) : Prop where
  entries : r.1.entries = r'.1.entries
  found : r.2.filter (!isRedeclaration ·) = r'.2.filter (!isRedeclaration ·)

/-! ## 2. The operations -/

section

variable {s t : Scope} (h : s.entries = t.entries)

include h

theorem get?_congr (name : Text) : s.get? name = t.get? name := by rw [get?, get?, h]

theorem isDeclared_congr (name : Text) : s.isDeclared name = t.isDeclared name := by
  rw [isDeclared, isDeclared, get?_congr h]

theorem entries_declare_congr (name : Text) (kind : Kind) (offset : Option Nat) (shadow : Bool) :
    (s.declare name kind offset shadow).1.entries = (t.declare name kind offset shadow).1.entries := by
  have hname := isDeclared_congr h name
  rcases s.declare_cases name kind offset shadow with ⟨hs, -, hse⟩ | ⟨hs, -, hse⟩
  · rcases t.declare_cases name kind offset shadow with ⟨-, -, hte⟩ | ⟨ht, -, -⟩
    · rw [hse, hte, h]
    · rw [hs, ht] at hname
      cases hname
  · rcases t.declare_cases name kind offset shadow with ⟨ht, -, -⟩ | ⟨-, -, hte⟩
    · rw [hs, ht] at hname
      cases hname
    · rw [hse, hte, h]

theorem sameButLevels_declareAt (name : Text) (kind : Kind) (offset : Nat) (shadow : Bool) :
    SameButLevels (s.declareAt name kind offset shadow) (t.declareAt name kind offset shadow) := by
  have hnone : ∀ u : Scope, (u.declareAt name kind offset shadow).2.filter (!isRedeclaration ·) = [] := by
    intro u
    unfold declareAt
    split
    · rfl
    · rfl
  refine ⟨?_, by rw [hnone s, hnone t]⟩
  rw [declareAt_fst, declareAt_fst, entries_declare_congr h]

theorem useAt_congr (name : Text) (offset : Nat) :
    (s.useAt name offset).1.entries = (t.useAt name offset).1.entries ∧
      (s.useAt name offset).2 = (t.useAt name offset).2 := by
  unfold useAt
  rw [isDeclared_congr h]
  split
  · exact ⟨by rw [use, use, h], rfl⟩
  · exact ⟨h, rfl⟩

theorem sameButLevels_endLoop (name : Text) : SameButLevels (s.endLoop name) (t.endLoop name) := by
  unfold endLoop
  rw [get?_congr h]
  split
  · exact ⟨h, rfl⟩
  · exact ⟨by rw [remove, remove, h], rfl⟩

theorem reportUnused_congr : s.reportUnused = t.reportUnused := by
  rw [reportUnused, reportUnused, unused, unused, h]

/-- The scope of a closure does not depend on the levels around it. -/
theorem bind_congr (inner : Scope) (bindings : List Binding) :
    (bind s inner bindings).1.entries = (bind t inner bindings).1.entries ∧
      (bind s inner bindings).2.1 = (bind t inner bindings).2.1 ∧
      (bind s inner bindings).2.2 = (bind t inner bindings).2.2 := by
  induction bindings generalizing s t inner with
  | nil => exact ⟨h, rfl, rfl⟩
  | cons binding bindings ih =>
    cases binding with
    | parameter name offset =>
      obtain ⟨hentries, hinner, hrest⟩ := ih h (inner.declareAt name .closureParameter offset false).1
      exact ⟨hentries, hinner, congrArg (_ ++ ·) hrest⟩
    | capture name offset =>
      obtain ⟨hused, hreport⟩ := useAt_congr h name offset
      obtain ⟨hentries, hinner, hrest⟩ := ih hused (inner.declareAt name .capture offset false).1
      exact ⟨hentries, hinner, congrArg₂ (fun used others => used ++ _ ++ others) hreport hrest⟩

end

/-! ## 3. Runs -/

theorem SameButLevels.append {s t s' t' : Scope} {first second first' second' : List (Finding Problem)}
    (h : SameButLevels (s, first) (t, second)) (h' : SameButLevels (s', first') (t', second')) :
    SameButLevels (s', first ++ first') (t', second ++ second') := by
  refine ⟨h'.entries, ?_⟩
  show List.filter _ (first ++ first') = List.filter _ (second ++ second')
  rw [List.filter_append, List.filter_append]
  exact congrArg₂ _ h.found h'.found

mutual

/-- Levels do not matter to a run but for its redeclarations. -/
theorem sameButLevels_run : ∀ (action : Action) {s t : Scope}, s.entries = t.entries →
    SameButLevels (run action s) (runAll (flat action) t)
  | .annotate name offset, s, t, h => by
    rw [flat, runAll_singleton, run, run, isDeclared_congr h]
    split
    · exact ⟨h, rfl⟩
    · exact sameButLevels_declareAt h name .annotated offset true
  | .declare name kind offset shadow, s, t, h => by
    rw [flat, runAll_singleton]
    exact sameButLevels_declareAt h name kind offset shadow
  | .use name offset, s, t, h => by
    obtain ⟨hentries, hfound⟩ := useAt_congr h name offset
    rw [flat, runAll_singleton]
    exact ⟨hentries, congrArg _ hfound⟩
  | .level body, s, t, h => by
    have hbody := sameButLevels_runAll body (s := s.push) h
    exact ⟨(entries_pop _).trans hbody.entries, hbody.found⟩
  | .loop name offset body, s, t, h => by
    have hbegun := sameButLevels_declareAt h name .loop offset true
    have hbody := hbegun.append (sameButLevels_runAll body hbegun.entries)
    rw [flat, runAll_singleton, run, run]
    dsimp only
    -- the entries alone say whether the loop has introduced its variable
    rw [isDeclared_congr h]
    split
    · exact hbody
    · exact hbody.append (sameButLevels_endLoop hbody.entries name)
  | .closure bindings body, s, t, h => by
    obtain ⟨hentries, hinner, hbound⟩ := bind_congr h .empty bindings
    -- both bodies begin in one and the same scope, and one of them is without its levels
    have hbody := sameButLevels_runAll body (congrArg Scope.entries hinner)
    have hunused := reportUnused_congr hbody.entries
    rw [flat, runAll_singleton, run, run]
    refine ⟨hentries, ?_⟩
    dsimp only
    rw [List.filter_append, List.filter_append, List.filter_append, List.filter_append]
    exact congrArg₂ (· ++ ·) (congrArg₂ (· ++ ·) (congrArg _ hbound) hbody.found) (congrArg _ hunused)
  | .brokenClosure bindings expected offset, s, t, h => by
    obtain ⟨hentries, -, hbound⟩ := bind_congr h .empty bindings
    rw [flat, runAll_singleton]
    exact ⟨hentries, congrArg (fun bound => List.filter _ (bound ++ _)) hbound⟩

theorem sameButLevels_runAll : ∀ (actions : List Action) {s t : Scope}, s.entries = t.entries →
    SameButLevels (runAll actions s) (runAll (flatAll actions) t)
  | [], _, _, h => ⟨h, rfl⟩
  | action :: actions, s, t, h => by
    have hfirst := sameButLevels_run action h
    rw [flatAll, runAll_append, runAll_cons]
    exact hfirst.append (sameButLevels_runAll actions hfirst.entries)

end

/-! ## 4. Steps -/

/-- Whether the content of a step neither begins a loop nor introduces a closure. -/
def isPlainContent (items : Expression) : Bool :=
  !(Expression.firstText items).startsWith "For each " && !introducesClosure (Expression.lastText items)

/-- A step that is parsed and is neither a loop nor a closure, whose substeps are an ordered list if there are
any. -/
structure IsPlain (cache : Cache) (step : Step) : Prop where
  ordered : ∀ list, step.sublist = some list → list.kind = .ordered
  content : (cache.get? step.id).any isPlainContent = true

/-- What a plain step does without its substeps. -/
def ownActions (cache : Cache) (step : Step) : List Action :=
  attributeActions step ++ wordActions ((cache.get? step.id).getD []) []

theorem stepActions_plain {cache : Cache} {step : Step} (h : IsPlain cache step) :
    stepActions cache step = ownActions cache step ++ sublistActions cache step.sublist := by
  obtain ⟨items, hitems, hplain⟩ := (Option.any_eq_true _ _).mp h.content
  obtain ⟨hwords, hclosure⟩ := Bool.and_eq_true_iff.mp hplain
  rw [Bool.not_eq_true'] at hwords hclosure
  have hloop : loopVar? items = none := by rw [loopVar?, if_neg (Bool.eq_false_iff.mp hwords)]
  rw [ownActions, hitems]
  obtain ⟨id, marker, attributes, content, sublist⟩ := step
  simp only at hitems
  simp only [stepActions, hitems, hclosure, hloop]
  rw [List.append_assoc]
  rfl

theorem sublistActions_flat {cache : Cache} {list : StepList} (h : list.kind = .ordered) :
    flatAll (sublistActions cache (some list)) = flatAll (orderedActions cache list.steps) := by
  obtain ⟨kind, steps⟩ := list
  cases h
  exact List.append_nil _

mutual

/-- Without the levels, the steps of an algorithm do what they do on their own in the order of the text. -/
theorem flatAll_stepActions (cache : Cache) : ∀ (step : Step) (parent : Option StepId),
    (∀ row ∈ step.rows parent, IsPlain cache row.2) →
    flatAll (stepActions cache step) =
      (step.rows parent).flatMap fun row => flatAll (ownActions cache row.2)
  | ⟨id, marker, attributes, content, sublist⟩, parent, h => by
    obtain ⟨hstep, hbelow⟩ := List.forall_mem_cons.mp h
    rw [stepActions_plain hstep, flatAll_append]
    exact congrArg _ (flatAll_sublistActions cache sublist (some id) hstep.ordered hbelow)

theorem flatAll_sublistActions (cache : Cache) : ∀ (sublist : Option StepList) (parent : Option StepId),
    (∀ list, sublist = some list → list.kind = .ordered) →
    (∀ row ∈ Step.rowsBelow parent sublist, IsPlain cache row.2) →
    flatAll (sublistActions cache sublist) =
      (Step.rowsBelow parent sublist).flatMap fun row => flatAll (ownActions cache row.2)
  | none, _, _, _ => rfl
  | some ⟨kind, steps⟩, parent, hordered, h => by
    rw [sublistActions_flat (hordered _ rfl)]
    exact flatAll_orderedActions cache steps parent h

theorem flatAll_orderedActions (cache : Cache) : ∀ (steps : List Step) (parent : Option StepId),
    (∀ row ∈ Step.rowsOf parent steps, IsPlain cache row.2) →
    flatAll (orderedActions cache steps) =
      (Step.rowsOf parent steps).flatMap fun row => flatAll (ownActions cache row.2)
  | [], _, _ => rfl
  | step :: steps, parent, h => by
    obtain ⟨hstep, hsteps⟩ := List.forall_mem_append.mp h
    rw [orderedActions, flatAll_append, Step.rowsOf, List.flatMap_append,
      flatAll_stepActions cache step parent hstep, flatAll_orderedActions cache steps parent hsteps]

end

theorem flatMap_eq_of_map_eq {α β γ δ : Type} {f : α → γ} {f' : β → γ} {g : α → List δ}
    {g' : β → List δ} (hg : ∀ a b, f a = f' b → g a = g' b) {l : List α} {l' : List β}
    (h : l.map f = l'.map f') : l.flatMap g = l'.flatMap g' := by
  induction l generalizing l' with
  | nil =>
    rw [List.map_eq_nil_iff.mp h.symm]
    rfl
  | cons a l ih =>
    cases l' with
    | nil => cases h
    | cons b l' =>
      obtain ⟨hhead, htail⟩ := List.cons.inj h
      rw [List.flatMap_cons, List.flatMap_cons, hg a b hhead, ih htail]

theorem ownActions_congr {cache cache' : Cache} {step step' : Step}
    (h : (step.attributes, cache.get? step.id) = (step'.attributes, cache'.get? step'.id)) :
    ownActions cache step = ownActions cache' step' := by
  obtain ⟨hattributes, hitems⟩ := Prod.mk.inj h
  have hattribute : step.attribute? "declared" = step'.attribute? "declared" := by
    rw [Step.attribute?, Step.attribute?, hattributes]
  rw [ownActions, ownActions, hitems, attributeActions, attributeActions, hattribute]

/-- All lists of an algorithm are ordered, and all of its steps are parsed and are neither loops nor
closures. -/
structure IsPlainList (cache : Cache) (list : StepList) : Prop where
  ordered : ∀ l ∈ list.lists, l.kind = .ordered
  content : ∀ step ∈ list.preorder, (cache.get? step.id).any isPlainContent = true

theorem IsPlainList.isPlain {cache : Cache} {list : StepList} (h : IsPlainList cache list) :
    ∀ step ∈ list.preorder, IsPlain cache step := by
  intro step hstep
  refine ⟨fun l hl => h.ordered l ?_, h.content step hstep⟩
  exact List.mem_cons_of_mem _ (List.mem_filterMap.mpr ⟨step, hstep, hl⟩)

theorem IsPlainList.flatAll_actions {cache : Cache} {list : StepList} (h : IsPlainList cache list) :
    flatAll (actions cache list) = list.preorder.flatMap fun step => flatAll (ownActions cache step) := by
  rw [actions, StepList.preorder, StepList.rows_eq, List.flatMap_map]
  apply flatAll_orderedActions
  intro row hrow
  apply h.isPlain
  rw [StepList.preorder, StepList.rows_eq]
  exact List.mem_map_of_mem hrow

/-- Two algorithms whose steps are the same in the order of the text have the same findings in the same
order, redeclarations apart, however their steps are nested. -/
theorem findings_eq_of_preorder_eq (seeds : List Text) (cache cache' : Cache) (list list' : StepList)
    (h : IsPlainList cache list) (h' : IsPlainList cache' list')
    (hsame : (list.preorder.map fun step => (step.attributes, cache.get? step.id)) =
      list'.preorder.map fun step => (step.attributes, cache'.get? step.id)) :
    (findings seeds (actions cache list)).filter (!isRedeclaration ·) =
      (findings seeds (actions cache' list')).filter (!isRedeclaration ·) := by
  have hflat : flatAll (actions cache list) = flatAll (actions cache' list') := by
    rw [h.flatAll_actions, h'.flatAll_actions]
    exact flatMap_eq_of_map_eq (fun _ _ heq => congrArg flatAll (ownActions_congr heq)) hsame
  have hrun := sameButLevels_runAll (actions cache list) (s := seeded seeds) rfl
  have hrun' := sameButLevels_runAll (actions cache' list') (s := seeded seeds) rfl
  rw [← hflat] at hrun'
  rw [findings, findings, List.filter_append, List.filter_append, hrun.found, hrun'.found,
    reportUnused_congr (hrun.entries.trans hrun'.entries.symm)]

/-- A declaration and the same declaration once more, in one list and in a list below it. -/
theorem findings_eq_of_preorder_eq_below :
    let step (id offset : Nat) (content : String) (below : Option StepList) : Step :=
      ⟨id, ⟨"1.".toList, offset⟩, [], ⟨content.toList, offset + 3⟩, below⟩
    let last := step 2 40 "Return _x_." none
    let again := step 1 20 "Let _x_ be _z_." none
    let flat : StepList := ⟨.ordered, [step 0 0 "Let _x_ be _y_." none, again, last]⟩
    let nested : StepList :=
      ⟨.ordered, [step 0 0 "Let _x_ be _y_." (some ⟨.ordered, [again]⟩), last]⟩
    let cache := (Cache.ofList (fun step => Expression.parse step.content) flat).1
    (runAll (actions cache flat) (seeded [['y']])).2 =
        [⟨.redeclaration ['x'], 27⟩, ⟨.useBeforeDeclaration ['z'], 34⟩] ∧
      (runAll (actions cache nested) (seeded [['y']])).2 = [⟨.useBeforeDeclaration ['z'], 34⟩] ∧
      (findings [['y']] (actions cache flat)).filter (!isRedeclaration ·) =
        (findings [['y']] (actions cache nested)).filter (!isRedeclaration ·) := by
  intro step last again flat nested cache
  have hflat : IsPlainList cache flat := ⟨by decide +kernel, by decide +kernel⟩
  have hnested : IsPlainList cache nested := ⟨by decide +kernel, by decide +kernel⟩
  refine ⟨by decide +kernel, by decide +kernel, ?_⟩
  exact findings_eq_of_preorder_eq [['y']] cache cache flat nested hflat hnested rfl

end Errata.Scope
