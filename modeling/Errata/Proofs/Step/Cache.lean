import Errata.Proofs.Lint.Parts
import Errata.Proofs.Step.Layout

/-!
# The parsed contents of steps

The content of a step is parsed if the contents of all steps around it could be parsed. What is kept of an
algorithm are the results, each under the number of its step, and the errors. No two steps have one number, so
a step is never judged by the content of another.
-/

namespace Errata

/-! ## 1. Steps with what is around them -/

/-- A step with the steps that it is below, the innermost first. -/
structure Trail where
  around : List Step
  step : Step

mutual

/-- A step and the steps below it in the order of the text, each with what is around it. -/
def Step.trails (around : List Step) : Step → List Trail
  | ⟨id, marker, attributes, content, sublist⟩ =>
    ⟨around, ⟨id, marker, attributes, content, sublist⟩⟩ ::
      Step.trailsBelow (⟨id, marker, attributes, content, sublist⟩ :: around) sublist
termination_by structural step => step

def Step.trailsBelow (around : List Step) : Option StepList → List Trail
  | none => []
  | some list => StepList.trailsIn around list
termination_by structural sublist => sublist

def StepList.trailsIn (around : List Step) : StepList → List Trail
  | ⟨_, steps⟩ => Step.trailsOf around steps
termination_by structural list => list

def Step.trailsOf (around : List Step) : List Step → List Trail
  | [] => []
  | step :: steps => step.trails around ++ Step.trailsOf around steps
termination_by structural steps => steps

end

/-- All steps in the order of the text. -/
def StepList.trails (list : StepList) : List Trail := list.trailsIn []

namespace Trail

/-- The step with the number of the step above it. -/
def row (trail : Trail) : Option StepId × Step := (trail.around.head?.map Step.id, trail.step)

mutual

theorem map_row_trails : ∀ (step : Step) (around : List Step),
    (step.trails around).map row = step.rows (around.head?.map Step.id)
  | ⟨id, marker, attributes, content, sublist⟩, around => by
    rw [Step.trails, Step.rows, List.map_cons, map_row_trailsBelow sublist]
    rfl

theorem map_row_trailsBelow : ∀ (sublist : Option StepList) (around : List Step),
    (Step.trailsBelow around sublist).map row = Step.rowsBelow (around.head?.map Step.id) sublist
  | none, _ => rfl
  | some list, around => map_row_trailsIn list around

theorem map_row_trailsIn : ∀ (list : StepList) (around : List Step),
    (list.trailsIn around).map row = list.rows (around.head?.map Step.id)
  | ⟨_, steps⟩, around => map_row_trailsOf steps around

theorem map_row_trailsOf : ∀ (steps : List Step) (around : List Step),
    (Step.trailsOf around steps).map row = Step.rowsOf (around.head?.map Step.id) steps
  | [], _ => rfl
  | step :: steps, around => by
    rw [Step.trailsOf, Step.rowsOf, List.map_append, map_row_trails step, map_row_trailsOf steps]

end

theorem map_step_trails (list : StepList) : list.trails.map step = list.preorder := by
  rw [StepList.preorder, ← show list.trails.map row = list.rows none from map_row_trailsIn list [],
    List.map_map]
  rfl

mutual

/-- What is around a step is also around the steps below it. -/
theorem suffix_of_mem_trails : ∀ (step : Step) {around : List Step}, ∀ trail ∈ step.trails around,
    around <:+ trail.around
  | ⟨id, marker, attributes, content, sublist⟩, around, trail, htrail => by
    rw [Step.trails] at htrail
    rcases List.mem_cons.mp htrail with rfl | htrail
    · exact List.suffix_rfl
    · exact (List.suffix_cons _ around).trans (suffix_of_mem_trailsBelow sublist trail htrail)

theorem suffix_of_mem_trailsBelow : ∀ (sublist : Option StepList) {around : List Step},
    ∀ trail ∈ Step.trailsBelow around sublist, around <:+ trail.around
  | none, _, _, htrail => absurd htrail List.not_mem_nil
  | some list, _, trail, htrail => suffix_of_mem_trailsIn list trail htrail

theorem suffix_of_mem_trailsIn : ∀ (list : StepList) {around : List Step},
    ∀ trail ∈ list.trailsIn around, around <:+ trail.around
  | ⟨_, steps⟩, _, trail, htrail => suffix_of_mem_trailsOf steps trail htrail

theorem suffix_of_mem_trailsOf : ∀ (steps : List Step) {around : List Step},
    ∀ trail ∈ Step.trailsOf around steps, around <:+ trail.around
  | [], _, _, htrail => absurd htrail List.not_mem_nil
  | step :: steps, _, trail, htrail => by
    rcases List.mem_append.mp htrail with htrail | htrail
    · exact suffix_of_mem_trails step trail htrail
    · exact suffix_of_mem_trailsOf steps trail htrail

end

end Trail

/-! ## 2. What is kept -/

namespace Cache

variable (parse : Step → Except StepError Expression)

/-- The contents of all steps around can be parsed. -/
def isReached (trail : Trail) : Bool := trail.around.all fun outer => (parse outer).isOk

/-- The result for a step, under its number. -/
def result? (step : Step) : Option (StepId × Expression) := (parse step).toOption.map fun x => (step.id, x)

def error? (step : Step) : Option StepError :=
  match parse step with
  | .error e => some e
  | .ok _ => none

/-- The steps that are parsed, in the order of the text. -/
def reached (trails : List Trail) : List Step := (trails.filter (isReached parse)).map Trail.step

def summary (trails : List Trail) : Cache × List StepError :=
  ((reached parse trails).filterMap (result? parse), (reached parse trails).filterMap (error? parse))

variable {parse}

theorem summary_append (trails others : List Trail) :
    summary parse (trails ++ others) = ((summary parse trails).1 ++ (summary parse others).1,
      (summary parse trails).2 ++ (summary parse others).2) := by
  simp only [summary, reached, List.filter_append, List.map_append, List.filterMap_append]

theorem summary_cons_of_ok {around : List Step} {step : Step} {x : Expression}
    (h : isReached parse ⟨around, step⟩ = true) (hparse : parse step = .ok x) (trails : List Trail) :
    summary parse (⟨around, step⟩ :: trails) =
      ((step.id, x) :: (summary parse trails).1, (summary parse trails).2) := by
  simp [summary, reached, h, result?, error?, hparse, Except.toOption]

theorem summary_cons_of_error {around : List Step} {step : Step} {e : StepError}
    (h : isReached parse ⟨around, step⟩ = true) (hparse : parse step = .error e) (trails : List Trail) :
    summary parse (⟨around, step⟩ :: trails) = ((summary parse trails).1, e :: (summary parse trails).2) := by
  simp [summary, reached, h, result?, error?, hparse, Except.toOption]

/-- Below a step whose content has an error nothing is parsed. -/
theorem summary_trailsBelow_of_error {step : Step} {e : StepError} (h : parse step = .error e)
    (around : List Step) (sublist : Option StepList) :
    summary parse (Step.trailsBelow (step :: around) sublist) = ([], []) := by
  have hnone : (Step.trailsBelow (step :: around) sublist).filter (isReached parse) = [] := by
    refine List.filter_eq_nil_iff.mpr fun trail htrail hreached => ?_
    have hmem := (Trail.suffix_of_mem_trailsBelow sublist trail htrail).subset List.mem_cons_self
    have hok := List.all_eq_true.mp hreached step hmem
    rw [h] at hok
    cases hok
  rw [summary, reached, hnone]
  rfl

mutual

theorem ofStep_eq : ∀ (step : Step) {around : List Step}, (around.all fun outer => (parse outer).isOk) = true →
    ofStep parse step = summary parse (step.trails around)
  | ⟨id, marker, attributes, content, sublist⟩, around, h => by
    rw [ofStep, Step.trails]
    split
    · rename_i e herror
      -- the list below is skipped; its steps are still among the trails, each with this step around it
      rw [summary_cons_of_error h herror, summary_trailsBelow_of_error herror]
    · rename_i x hok
      have hinside : ((⟨id, marker, attributes, content, sublist⟩ :: around : List Step).all
          fun outer => (parse outer).isOk) = true := by
        rw [List.all_cons, hok, h]
        rfl
      rw [summary_cons_of_ok h hok]
      cases sublist with
      | none => rfl
      | some list =>
        rw [Step.trailsBelow, ← ofList_eq list hinside]

theorem ofList_eq : ∀ (list : StepList) {around : List Step},
    (around.all fun outer => (parse outer).isOk) = true →
      ofList parse list = summary parse (list.trailsIn around)
  | ⟨_, steps⟩, _, h => ofSteps_eq steps h

theorem ofSteps_eq : ∀ (steps : List Step) {around : List Step},
    (around.all fun outer => (parse outer).isOk) = true →
      ofSteps parse steps = summary parse (Step.trailsOf around steps)
  | [], _, _ => rfl
  | step :: steps, _, h => by
    rw [ofSteps, Step.trailsOf, summary_append, ← ofStep_eq step h, ← ofSteps_eq steps h]

end

/-! ## 3. Numbers -/

variable (parse)

/-- The errors of the steps that fail to parse while all steps around them parse, in the order of the text. -/
def failures (list : StepList) : List StepError :=
  list.trails.filterMap fun trail => if isReached parse trail then error? parse trail.step else none

/-- The cache holds results for the steps that parse while all steps around them parse, and for no others. -/
structure IsCacheOf (list : StepList) (cache : Cache) : Prop where
  nodup : (cache.map Prod.fst).Nodup
  get?_eq_some_iff : ∀ id x, cache.get? id = some x ↔ ∃ trail ∈ list.trails, trail.step.id = id ∧
    parse trail.step = .ok x ∧ ∀ outer ∈ trail.around, ∃ y, parse outer = .ok y

variable {parse}

theorem isReached_iff {trail : Trail} :
    isReached parse trail = true ↔ ∀ outer ∈ trail.around, ∃ y, parse outer = .ok y := by
  have hok : ∀ outer, (parse outer).isOk = true ↔ ∃ y, parse outer = .ok y := by
    intro outer
    cases parse outer with
    | error e => simp [Except.isOk, Except.toBool]
    | ok y => simp [Except.isOk, Except.toBool]
  simp only [isReached, List.all_eq_true, hok]

theorem result?_eq_some_iff {step : Step} {id : StepId} {x : Expression} :
    result? parse step = some (id, x) ↔ step.id = id ∧ parse step = .ok x := by
  rw [result?]
  cases parse step with
  | error e => simp [Except.toOption]
  | ok y => simp [Except.toOption]

theorem mem_summary_iff {trails : List Trail} {id : StepId} {x : Expression} :
    (id, x) ∈ (summary parse trails).1 ↔ ∃ trail ∈ trails, trail.step.id = id ∧
      parse trail.step = .ok x ∧ ∀ outer ∈ trail.around, ∃ y, parse outer = .ok y := by
  simp only [summary, reached, List.mem_filterMap, List.mem_map, List.mem_filter, isReached_iff]
  constructor
  · rintro ⟨step, ⟨trail, ⟨htrail, hreached⟩, rfl⟩, hresult⟩
    obtain ⟨hid, hparse⟩ := result?_eq_some_iff.mp hresult
    exact ⟨trail, htrail, hid, hparse, hreached⟩
  · rintro ⟨trail, htrail, hid, hparse, hreached⟩
    exact ⟨trail.step, ⟨trail, ⟨htrail, hreached⟩, rfl⟩, result?_eq_some_iff.mpr ⟨hid, hparse⟩⟩

theorem map_fst_filterMap_sublist (steps : List Step) :
    ((steps.filterMap (result? parse)).map Prod.fst).Sublist (steps.map Step.id) := by
  induction steps with
  | nil => exact .slnil
  | cons step steps ih =>
    cases hresult : result? parse step with
    | none =>
      rw [List.filterMap_cons_none hresult]
      exact ih.cons _
    | some entry =>
      obtain ⟨id, x⟩ := entry
      rw [List.filterMap_cons_some hresult, List.map_cons, List.map_cons, (result?_eq_some_iff.mp hresult).1]
      exact ih.cons_cons _

/-- If no number is used twice, a number leads to the result that is kept under it. -/
theorem get?_eq_some_iff_mem {cache : Cache} (h : (cache.map Prod.fst).Nodup) {id : StepId} {x : Expression} :
    cache.get? id = some x ↔ (id, x) ∈ cache := by
  rw [get?, List.lookup_eq_some_iff, ← List.mem_reverse]
  rw [← ((List.reverse_perm cache).map Prod.fst).nodup_iff] at h
  generalize cache.reverse = entries at h ⊢
  constructor
  · rintro ⟨before, after, rfl, -⟩
    exact List.mem_append_right _ List.mem_cons_self
  · intro hmem
    obtain ⟨before, after, rfl⟩ := List.append_of_mem hmem
    -- the lookup takes the first of these entries, so none before it may have the same number
    refine ⟨before, after, rfl, fun entry hentry => ?_⟩
    rw [List.map_append, List.map_cons, List.nodup_append] at h
    have hne := h.2.2 entry.1 (List.mem_map_of_mem hentry) id List.mem_cons_self
    exact bne_iff_ne.mpr hne.symm

theorem ofList_eq_summary (list : StepList) : ofList parse list = summary parse list.trails :=
  ofList_eq list rfl

theorem isCacheOf_ofList {list : StepList} (h : (list.preorder.map Step.id).Nodup) :
    IsCacheOf parse list (ofList parse list).1 := by
  rw [ofList_eq_summary]
  -- the cache has some of the numbers of the steps, in the order of the steps
  have hkeys : ((summary parse list.trails).1.map Prod.fst).Sublist (list.preorder.map Step.id) := by
    refine (map_fst_filterMap_sublist _).trans ?_
    rw [← Trail.map_step_trails]
    exact (List.filter_sublist.map Trail.step).map Step.id
  have hnodup := h.sublist hkeys
  exact ⟨hnodup, fun id x => (get?_eq_some_iff_mem hnodup).trans mem_summary_iff⟩

theorem errors_ofList (list : StepList) : (ofList parse list).2 = failures parse list := by
  rw [ofList_eq_summary]
  show (reached parse list.trails).filterMap (error? parse) = _
  rw [reached, List.filterMap_map, List.filterMap_filter, failures]
  rfl

end Cache

theorem Step.nodup_ids_of_readAlgorithm {t : Text} {list : StepList} (h : Step.readAlgorithm t = .ok list) :
    (list.preorder.map Step.id).Nodup := by
  obtain ⟨indent, last, hlaid, -⟩ := Step.readAlgorithm_laid h
  have hids : list.preorder.map Step.id = List.range' 0 (Step.rowsOf none list.steps).length := by
    rw [StepList.preorder, StepList.rows_eq, List.map_map]
    exact (hlaid.ids none).1
  rw [hids]
  exact List.nodup_range'

/-! ## 4. Reports -/

namespace Lint

theorem filter_complaint_eq_nil {findings : List (Finding Problem)}
    (h : ∀ f ∈ findings, f.problem.check ≠ .expression) (element : NodeId) (base : Nat) :
    (findings.map (Finding.complaint element base)).filter (fun c => c.problem.rule = .expressionParsing) = [] := by
  refine List.filter_eq_nil_iff.mpr fun c hc hrule => ?_
  obtain ⟨f, hf, rfl⟩ := List.mem_map.mp hc
  have hrule : f.problem.rule = .expressionParsing := of_decide_eq_true hrule
  refine h f hf ?_
  rw [← f.problem.check_rule, hrule]
  rfl

section Algorithm

variable {readers : Readers} {doc : Document} {annex : Text} {algorithm : Collection.Algorithm} {e : Element}
  {base : Nat} {t : Text} {list : StepList}

/-- The check of an algorithm that can be read fails only with that of its variables. -/
theorem checkAlgorithm_eq (he : doc.element? algorithm.element = some e)
    (hinner : doc.inner e = .ok (some (base, t))) (hread : readers.algorithm t = .ok list) :
    checkAlgorithm readers doc annex algorithm =
      (scopeFindings doc annex algorithm list (Cache.ofList readers.step list).1).map fun inScope =>
        (stepFindings algorithm.context.inExample list (Cache.ofList readers.step list).1
          (Cache.ofList readers.step list).2 ++ inScope).map (Finding.complaint algorithm.element base) := by
  rw [checkAlgorithm, he]
  dsimp only
  rw [hinner]
  dsimp only [bind, Except.bind]
  rw [textFindings, hread]
  dsimp only [bind, Except.bind]
  cases scopeFindings doc annex algorithm list (Cache.ofList readers.step list).1 with
  | error fault => rfl
  | ok inScope => rfl

/-- Of the complaints about an algorithm those about expressions are the errors of its steps. -/
theorem ends_checkAlgorithm (he : doc.element? algorithm.element = some e)
    (hinner : doc.inner e = .ok (some (base, t))) (hread : readers.algorithm t = .ok list) :
    Ends (fun fault => scopeFindings doc annex algorithm list (Cache.ofList readers.step list).1 = .error fault)
      (fun complaints => complaints.filter (fun c => c.problem.rule = .expressionParsing) =
        (Cache.ofList readers.step list).2.map fun error =>
          ⟨.expression error, algorithm.element, base + error.offset⟩)
      (checkAlgorithm readers doc annex algorithm) := by
  rw [checkAlgorithm_eq he hinner hread]
  cases hscope : scopeFindings doc annex algorithm list (Cache.ofList readers.step list).1 with
  | error fault => rfl
  | ok inScope =>
    obtain ⟨found, rfl⟩ := scopeFindings_cases hscope
    obtain ⟨style, hstyle⟩ := stepFindings_eq algorithm.context.inExample list
      (Cache.ofList readers.step list).1 (Cache.ofList readers.step list).2
    -- all that follows the errors is found by other checks, and so under other rules
    have hothers : ∀ f ∈ (style.map fun f => (⟨.style f.problem, f.offset⟩ : Finding Problem)) ++
        found.map fun f => ⟨.scope f.problem, f.offset⟩, f.problem.check ≠ .expression := by
      intro f hf
      simp only [List.mem_append, List.mem_map] at hf
      rcases hf with ⟨g, -, rfl⟩ | ⟨g, -, rfl⟩
      · exact Check.noConfusion
      · exact Check.noConfusion
    show List.filter _ (List.map _ (_ ++ _)) = _
    rw [hstyle, List.append_assoc, List.map_append, List.filter_append, filter_complaint_eq_nil hothers,
      List.append_nil, List.map_map]
    refine List.filter_eq_self.mpr fun c hc => ?_
    obtain ⟨error, -, rfl⟩ := List.mem_map.mp hc
    rfl

end Algorithm

/-- What is kept of an algorithm that can be read: under the number of each step that parses while all steps
around it parse, the result for that very step, and nothing else. Each step that fails to parse while all steps
around it parse is reported once, in the order of the text, where its error is. -/
theorem isCacheOf_readAlgorithm (t : Text) (list : StepList) (h : Step.readAlgorithm t = .ok list) :
    Cache.IsCacheOf readers.step list (Cache.ofList readers.step list).1 ∧
      (Cache.ofList readers.step list).2 = Cache.failures readers.step list ∧
      ∀ doc annex algorithm e base, doc.element? algorithm.element = some e →
        doc.inner e = .ok (some (base, t)) →
        Ends (fun fault => scopeFindings doc annex algorithm list (Cache.ofList readers.step list).1 = .error fault)
          (fun complaints => complaints.filter (fun c => c.problem.rule = .expressionParsing) =
            (Cache.failures readers.step list).map fun error =>
              ⟨.expression error, algorithm.element, base + error.offset⟩)
          (checkAlgorithm readers doc annex algorithm) := by
  refine ⟨Cache.isCacheOf_ofList (Step.nodup_ids_of_readAlgorithm h), Cache.errors_ofList list, ?_⟩
  intro doc annex algorithm e base he hinner
  rw [← Cache.errors_ofList]
  exact ends_checkAlgorithm he hinner h

/-- The first step has three below it; the second of these has an error and a step below it, and the last step
has an error of its own. -/
theorem isCacheOf_readAlgorithm_nested :
    let t := "1. a\n  1. b\n  1. (c\n    1. d\n  1. e\n1. f)".toList
    ∃ list, Step.readAlgorithm t = .ok list ∧
      Cache.IsCacheOf readers.step list (Cache.ofList readers.step list).1 ∧
      (Cache.ofList readers.step list).1.map Prod.fst = [0, 1, 4] ∧
      (Cache.failures readers.step list).map StepError.offset = [17, 40] := by
  intro t
  have hread : (Step.readAlgorithm t).toOption.map (fun list =>
      ((Cache.ofList readers.step list).1.map Prod.fst,
        (Cache.ofList readers.step list).2.map StepError.offset)) = some ([0, 1, 4], [17, 40]) := by
    decide +kernel
  cases hlist : Step.readAlgorithm t with
  | error error =>
    rw [hlist] at hread
    cases hread
  | ok list =>
    rw [hlist] at hread
    obtain ⟨hkeys, herrors⟩ := Prod.mk.inj (Option.some.inj hread)
    obtain ⟨hcache, hfailures, -⟩ := isCacheOf_readAlgorithm t list hlist
    exact ⟨list, rfl, hcache, hkeys, hfailures ▸ herrors⟩

end Lint
end Errata
