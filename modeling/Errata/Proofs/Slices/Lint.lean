import Errata.Proofs.Lint
import Errata.Proofs.Slices.Checks
import Errata.Proofs.Slices.Expression
import Errata.Proofs.Slices.Grammar
import Errata.Proofs.Slices.Levels
import Errata.Proofs.Slices.Markup
import Errata.Proofs.Slices.Step
import Errata.Proofs.Slices.Walk
import Errata.Proofs.Slices.Words

/-!
# Linting without failing

Here a text is linted by positions and numbers from end to end: the readers cut their texts at the positions
that they keep, and nodes, siblings, words and the levels of a scope are looked up. A cut inside a character,
a look-up past the end and a loop that does not end leave no result. For every text there is one, and it is
what linting gives.
-/

namespace Errata

/-! ## 1. Steps -/

namespace Cache

mutual

/-- Parses the content of a step and of the steps below it. -/
def ofStepAt? : Step → Option (Cache × List StepError)
  | ⟨id, _, _, content, sublist⟩ => do
    match ← (Expression.parseAt? content).run with
    | .error e => return ([], [e])
    | .ok expression =>
      match sublist with
      | none => return ([(id, expression)], [])
      | some list =>
        let (below, errors) ← ofListAt? list
        return ((id, expression) :: below, errors)

def ofListAt? : StepList → Option (Cache × List StepError)
  | ⟨_, steps⟩ => ofStepsAt? steps

def ofStepsAt? : List Step → Option (Cache × List StepError)
  | [] => return ([], [])
  | step :: steps => do
    let (here, hereErrors) ← ofStepAt? step
    let (others, otherErrors) ← ofStepsAt? steps
    return (here ++ others, hereErrors ++ otherErrors)

end

mutual

theorem ofStepAt?_eq : ∀ step, ofStepAt? step = some (ofStep Lint.readers.step step)
  | ⟨id, marker, attributes, content, sublist⟩ => by
    have hparse : (Expression.parseAt? content).run = some (Expression.parse content) :=
      Expression.returns_parseAt? content
    have hstep : Lint.readers.step ⟨id, marker, attributes, content, sublist⟩ = Expression.parse content := rfl
    rw [ofStepAt?, ofStep, hparse, hstep]
    dsimp only [Option.bind_eq_bind, Option.bind]
    cases Expression.parse content with
    | error e => rfl
    | ok expression =>
      cases sublist with
      | none => rfl
      | some list =>
        dsimp only
        rw [ofListAt?_eq list]
        rfl

theorem ofListAt?_eq : ∀ list, ofListAt? list = some (ofList Lint.readers.step list)
  | ⟨_, steps⟩ => by
    rw [ofListAt?, ofList]
    exact ofStepsAt?_eq steps

theorem ofStepsAt?_eq : ∀ steps, ofStepsAt? steps = some (ofSteps Lint.readers.step steps)
  | [] => rfl
  | step :: steps => by
    rw [ofStepsAt?, ofSteps, ofStepAt?_eq step, ofStepsAt?_eq steps]
    rfl

end

end Cache

/-! ## 2. Grammar -/

namespace Grammar.Consistency

def passageAt? (doc : Document) (id : NodeId) : Faulting Fault (Option Passage) := do
  match ← (doc.elementAt? id : Option (Option Element)) with
  | none => return none
  | some e =>
    match ← (doc.inner e : Except Fault (Option (Nat × Text))) with
    | none => return none
    | some (base, text) => return some ⟨id, base, text⟩

def passagesAt? (doc : Document) (ids : List NodeId) : Faulting Fault (List Passage) := do
  return (← ids.mapM (passageAt? doc)).filterMap id

def checkPassagesAt? (definitions fragments : List Passage) : Option (List (Complaint Problem)) := do
  let whole ← compileAt? (definitions.map Passage.text) true
  let parts ← fragments.mapM fun p => do return (p, ← compileAt? [p.text] false)
  return checkCompilations definitions whole parts

def checkAt? (doc : Document) (collection : Collection) : Faulting Fault (List (Complaint Problem)) := do
  let definitions ← passagesAt? doc collection.grammars
  let fragments ← passagesAt? doc
    (collection.operations.map Collection.Operation.grammar ++
      collection.earlyErrors.map Collection.EarlyErrors.grammar)
  (checkPassagesAt? definitions fragments : Option (List (Complaint Problem)))

variable {doc : Document}

theorem returns_passageAt? {id : NodeId} (h : id < doc.count) : Returns (passageAt? doc id) (passage doc id) := by
  refine returns_lift (Document.elementAt?_eq h) ?_
  rw [passage]
  cases doc.element? id with
  | none => exact returns_pure _
  | some e =>
    refine Returns.bind rfl fun found _ => ?_
    cases found with
    | none => exact returns_pure _
    | some part => exact returns_pure _

theorem returns_passagesAt? {ids : List NodeId} (h : ∀ id ∈ ids, id < doc.count) :
    Returns (passagesAt? doc ids) (passages doc ids) :=
  (returns_mapM fun id hid => returns_passageAt? (h id hid)).bind fun _ _ => returns_pure _

theorem checkPassagesAt?_eq (definitions fragments : List Passage) :
    checkPassagesAt? definitions fragments = some (checkPassages compile definitions fragments) := by
  have hparts : (fragments.mapM fun p => do return (p, ← compileAt? [p.text] false)) =
      some (fragments.map fun p => (p, compile [p.text] false)) := by
    refine mapM_eq_some fun p _ => ?_
    rw [compileAt?_eq]
    rfl
  rw [checkPassagesAt?, compileAt?_eq, hparts]
  rfl

theorem returns_checkAt? {text : Text} {collection : Collection}
    (h : Collection.Gathered.Sound doc text ⟨collection, []⟩) :
    Returns (checkAt? doc collection) (check compile doc collection) := by
  have hfragments : ∀ id ∈ collection.operations.map Collection.Operation.grammar ++
      collection.earlyErrors.map Collection.EarlyErrors.grammar, id < doc.count := by
    refine List.forall_mem_append.mpr ⟨fun id hid => ?_, fun id hid => ?_⟩
    · obtain ⟨operation, hoperation, rfl⟩ := List.mem_map.mp hid
      exact (h.operations operation hoperation).lt_count
    · obtain ⟨group, hgroup, rfl⟩ := List.mem_map.mp hid
      exact (h.earlyErrors group hgroup).lt_count
  refine (returns_passagesAt? fun id hid => (h.grammars id hid).lt_count).bind fun definitions _ => ?_
  refine (returns_passagesAt? hfragments).bind fun fragments _ => ?_
  rw [checkPassagesAt?_eq]
  exact returns_pure _

end Grammar.Consistency

/-! ## 3. Algorithms -/

namespace Lint

def stepFindingsAt? (inExample : Bool) (list : StepList) (cache : Cache) (errors : List StepError) :
    Option (List (Finding Problem)) := do
  let style ← if inExample then pure [] else Style.checkListAt? cache list
  return (errors.map fun e => ⟨.expression e, e.offset⟩) ++
    style.map fun f => ⟨.style f.problem, f.offset⟩

def scopeFindingsAt? (doc : Document) (annex : Text) (algorithm : Collection.Algorithm) (list : StepList)
    (cache : Cache) : Faulting Fault (List (Finding Problem)) := do
  let e ← (doc.elementAt? algorithm.element : Option (Option Element))
  let replaces := e.bind (·.attribute? "replaces-step".toList)
  if algorithm.context.inAnnex || replaces.isSome then return []
  let seeds ← Scope.namesBeforeAt? doc annex algorithm.element
  let actions ← (Scope.actionsAt? cache list : Option (List Scope.Action))
  let found ← (Scope.findings? seeds actions : Option (List (Finding Scope.Problem)))
  return found.map fun f => ⟨.scope f.problem, f.offset⟩

def textFindingsAt? (doc : Document) (annex : Text) (algorithm : Collection.Algorithm) (text : Text) :
    Faulting Fault (List (Finding Problem)) := do
  match ← ((Step.readAlgorithmAt? text).run : Option (Except StepError StepList)) with
  | .error e => return [⟨.algorithm e, e.offset⟩]
  | .ok list =>
    let (cache, errors) ← (Cache.ofListAt? list : Option (Cache × List StepError))
    let inSteps ← (stepFindingsAt? algorithm.context.inExample list cache errors : Option (List (Finding Problem)))
    let inScope ← scopeFindingsAt? doc annex algorithm list cache
    return inSteps ++ inScope

def checkAlgorithmAt? (doc : Document) (annex : Text) (algorithm : Collection.Algorithm) :
    Faulting Fault (List (Complaint Problem)) := do
  match ← (doc.elementAt? algorithm.element : Option (Option Element)) with
  | none => return []
  | some e =>
    match ← (doc.inner e : Except Fault (Option (Nat × Text))) with
    | none => return []
    | some (base, text) =>
      return (← textFindingsAt? doc annex algorithm text).map (Finding.complaint algorithm.element base)

variable {doc : Document}

theorem stepFindingsAt?_eq (inExample : Bool) (list : StepList) (cache : Cache) (errors : List StepError) :
    stepFindingsAt? inExample list cache errors = some (stepFindings inExample list cache errors) := by
  rw [stepFindingsAt?, stepFindings, Style.checkListAt?_eq]
  cases inExample <;> rfl

theorem returns_scopeFindingsAt? (hdoc : doc.IsTree) (annex : Text) {algorithm : Collection.Algorithm}
    (h : algorithm.element < doc.count) (list : StepList) (cache : Cache) :
    Returns (scopeFindingsAt? doc annex algorithm list cache) (scopeFindings doc annex algorithm list cache) := by
  refine returns_lift (Document.elementAt?_eq h) ?_
  unfold scopeFindings
  rw [Document.attribute?]
  dsimp only
  split
  · exact returns_pure _
  refine (Scope.returns_namesBeforeAt? hdoc h).bind fun seeds _ => ?_
  exact returns_lift (Scope.actionsAt?_eq cache list) (returns_lift (Scope.findings?_eq _ _) (returns_pure _))

theorem returns_textFindingsAt? (hdoc : doc.IsTree) (annex : Text) {algorithm : Collection.Algorithm}
    (h : algorithm.element < doc.count) (text : Text) :
    Returns (textFindingsAt? doc annex algorithm text) (textFindings readers doc annex algorithm text) := by
  refine returns_lift (Step.returns_readAlgorithmAt? text) ?_
  have halgorithm : readers.algorithm text = Step.readAlgorithm text := rfl
  rw [textFindings, halgorithm]
  cases Step.readAlgorithm text with
  | error e => exact returns_pure _
  | ok list =>
    refine returns_lift (Cache.ofListAt?_eq list) (returns_lift (stepFindingsAt?_eq _ _ _ _) ?_)
    exact (returns_scopeFindingsAt? hdoc annex h list _).bind fun inScope _ => returns_pure _

theorem returns_checkAlgorithmAt? (hdoc : doc.IsTree) (annex : Text) {algorithm : Collection.Algorithm}
    (h : algorithm.element < doc.count) :
    Returns (checkAlgorithmAt? doc annex algorithm) (checkAlgorithm readers doc annex algorithm) := by
  refine returns_lift (Document.elementAt?_eq h) ?_
  rw [checkAlgorithm]
  cases doc.element? algorithm.element with
  | none => exact returns_pure _
  | some e =>
    refine Returns.bind rfl fun found _ => ?_
    cases found with
    | none => exact returns_pure _
    | some part => exact (returns_textFindingsAt? hdoc annex h part.2).bind fun findings _ => returns_pure _

/-! ## 4. Documents -/

def checkCollectionAt? (doc : Document) (annex : Text) (collection : Collection) :
    Faulting Fault (List (Complaint Problem)) := do
  let grammar ← Grammar.Consistency.checkAt? doc collection
  let algorithms ← collection.algorithms.mapM (checkAlgorithmAt? doc annex)
  let headers ← Header.checkAt? doc collection.headers
  return grammar.map (.map .grammar) ++ algorithms.flatten ++ headers.map (.map .header)

def complaintsAt? (annex : Text) (doc : Document) : Faulting Fault (List (Complaint Problem)) := do
  let outcome ← Collection.collectAt? doc annex
  let structural := outcome.complaints.map (.map .collection)
  match outcome.collection with
  | none => return structural
  | some collection => return structural ++ (← checkCollectionAt? doc annex collection)

def diagnosticsAt? (options : Options) (doc : Document) : Faulting Fault (List Diagnostic) := do
  let misspelt ← (if options.spelling then spellingAt? doc else pure [] : Option (List Diagnostic))
  let others ← complaintsAt? options.annex doc
  return misspelt ++ others.map .ofComplaint

/-- The source of a location, with its line and column, which are counted in the text before it. -/
def resolveAt? (doc : Document) : Location → Faulting Fault (SourceId × Nat × Nat)
  | .inSource source line column => return (source, line, column)
  | .inElement element offset => do
    let e ← (doc.elementAt? element : Option (Option Element))
    let source := (e.map Element.source).getD 0
    let text ← (doc.sourceText source : Except Fault Text)
    let (line, column) ← (text.lineColumnAt? offset : Option (Nat × Nat))
    return (source, line, column)

def ofDiagnosticAt? (doc : Document) (d : Diagnostic) : Faulting Fault Report := do
  let (source, line, column) ← resolveAt? doc d.location
  let { filename, .. } ← (doc.sources[source]? : Option Source)
  return { rule := d.problem.rule, message := d.problem.message, file := filename, line, column, source }

def reportsAt? (options : Options) (doc : Document) : Faulting Fault (List Report) := do
  let found ← diagnosticsAt? options doc
  return Report.inOrder (← found.mapM (ofDiagnosticAt? doc))

/-- Reads a text and lints it. -/
def lintAt? (filename : Path) (text : Text) (options : Options) : Faulting Fault (List Report) := do
  reportsAt? options (← (Markup.readAt? filename text : Option Document))

variable {text : Text} {pos : Nat}

theorem returns_checkCollectionAt? (hdoc : doc.IsTree) (annex : Text) {collection : Collection}
    (h : Collection.Gathered.Sound doc text ⟨collection, []⟩) :
    Returns (checkCollectionAt? doc annex collection) (checkCollection readers doc annex collection) := by
  have halgorithms : Returns (collection.algorithms.mapM (checkAlgorithmAt? doc annex))
      (collection.algorithms.mapM (checkAlgorithm readers doc annex)) :=
    returns_mapM fun algorithm hmem => returns_checkAlgorithmAt? hdoc annex (h.algorithms algorithm hmem).lt_count
  refine (Grammar.Consistency.returns_checkAt? h).bind fun grammar _ => ?_
  refine halgorithms.bind fun algorithms _ => ?_
  exact (Header.returns_checkAt? doc collection.headers).bind fun headers _ => returns_pure _

theorem returns_complaintsAt? (hdoc : doc.IsTree) (hsound : doc.Sound text pos) (annex : Text) :
    Returns (complaintsAt? annex doc) (complaints readers annex doc) := by
  refine (Collection.returns_collectAt? hdoc annex).bind fun outcome houtcome => ?_
  -- all that was gathered has a number in use
  have hcollected := Collection.yields_collect hsound annex
  rw [houtcome] at hcollected
  dsimp only
  cases hcollection : outcome.collection with
  | none => exact returns_pure _
  | some collection =>
    have hgathered := hcollected.collection collection hcollection
    exact (returns_checkCollectionAt? hdoc annex hgathered).bind fun found _ => returns_pure _

theorem returns_diagnosticsAt? (hdoc : doc.IsTree) (hsound : doc.Sound text pos) (options : Options) :
    Returns (diagnosticsAt? options doc) (diagnostics readers options doc) := by
  have hspelling : (if options.spelling then spellingAt? doc else pure []) =
      some (if options.spelling then spelling doc else []) := by
    rw [spellingAt?_eq]
    split <;> rfl
  refine returns_lift hspelling ?_
  exact (returns_complaintsAt? hdoc hsound options.annex).bind fun others _ => returns_pure _

/-! ## 5. Reports -/

theorem returns_resolveAt? (hsound : doc.Sound text pos) {location : Location} (h : IsLocated doc text location) :
    Returns (resolveAt? doc location) (location.resolve doc) := by
  cases location with
  | inSource source line column => exact returns_pure _
  | inElement element offset =>
    obtain ⟨helement, hoffset⟩ := h
    obtain ⟨line, column, hposition, -⟩ := Text.lineColumn?_of_isShown hoffset
    refine returns_lift (Document.elementAt?_eq helement) ?_
    rw [Location.resolve]
    dsimp only
    rw [source_element hsound, Document.lineColumn, hsound.sourceText]
    dsimp only [bind, Except.bind]
    rw [hposition]
    exact returns_lift (Text.lineColumnAt?_eq text offset ▸ hposition) (returns_pure _)

theorem returns_ofDiagnosticAt? (hsound : doc.Sound text pos) {d : Diagnostic}
    (h : IsLocated doc text d.location) : Returns (ofDiagnosticAt? doc d) (Report.ofDiagnostic doc d) := by
  obtain ⟨filename, hsources⟩ := hsound.source
  refine (returns_resolveAt? hsound h).bind fun found hfound => ?_
  have hresolved := yields_resolve hsound h
  rw [hfound] at hresolved
  obtain ⟨source, line, column⟩ := found
  obtain ⟨rfl, -⟩ := hresolved
  rw [hsources]
  exact returns_pure _

theorem returns_reportsAt? (hdoc : doc.IsTree) (hsound : doc.Sound text pos) (options : Options) :
    Returns (reportsAt? options doc) (reports readers options doc) := by
  refine (returns_diagnosticsAt? hdoc hsound options).bind fun found hfound => ?_
  -- each diagnostic is at a position of the text, so its line and column can be counted
  have hlocated := yields_diagnostics hsound options
  rw [hfound] at hlocated
  refine (returns_mapM fun d hd => returns_ofDiagnosticAt? hsound (hlocated d hd)).bind fun all _ => ?_
  exact returns_pure _

/-- Linting a text by positions and numbers always has a result, and it is the reports that linting the text
gives. Each report is at a line of the text and at a column of that line, and shows the line. -/
theorem exists_reports_hasPlace (filename : Path) (text : Text) (options : Options) :
    ∃ found, (lintAt? filename text options).run = some (.ok found) ∧
      reports readers options (Markup.read filename text) = .ok found ∧
      ∀ r ∈ found, text.HasPlace r.line r.column ∧
        ∃ line, text.displayLines[r.line - 1]? = some line ∧
          r.excerpt? (Markup.read filename text) = some line := by
  obtain ⟨pos, hsound⟩ := Markup.sound_read filename text
  obtain ⟨found, hok, hall⟩ := (yields_reports hsound options).eq_ok
  have hreturns : Returns (lintAt? filename text options) (.ok found) := by
    refine returns_lift (Markup.readAt?_eq filename text) ?_
    rw [← hok]
    exact returns_reportsAt? (Markup.isTree_read filename text) hsound options
  exact ⟨found, hreturns, hok, fun r hr => ⟨(hall r hr).2, exists_excerpt hsound (hall r hr)⟩⟩

end Lint

end Errata
