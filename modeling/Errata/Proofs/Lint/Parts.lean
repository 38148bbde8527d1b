import Errata.Proofs.Collection.Outcome

/-!
# The checks that make up linting

Every problem is found by one of a few checks, and the rule that it breaks tells by which. What is complained
about in an algorithm are errors of its steps first, then their style, and then its variables.
-/

namespace Errata

/-! ## 1. Rules and checks -/

inductive Check where
  | spelling
  | collection
  | grammar
  | algorithm
  | expression
  | style
  | scope
  | header
deriving DecidableEq

/-- The check is one of those that look at algorithms. -/
def Check.ofAlgorithm (check : Check) : Bool :=
  check = .algorithm || check = .expression || check = .style || check = .scope

/-- The check that finds a problem. -/
def Problem.check : Problem → Check
  | .spelling _ => .spelling
  | .collection _ => .collection
  | .grammar _ => .grammar
  | .algorithm _ => .algorithm
  | .expression _ => .expression
  | .style _ => .style
  | .scope _ => .scope
  | .header _ => .header

/-- The check that looks after a rule. -/
def Rule.check : Rule → Check
  | .spelling => .spelling
  | .missingCloseTag | .earlyErrorShape => .collection
  | .grammarSyntax | .grammarUnusedParameter | .grammarDuplicateProduction | .undefinedNonterminal
  | .guardInFragment | .lineTerminatorInFragment => .grammar
  | .algorithmError => .algorithm
  | .expressionParsing => .expression
  | .lineStyle | .stepNumbering | .stepLabels | .unknownStepAttribute | .enumCasing | .forEachElement
  | .ifElseConsistency => .style
  | .useBeforeDeclaration | .redeclaration | .unusedDeclaration | .unusedCapture | .needlessAttribute
  | .badClosure => .scope
  | .headerFormat => .header

theorem Grammar.Consistency.Problem.check_rule (p : Grammar.Consistency.Problem) : p.rule.check = .grammar := by
  cases p with
  | grammar p => cases p <;> rfl
  | guardInFragment => rfl
  | lineTerminatorInFragment => rfl
  | undefined name => rfl
  | unmatched name => rfl

/-- No two checks share a rule. -/
theorem Problem.check_rule (p : Problem) : p.rule.check = p.check := by
  cases p with
  | spelling p => rfl
  | collection p => cases p <;> rfl
  | grammar p => exact p.check_rule
  | algorithm e => rfl
  | expression e => rfl
  | style p => cases p <;> rfl
  | scope p => cases p <;> rfl
  | header p => rfl

theorem Report.rule_of_ofDiagnostic {doc : Document} {d : Diagnostic} {r : Report}
    (h : ofDiagnostic doc d = .ok r) : r.rule = d.problem.rule := by
  obtain ⟨⟨source, line, column⟩, -, h⟩ := bind_eq_ok_iff.mp h
  dsimp only at h
  split at h
  · cases h
  · cases h
    rfl

namespace Lint

variable {readers : Readers} {doc : Document} {annex : Text} {algorithm : Collection.Algorithm}

/-! ## 2. Algorithms -/

theorem scopeFindings_cases {list : StepList} {cache : Cache} {found : List (Finding Problem)}
    (h : scopeFindings doc annex algorithm list cache = .ok found) :
    ∃ inScope : List (Finding Scope.Problem),
      found = inScope.map fun f => ⟨.scope f.problem, f.offset⟩ := by
  unfold scopeFindings at h
  dsimp only at h
  split at h
  · cases h
    exact ⟨[], rfl⟩
  · obtain ⟨seeds, -, h⟩ := bind_eq_ok_iff.mp h
    cases h
    exact ⟨_, rfl⟩

theorem stepFindings_eq (inExample : Bool) (list : StepList) (cache : Cache) (errors : List StepError) :
    ∃ style : List (Finding Style.Problem), stepFindings inExample list cache errors =
      (errors.map fun e => ⟨.expression e, e.offset⟩) ++ style.map fun f => ⟨.style f.problem, f.offset⟩ := by
  unfold stepFindings
  split
  · exact ⟨[], rfl⟩
  · exact ⟨_, rfl⟩

/-- The findings in a text that can be read as steps are those of three checks, one after another. -/
theorem textFindings_cases {text : Text} {found : List (Finding Problem)}
    (h : textFindings readers doc annex algorithm text = .ok found) :
    (∃ e, readers.algorithm text = .error e ∧ found = [⟨.algorithm e, e.offset⟩]) ∨
      ∃ list, ∃ style : List (Finding Style.Problem), ∃ inScope : List (Finding Scope.Problem),
        readers.algorithm text = .ok list ∧
        found = ((Cache.ofList readers.step list).2.map fun e => ⟨.expression e, e.offset⟩) ++
          (style.map fun f => ⟨.style f.problem, f.offset⟩) ++
          inScope.map fun f => ⟨.scope f.problem, f.offset⟩ := by
  unfold textFindings at h
  split at h
  · rename_i e hread
    cases h
    exact .inl ⟨e, hread, rfl⟩
  · rename_i list hread
    obtain ⟨inScope, hscope, h⟩ := bind_eq_ok_iff.mp h
    cases h
    obtain ⟨inScope, rfl⟩ := scopeFindings_cases hscope
    obtain ⟨style, hstyle⟩ := stepFindings_eq algorithm.context.inExample list
      (Cache.ofList readers.step list).1 (Cache.ofList readers.step list).2
    exact .inr ⟨list, style, inScope, hread, congrArg (· ++ _) hstyle⟩

/-- The complaints about an algorithm are the findings in the text between its tags. -/
theorem checkAlgorithm_parts {complaints : List (Complaint Problem)}
    (h : checkAlgorithm readers doc annex algorithm = .ok complaints) :
    ((∀ e, doc.element? algorithm.element = some e → doc.inner e = .ok none) ∧ complaints = []) ∨
      ∃ e base text findings, doc.element? algorithm.element = some e ∧ doc.inner e = .ok (some (base, text)) ∧
        textFindings readers doc annex algorithm text = .ok findings ∧
        complaints = findings.map (Finding.complaint algorithm.element base) := by
  unfold checkAlgorithm at h
  cases he : doc.element? algorithm.element with
  | none =>
    rw [he] at h
    cases h
    exact .inl ⟨fun _ he => (Option.some_ne_none _ he.symm).elim, rfl⟩
  | some e =>
    rw [he] at h
    obtain ⟨found, hinner, h⟩ := bind_eq_ok_iff.mp h
    cases found with
    | none =>
      cases h
      refine .inl ⟨fun e' he' => ?_, rfl⟩
      cases he'
      exact hinner
    | some part =>
      obtain ⟨base, text⟩ := part
      obtain ⟨findings, hfindings, h⟩ := bind_eq_ok_iff.mp h
      cases h
      exact .inr ⟨e, base, text, findings, rfl, hinner, hfindings, rfl⟩

theorem ofAlgorithm_textFindings {text : Text} {found : List (Finding Problem)}
    (h : textFindings readers doc annex algorithm text = .ok found) :
    ∀ f ∈ found, f.problem.check.ofAlgorithm = true := by
  rcases textFindings_cases h with ⟨e, -, rfl⟩ | ⟨list, style, inScope, -, rfl⟩
  · intro f hf
    rw [List.mem_singleton.mp hf]
    rfl
  · intro f hf
    simp only [List.mem_append, List.mem_map] at hf
    rcases hf with (⟨e, -, rfl⟩ | ⟨g, -, rfl⟩) | ⟨g, -, rfl⟩
    all_goals rfl

theorem ofAlgorithm_checkAlgorithm {complaints : List (Complaint Problem)}
    (h : checkAlgorithm readers doc annex algorithm = .ok complaints) :
    ∀ c ∈ complaints, c.problem.check.ofAlgorithm = true := by
  rcases checkAlgorithm_parts h with ⟨-, rfl⟩ | ⟨e, base, text, findings, -, -, hfindings, rfl⟩
  · exact List.forall_mem_nil _
  · intro c hc
    obtain ⟨f, hf, rfl⟩ := List.mem_map.mp hc
    exact ofAlgorithm_textFindings hfindings f hf

/-! ## 3. Documents -/

theorem check_ne_of_mem_map {α : Type} {f : α → Problem} {check : Check} (hf : ∀ p, (f p).check ≠ check)
    {others : List (Complaint α)} : ∀ c ∈ others.map (Complaint.map f), c.problem.check ≠ check := by
  intro c hc
  obtain ⟨original, -, rfl⟩ := List.mem_map.mp hc
  exact hf original.problem

theorem check_ne_of_mapM_checkAlgorithm {check : Check} (hcheck : check.ofAlgorithm = false)
    {algorithms : List Collection.Algorithm} {found : List (List (Complaint Problem))}
    (h : algorithms.mapM (checkAlgorithm readers doc annex) = .ok found) :
    ∀ c ∈ found.flatten, c.problem.check ≠ check := by
  intro c hc heq
  obtain ⟨own, hown, hc⟩ := List.mem_flatten.mp hc
  obtain ⟨algorithm, -, hown⟩ := exists_of_mapM_eq_ok h own hown
  have hkind := ofAlgorithm_checkAlgorithm hown c hc
  rw [heq, hcheck] at hkind
  cases hkind

/-- Spelling has a check of its own; the complaints about a document come from the others. -/
theorem check_ne_spelling_of_complaints {found : List (Complaint Problem)}
    (h : complaints readers annex doc = .ok found) : ∀ c ∈ found, c.problem.check ≠ .spelling := by
  have hstructural : ∀ p, (Problem.collection p).check ≠ .spelling := fun _ h => by cases h
  obtain ⟨outcome, -, ⟨-, rfl⟩ |
    ⟨collection, grammar, algorithms, headers, -, -, halgorithms, -, rfl⟩⟩ := complaints_cases h
  · exact check_ne_of_mem_map hstructural
  · refine List.forall_mem_append.mpr ⟨check_ne_of_mem_map hstructural, ?_⟩
    refine List.forall_mem_append.mpr ⟨List.forall_mem_append.mpr ⟨?_, ?_⟩, ?_⟩
    · exact check_ne_of_mem_map fun _ h => by cases h
    · exact check_ne_of_mapM_checkAlgorithm rfl halgorithms
    · exact check_ne_of_mem_map fun _ h => by cases h

end Lint
end Errata
