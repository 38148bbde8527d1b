import Errata.Grammar.Consistency
import Errata.Markup.Reader
import Errata.Proofs.Grammar.Placement
import Errata.Proofs.Grammar.Preorder

/-!
# Fragments and their definitions

A fragment is complained about exactly for those of its right-hand sides that fit no right-hand side of a
definition of the same name. Reading a text gives the same productions whether it is read alone or as one of
many, so a fragment that is a copy of a definition is never complained about.
-/

namespace Errata.Grammar

/-! ## 1. A text read alone and among others -/

theorem headerOf_eq_map (i j : Nat) (line : Line) :
    headerOf i line = (headerOf j line).map fun begun => ({ begun.1 with source := i }, begun.2) := by
  cases hparts : headerParts? line with
  | none =>
    unfold headerOf
    rw [hparts]
    rfl
  | some parts =>
    -- neither the parameters nor the body depend on the number of the text
    rw [headerOf_eq i hparts, headerOf_eq j hparts]
    cases parts.parameters.elim (.ok []) fun list => parametersOf list.offset (list.text.pieces ',') with
    | error e => rfl
    | ok parameters =>
      cases hbody : parts.tail.elim (.ok (.listed [])) headerBody with
      | error e => simp [bind, Except.bind, Except.map]
      | ok body => simp [bind, Except.bind, Except.map]

theorem readGroup_eq (i j : Nat) (header : Line) (lines : List Line) :
    readGroup i header lines =
      ((readGroup j header lines).1.map fun p => { p with source := i }, (readGroup j header lines).2) := by
  unfold readGroup
  rw [headerOf_eq_map i j header]
  cases headerOf j header with
  | error e => rfl
  | ok begun =>
    dsimp only [Except.map]
    split
    · rfl
    · rfl

theorem productions_readSource (i j : Nat) (text : Text) :
    (readSource i text).productions =
      (readSource j text).productions.map fun p => { p with source := i } := by
  show ((groups text).map _).filterMap _ = (((groups text).map _).filterMap _).map _
  rw [List.filterMap_map, List.filterMap_map, List.map_filterMap]
  congr 1
  funext group
  show (readGroup i group.1 group.2).1 = (readGroup j group.1 group.2).1.map _
  rw [readGroup_eq i j]

/-- What a text read alone says of a name it says as one of many texts. -/
theorem exists_production_of_mem {sources : List Text} {text : Text} (htext : text ∈ sources)
    {q : Production} (hq : q ∈ (compile [text] false).productions) (checks : Bool) :
    ∃ d ∈ (compile sources checks).productions,
      d.name = q.name ∧ d.rightHandSides = q.rightHandSides := by
  rw [productions_compile] at hq ⊢
  simp only [List.zipIdx_cons, List.zipIdx_nil, List.flatMap_cons, List.flatMap_nil,
    List.append_nil] at hq
  obtain ⟨i, hi, hget⟩ := List.getElem_of_mem htext
  have hmem : (text, i) ∈ sources.zipIdx := by
    rw [List.mem_zipIdx_iff_getElem?]
    exact List.getElem?_eq_some_iff.mpr ⟨hi, hget⟩
  refine ⟨{ q with source := i }, List.mem_flatMap.mpr ⟨(text, i), hmem, ?_⟩, rfl, rfl⟩
  show { q with source := i } ∈ (readSource i text).productions
  rw [productions_readSource i 0]
  exact List.mem_map_of_mem hq

namespace Consistency

/-! ## 2. What is undefined -/

/-- Whether a right-hand side fits one that a definition gives for the name. -/
def isDefined (definitions : List Production) (name : Text) (side : RightHandSide) : Bool :=
  definitions.any fun d =>
    d.name = name && d.rightHandSides.any fun other => sequenceFits side.symbols other.symbols

/-- What is wrong with an undefined right-hand side: its name has no definition, or none that it fits. -/
def undefinedProblem (definitions : List Production) (name : Text) : Problem :=
  if definitions.any (·.name = name) then .unmatched name else .undefined name

/-- The complaints about the undefined right-hand sides of a fragment. -/
def undefinedIn (definitions : List Production) (p : Passage) (c : Compilation) :
    List (Complaint Problem) :=
  c.productions.flatMap fun q =>
    (q.rightHandSides.filter fun side => !isDefined definitions q.name side).map fun side =>
      p.complaint (undefinedProblem definitions q.name) side.offset

def Problem.isUndefined (problem : Problem) : Bool := problem.rule = .undefinedNonterminal

theorem isUndefined_grammar (problem : Grammar.Problem) : (Problem.grammar problem).isUndefined = false := by
  cases problem <;> rfl

theorem isUndefined_undefinedProblem (definitions : List Production) (name : Text) :
    (undefinedProblem definitions name).isUndefined = true := by
  unfold undefinedProblem
  split
  · rfl
  · rfl

theorem unknown_eq (definitions : List Production) (name : Text) (side : RightHandSide) :
    unknown (definition? definitions name) name side =
      if isDefined definitions name side then []
      else [⟨undefinedProblem definitions name, side.offset⟩] := by
  unfold definition?
  by_cases hany : definitions.any (·.name = name) = true
  · -- some definition has the name, and its right-hand sides decide
    have hfound : (definitions.filter (·.name = name)).isEmpty = false := by
      simpa [List.filter_eq_nil_iff] using hany
    have hdefined : isDefined definitions name side =
        ((definitions.filter (·.name = name)).flatMap Production.rightHandSides).any fun d =>
          sequenceFits side.symbols d.symbols := by
      rw [isDefined, List.any_flatMap, List.any_filter]
    rw [undefinedProblem, if_pos hany, hdefined]
    dsimp only
    rw [hfound]
    rfl
  · have hfound : (definitions.filter (·.name = name)).isEmpty = true := by
      simpa [List.filter_eq_nil_iff] using hany
    have hdefined : isDefined definitions name side = false := by
      rw [isDefined, List.any_eq_false]
      intro d hd hboth
      rw [Bool.and_eq_true] at hboth
      exact hany (List.any_eq_true.mpr ⟨d, hd, hboth.1⟩)
    rw [undefinedProblem, if_neg hany, hdefined]
    dsimp only
    rw [hfound]
    rfl

/-! ## 3. Complaints of one rule -/

theorem filter_misplaced (side : RightHandSide) :
    (misplaced side).filter (·.problem.isUndefined) = [] := by
  rw [List.filter_eq_nil_iff]
  intro f hf
  rcases List.mem_append.mp hf with hf | hf
  · obtain ⟨guard, -, rfl⟩ := Option.map_eq_some_iff.mp (Option.mem_toList.mp hf)
    exact Bool.false_ne_true
  · obtain ⟨offset, -, rfl⟩ := List.mem_map.mp hf
    exact Bool.false_ne_true

theorem filter_unknown (definitions : List Production) (name : Text) (side : RightHandSide) :
    (unknown (definition? definitions name) name side).filter (·.problem.isUndefined) =
      unknown (definition? definitions name) name side := by
  rw [unknown_eq]
  split
  · rfl
  · exact List.filter_eq_self.mpr fun f hf => by
      rw [List.mem_singleton.mp hf]
      exact isUndefined_undefinedProblem definitions name

theorem filter_checkProduction (definitions : List Production) (q : Production) :
    (checkProduction definitions q).filter (·.problem.isUndefined) =
      (q.rightHandSides.filter fun side => !isDefined definitions q.name side).map fun side =>
        ⟨undefinedProblem definitions q.name, side.offset⟩ := by
  rw [checkProduction, List.filter_flatMap]
  -- each right-hand side has at most one complaint of the rule
  induction q.rightHandSides with
  | nil => rfl
  | cons side sides ih =>
    rw [List.flatMap_cons, ih, List.filter_append, filter_misplaced, filter_unknown, unknown_eq]
    cases hdefined : isDefined definitions q.name side with
    | true => simp [hdefined]
    | false => simp [hdefined]

theorem filter_checkFragment (definitions : List Production) (c : Compilation) :
    (checkFragment definitions c).filter (·.problem.isUndefined) =
      c.productions.flatMap fun q =>
        (q.rightHandSides.filter fun side => !isDefined definitions q.name side).map fun side =>
          ⟨undefinedProblem definitions q.name, side.offset⟩ := by
  unfold checkFragment
  dsimp only
  rw [List.filter_append, List.filter_flatMap]
  -- syntax errors belong to another rule
  refine (congrArg (· ++ _) (List.filter_eq_nil_iff.mpr fun f hf => ?_)).trans ?_
  · obtain ⟨d, -, hd⟩ := List.mem_filterMap.mp hf
    split at hd
    · cases hd
      exact Bool.false_ne_true
    · cases hd
  · rw [List.nil_append]
    exact congrArg (c.productions.flatMap ·) (funext fun q => filter_checkProduction definitions q)

theorem filter_complaints (definitions : List Production) (p : Passage) (c : Compilation) :
    ((checkFragment definitions c).map (Finding.complaint p.element p.base)).filter
      (·.problem.isUndefined) = undefinedIn definitions p c := by
  rw [List.filter_map]
  show ((checkFragment definitions c).filter (·.problem.isUndefined)).map _ = _
  rw [filter_checkFragment, List.map_flatMap, undefinedIn]
  congr 1
  funext q
  rw [List.map_map]
  rfl

/-- Complaints about the definitions themselves belong to other rules. -/
theorem filter_definitionComplaint? (definitions : List Passage) (diagnostics : List Diagnostic) :
    (diagnostics.filterMap (definitionComplaint? definitions)).filter (·.problem.isUndefined) = [] := by
  rw [List.filter_eq_nil_iff]
  intro c hc
  obtain ⟨d, -, hd⟩ := List.mem_filterMap.mp hc
  obtain ⟨p, -, rfl⟩ := Option.map_eq_some_iff.mp hd
  show ¬ (Problem.grammar d.problem).isUndefined = true
  rw [isUndefined_grammar]
  exact Bool.false_ne_true

theorem filter_checkPassages (compiler : Compiler) (definitions fragments : List Passage) :
    (checkPassages compiler definitions fragments).filter (·.problem.isUndefined) =
      fragments.flatMap fun p =>
        undefinedIn (compiler (definitions.map Passage.text) true).productions p
          (compiler [p.text] false) := by
  unfold checkPassages checkCompilations
  dsimp only
  rw [List.filter_append, List.filter_append, filter_definitionComplaint?, filter_definitionComplaint?,
    List.nil_append, List.append_nil, List.flatMap_map, List.filter_flatMap]
  congr 1
  funext p
  exact filter_complaints _ p _

/-! ## 4. Copies of definitions -/

/-- Nothing is undefined in a text that is one of the texts of the definitions. -/
theorem undefinedIn_eq_nil {definitions : List Passage} {p d : Passage} (hd : d ∈ definitions)
    (htext : d.text = p.text) :
    undefinedIn (compile (definitions.map Passage.text) true).productions p (compile [p.text] false) =
      [] := by
  have hmem : p.text ∈ definitions.map Passage.text := List.mem_map.mpr ⟨d, hd, htext⟩
  rw [undefinedIn, List.flatMap_eq_nil_iff]
  intro q hq
  rw [List.map_eq_nil_iff, List.filter_eq_nil_iff]
  intro side hside
  -- the definition read from the same text has the same right-hand side
  obtain ⟨production, hproduction, hname, hsides⟩ := exists_production_of_mem hmem hq true
  have hdefined : isDefined (compile (definitions.map Passage.text) true).productions q.name side = true := by
    refine List.any_eq_true.mpr ⟨production, hproduction, ?_⟩
    rw [decide_eq_true hname, Bool.true_and, hsides]
    exact List.any_eq_true.mpr ⟨side, hside, sequenceFits_refl side.symbols⟩
  simp [hdefined]

/-- The fragments of a collection, those of operations before those of early errors. -/
def fragmentsOf (collection : Collection) : List NodeId :=
  collection.operations.map Collection.Operation.grammar ++
    collection.earlyErrors.map Collection.EarlyErrors.grammar

/-- The check complains once about each right-hand side of a fragment that fits none of a definition of its
name, at the place of that right-hand side, and about no other. So it complains about none if the text of
every fragment is the text of a definition. -/
theorem undefined_complaints_eq (doc : Document) (collection : Collection)
    {definitions fragments : List Passage} (hdefinitions : passages doc collection.grammars = .ok definitions)
    (hfragments : passages doc (fragmentsOf collection) = .ok fragments) :
    ∃ complaints, check compile doc collection = .ok complaints ∧
      complaints.filter (·.problem.rule = .undefinedNonterminal) =
        (fragments.flatMap fun p =>
          undefinedIn (compile (definitions.map Passage.text) true).productions p
            (compile [p.text] false)) ∧
      ((∀ p ∈ fragments, ∃ d ∈ definitions, d.text = p.text) →
        ∀ c ∈ complaints, c.problem.rule ≠ .undefinedNonterminal) := by
  have hfilter := filter_checkPassages compile definitions fragments
  refine ⟨checkPassages compile definitions fragments, ?_, hfilter, fun hcopies => ?_⟩
  · rw [check, hdefinitions]
    show (passages doc (fragmentsOf collection) >>= _) = _
    rw [hfragments]
    rfl
  · have hnil : (checkPassages compile definitions fragments).filter (·.problem.isUndefined) = [] := by
      rw [hfilter, List.flatMap_eq_nil_iff]
      intro p hp
      obtain ⟨d, hd, htext⟩ := hcopies p hp
      exact undefinedIn_eq_nil hd htext
    intro c hc hrule
    exact List.filter_eq_nil_iff.mp hnil c hc (decide_eq_true hrule)

/-- A fragment with an error in it, first against a definition that has only a part of it and then against
a copy of itself. -/
theorem undefined_complaints_eq_partial :
    let page := Markup.read [] ("<emu-grammar>A : `a` B?</emu-grammar>" ++
      "<emu-grammar>A :\n  `a`\n  `c`\nD : `d`\n!</emu-grammar>").toList
    (∃ complaints, check compile page ⟨[], [1], [⟨3, 5⟩], [], []⟩ = .ok complaints ∧
      complaints.filter (·.problem.rule = .undefinedNonterminal) =
        [⟨.unmatched ['A'], 3, 62⟩, ⟨.undefined ['D'], 3, 70⟩]) ∧
    ∃ complaints, check compile page ⟨[], [1, 3], [⟨3, 5⟩], [], []⟩ = .ok complaints ∧
      ∀ c ∈ complaints, c.problem.rule ≠ .undefinedNonterminal := by
  intro page
  have hpart : passages page [1] = .ok [⟨1, 13, "A : `a` B?".toList⟩] := by decide +kernel
  have hfragment : passages page [3] = .ok [⟨3, 50, "A :\n  `a`\n  `c`\nD : `d`\n!".toList⟩] := by
    decide +kernel
  have hwhole : passages page [1, 3] = .ok [⟨1, 13, "A : `a` B?".toList⟩,
      ⟨3, 50, "A :\n  `a`\n  `c`\nD : `d`\n!".toList⟩] := by
    decide +kernel
  constructor
  · obtain ⟨complaints, hok, heq, -⟩ :=
      undefined_complaints_eq page ⟨[], [1], [⟨3, 5⟩], [], []⟩ hpart hfragment
    exact ⟨complaints, hok, heq.trans (by decide +kernel)⟩
  · obtain ⟨complaints, hok, -, hnone⟩ :=
      undefined_complaints_eq page ⟨[], [1, 3], [⟨3, 5⟩], [], []⟩ hwhole hfragment
    refine ⟨complaints, hok, hnone fun p hp => ?_⟩
    rw [List.mem_singleton.mp hp]
    exact ⟨_, List.mem_cons_of_mem _ List.mem_cons_self, rfl⟩

end Consistency
end Errata.Grammar
