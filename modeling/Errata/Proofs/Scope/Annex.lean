import Errata.Proofs.Collection.Likeness
import Errata.Proofs.Lint
import Errata.Proofs.Lint.Parts

/-!
# What the annex has to do with variables outside it

The search for names before an algorithm ends at the annex, but it reads the whole text of each node that
stands before, and the annex may be in such a node. Otherwise what is said about the variables of an algorithm
outside the annex does not depend on the text in the annex, unless that text is the header of a clause.
-/

namespace Errata

namespace Scope

/-! ## 1. The nodes that the search reads -/

/-- The nodes before a node whose text is searched for names, inside the elements around it, which are given
from the inside out. -/
def nodesRead (doc : Document) (annex : Text) (node : NodeId) : List NodeId → List NodeId
  | [] => []
  | parent :: above =>
    let earlier := ((doc.children parent).takeWhile (· ≠ node)).reverse
    if hasId doc parent annex then []
    else earlier.takeWhile (fun n => !hasId doc n annex) ++
      if earlier.any (hasId doc · annex) || parent = Document.root || isClauseLike doc parent then []
      else nodesRead doc annex parent above

/-- The names in the texts of some nodes. -/
def namesOf (doc : Document) : List NodeId → Except Fault (List Text)
  | [] => .ok []
  | node :: nodes => do
    let names := namesIn (← doc.textContent node)
    return names ++ (← namesOf doc nodes)

theorem namesOf_append (doc : Document) (nodes others : List NodeId) :
    namesOf doc (nodes ++ others) = (do return (← namesOf doc nodes) ++ (← namesOf doc others)) := by
  induction nodes with
  | nil =>
    rw [List.nil_append, namesOf]
    cases namesOf doc others with
    | error fault => rfl
    | ok names => rfl
  | cons node nodes ih =>
    rw [List.cons_append, namesOf, namesOf, ih]
    cases doc.textContent node with
    | error fault => rfl
    | ok text =>
      cases namesOf doc nodes with
      | error fault => rfl
      | ok names =>
        cases namesOf doc others with
        | error fault => rfl
        | ok names' => exact congrArg Except.ok (List.append_assoc _ _ _).symm

theorem namesInNodes_eq (doc : Document) (annex : Text) (nodes : List NodeId) :
    namesInNodes doc annex nodes = (namesOf doc (nodes.takeWhile fun n => !hasId doc n annex)).map
      fun names => (names, nodes.any (hasId doc · annex)) := by
  induction nodes with
  | nil => rfl
  | cons node nodes ih =>
    rw [namesInNodes, List.takeWhile_cons, List.any_cons]
    cases hasId doc node annex with
    | true => rfl
    | false =>
      rw [ih]
      simp only [Bool.false_eq_true, if_false, Bool.not_false, if_true, Bool.false_or, namesOf]
      cases doc.textContent node with
      | error fault => rfl
      | ok text =>
        cases namesOf doc (nodes.takeWhile fun n => !hasId doc n annex) with
        | error fault => rfl
        | ok names => rfl

/-- The search finds the names in the texts of the nodes that it reads. -/
theorem namesBefore_eq (doc : Document) (annex : Text) (node : NodeId) (above : List NodeId) :
    namesBefore doc annex node above = namesOf doc (nodesRead doc annex node above) := by
  induction above generalizing node with
  | nil => rfl
  | cons parent above ih =>
    rw [namesBefore, nodesRead]
    cases hasId doc parent annex with
    | true => rfl
    | false =>
      simp only [Bool.false_eq_true, if_false]
      rw [namesInNodes_eq, namesOf_append, ih]
      generalize ((doc.children parent).takeWhile (· ≠ node)).reverse = earlier
      cases namesOf doc (earlier.takeWhile fun n => !hasId doc n annex) with
      | error fault => rfl
      | ok names =>
        simp only [Except.map, Bind.bind, Except.bind]
        split
        · simp [namesOf, Pure.pure, Except.pure]
        · rfl

/-! ### The same search in another document -/

section Agreement

variable {doc other : Document} {annex : Text}

theorem hasId_eq (h : doc.IsLike other) (node : NodeId) (id : Text) : hasId other node id = hasId doc node id := by
  rw [hasId, hasId, h.attribute?_eq]

theorem nodesRead_eq (h : doc.IsLike other) (annex : Text) (node : NodeId) (above : List NodeId) :
    nodesRead other annex node above = nodesRead doc annex node above := by
  induction above generalizing node with
  | nil => rfl
  | cons parent above ih =>
    rw [nodesRead, nodesRead, ih, isClauseLike, isClauseLike, h.name?_eq, h.children_eq]
    simp only [hasId_eq h]

theorem namesOf_congr {nodes : List NodeId} (h : ∀ node ∈ nodes, other.textContent node = doc.textContent node) :
    namesOf other nodes = namesOf doc nodes := by
  induction nodes with
  | nil => rfl
  | cons node nodes ih =>
    rw [List.forall_mem_cons] at h
    rw [namesOf, namesOf, h.1, ih h.2]

/-- A node that is read is a child of a node around and does not have the id of the annex. -/
theorem exists_parent_of_mem_nodesRead {node : NodeId} {above : List NodeId} {n : NodeId}
    (h : n ∈ nodesRead doc annex node above) :
    hasId doc n annex = false ∧ ∃ parent ∈ above, n ∈ doc.children parent := by
  induction above generalizing node with
  | nil => exact absurd h List.not_mem_nil
  | cons parent above ih =>
    rw [nodesRead] at h
    split at h
    · exact absurd h List.not_mem_nil
    · rcases List.mem_append.mp h with h | h
      · have hid := List.mem_takeWhile_imp h
        have hmem := List.mem_reverse.mp ((List.takeWhile_subset _) h)
        rw [Bool.not_eq_true'] at hid
        exact ⟨hid, parent, List.mem_cons_self, (List.takeWhile_subset _) hmem⟩
      · split at h
        · exact absurd h List.not_mem_nil
        · obtain ⟨hid, parent', hparent, hmem⟩ := ih h
          exact ⟨hid, parent', List.mem_cons_of_mem _ hparent, hmem⟩

/-- The names before an algorithm outside the annex do not depend on the annex, if no node that is read
holds it. -/
theorem seeds_eq {a : NodeId} (hagrees : doc.AgreesOutside other a) (hdoc : doc.IsTree)
    (hannex : hasId doc a annex = true) {algorithm : NodeId}
    (hout : a ∉ algorithm :: doc.ancestors algorithm)
    (hread : ∀ n ∈ nodesRead doc annex algorithm (doc.ancestors algorithm), n ∉ doc.ancestors a) :
    seeds other annex algorithm = seeds doc annex algorithm := by
  rw [seeds, seeds, namesBefore_eq, namesBefore_eq, hagrees.isLike.ancestors_eq, nodesRead_eq hagrees.isLike]
  refine namesOf_congr fun n hn => ?_
  obtain ⟨hid, parent, habove, hchild⟩ := exists_parent_of_mem_nodesRead hn
  have hlt := hdoc.lt_count_of_mem_children hchild
  have helement : doc.isElement parent = true := by
    by_contra hnot
    rw [Bool.not_eq_true] at hnot
    rw [Document.children_of_not_isElement hnot] at hchild
    exact absurd hchild List.not_mem_nil
  have hparent := (hdoc.mem_children helement n).mp hchild
  refine hagrees.textContent_eq hdoc hlt ⟨fun hmem => ?_, hread n hn⟩
  rcases List.mem_cons.mp hmem with rfl | hmem
  · rw [hannex] at hid
    cases hid
  · -- what is around a node that is read is around the algorithm
    rw [hdoc.ancestors_eq hparent] at hmem
    rcases List.mem_cons.mp hmem with rfl | hmem
    · exact hout (List.mem_cons_of_mem _ habove)
    · exact hout (List.mem_cons_of_mem _ (hdoc.ancestors_subset habove hmem))

end Agreement

end Scope

/-! ## 2. What is said about variables -/

/-- The markup between the tags of an element. -/
def Document.markup? (doc : Document) (id : NodeId) : Option Text :=
  (doc.element? id).bind fun e => ((doc.inner e).toOption.bind fun found => found).map Prod.snd

theorem Document.start_of_inner {doc : Document} {e : Element} {base : Nat} {text : Text}
    (h : doc.inner e = .ok (some (base, text))) : base = e.startTag.stop := by
  rw [Document.inner] at h
  obtain ⟨whole, -, h⟩ := bind_eq_ok_iff.mp h
  split at h
  · cases h
  · dsimp only at h
    split at h
    · cases h
    · cases h
      rfl

namespace Lint

open Markup

/-- What a diagnostic says about a variable of an algorithm whose markup begins at `start`. -/
def variableFinding? (algorithm : NodeId) (start : Nat) (d : Diagnostic) : Option (Finding Scope.Problem) :=
  match d.problem, d.location with
  | .scope problem, .inElement id offset => if id = algorithm then some ⟨problem, offset - start⟩ else none
  | _, _ => none

/-- What is said about the variables of an algorithm, with the places in its markup. -/
def variableFindings (doc : Document) (algorithm : NodeId) (found : List Diagnostic) :
    List (Finding Scope.Problem) :=
  found.filterMap (variableFinding? algorithm (((doc.element? algorithm).map fun e => e.startTag.stop).getD 0))

section Findings

variable {doc : Document} {algorithm : NodeId}

theorem variableFindings_append (doc : Document) (algorithm : NodeId) (found others : List Diagnostic) :
    variableFindings doc algorithm (found ++ others) =
      variableFindings doc algorithm found ++ variableFindings doc algorithm others :=
  List.filterMap_append

theorem variableFindings_eq_nil {found : List Diagnostic}
    (h : ∀ d ∈ found, ∀ start, variableFinding? algorithm start d = none) :
    variableFindings doc algorithm found = [] :=
  List.filterMap_eq_nil_iff.mpr fun d hd => h d hd _

theorem variableFindings_map_eq_nil {α : Type} {f : α → Diagnostic}
    (h : ∀ x start, variableFinding? algorithm start (f x) = none) (l : List α) :
    variableFindings doc algorithm (l.map f) = [] := by
  refine variableFindings_eq_nil fun d hd => ?_
  obtain ⟨x, -, rfl⟩ := List.mem_map.mp hd
  exact h x

theorem variableFindings_spelling (doc : Document) (algorithm : NodeId) (options : Options) :
    variableFindings doc algorithm (if options.spelling then spelling doc else []) = [] := by
  split
  · refine variableFindings_eq_nil fun d hd start => ?_
    obtain ⟨⟨source, i⟩, -, hd⟩ := List.mem_flatMap.mp hd
    obtain ⟨misspelling, -, rfl⟩ := List.mem_map.mp hd
    rfl
  · rfl

/-- Only the checks of algorithms say something about variables. -/
theorem variableFindings_diagnostics {options : Options} {found : List Diagnostic}
    (h : diagnostics readers options doc = .ok found) {outcome : Collection.Outcome}
    (hcollect : Collection.collect doc options.annex = .ok outcome) :
    (outcome.collection = none ∧ variableFindings doc algorithm found = []) ∨
      ∃ collection checked, outcome.collection = some collection ∧
        collection.algorithms.mapM (checkAlgorithm readers doc options.annex) = .ok checked ∧
        variableFindings doc algorithm found =
          variableFindings doc algorithm (checked.flatten.map .ofComplaint) := by
  obtain ⟨others, hothers, h⟩ := bind_eq_ok_iff.mp h
  cases h
  -- only what is found in algorithms is about variables
  have hnil : ∀ {α : Type} (f : α → Problem) (complaints : List (Complaint α)),
      (∀ c start, variableFinding? algorithm start (.ofComplaint (Complaint.map f c)) = none) →
        variableFindings doc algorithm ((complaints.map (.map f)).map .ofComplaint) = [] := by
    intro α f complaints hf
    rw [List.map_map]
    exact variableFindings_map_eq_nil hf _
  rw [variableFindings_append, variableFindings_spelling, List.nil_append]
  obtain ⟨outcome', hcollect', hcases⟩ := complaints_cases hothers
  rw [hcollect] at hcollect'
  cases hcollect'
  rcases hcases with ⟨hnone, rfl⟩ | ⟨collection, grammar, checked, headers, hsome, -, hchecked, -, rfl⟩
  · exact .inl ⟨hnone, hnil _ _ fun _ _ => rfl⟩
  · refine .inr ⟨collection, checked, hsome, hchecked, ?_⟩
    simp only [List.map_append, variableFindings_append]
    rw [hnil _ _ fun _ _ => rfl, hnil _ _ fun _ _ => rfl, hnil _ _ fun _ _ => rfl, List.nil_append,
      List.nil_append, List.append_nil]

/-- What an algorithm is complained about for is found in its markup. -/
theorem checkAlgorithm_cases {annex : Text} {c : Collection.Algorithm} {complaints : List (Complaint Problem)}
    (h : checkAlgorithm readers doc annex c = .ok complaints) :
    (doc.markup? c.element = none ∧ complaints = []) ∨
      ∃ e text findings, doc.element? c.element = some e ∧ doc.markup? c.element = some text ∧
        textFindings readers doc annex c text = .ok findings ∧
        complaints = findings.map (Finding.complaint c.element e.startTag.stop) := by
  rcases checkAlgorithm_parts h with ⟨hnone, rfl⟩ | ⟨e, base, text, findings, he, hinner, hfindings, rfl⟩
  · refine .inl ⟨Option.bind_eq_none_iff.mpr fun e he => ?_, rfl⟩
    rw [hnone e he]
    rfl
  · rw [Document.start_of_inner hinner]
    refine .inr ⟨e, text, findings, he, ?_, hfindings, rfl⟩
    rw [Document.markup?, he, Option.bind_some, hinner]
    rfl

/-- A finding about a variable. -/
def ofVariable? (f : Finding Problem) : Option (Finding Scope.Problem) :=
  match f.problem with
  | .scope problem => some ⟨problem, f.offset⟩
  | _ => none

theorem variableFinding?_complaint (algorithm : NodeId) (start : Nat) (f : Finding Problem) :
    variableFinding? algorithm start (.ofComplaint (f.complaint algorithm start)) = ofVariable? f := by
  obtain ⟨problem, offset⟩ := f
  cases problem with
  | scope problem =>
    show (if algorithm = algorithm then some (⟨problem, start + offset - start⟩ : Finding Scope.Problem)
      else none) = _
    rw [if_pos rfl, Nat.add_sub_cancel_left]
    rfl
  | _ => rfl

theorem variableFinding?_of_ne {id : NodeId} (h : id ≠ algorithm) (start base : Nat) (f : Finding Problem) :
    variableFinding? algorithm start (.ofComplaint (f.complaint id base)) = none := by
  obtain ⟨problem, offset⟩ := f
  cases problem with
  | scope problem => exact if_neg h
  | _ => rfl

theorem variableFindings_complaint {e : Element} (he : doc.element? algorithm = some e)
    (findings : List (Finding Problem)) :
    variableFindings doc algorithm
        ((findings.map (Finding.complaint algorithm e.startTag.stop)).map .ofComplaint) =
      findings.filterMap ofVariable? := by
  rw [variableFindings, he, List.filterMap_map, List.filterMap_map]
  congr 1
  funext f
  exact variableFinding?_complaint algorithm e.startTag.stop f

theorem variableFindings_of_ne {annex : Text} {c : Collection.Algorithm} {complaints : List (Complaint Problem)}
    (h : checkAlgorithm readers doc annex c = .ok complaints) (hne : c.element ≠ algorithm) :
    variableFindings doc algorithm (complaints.map .ofComplaint) = [] := by
  rcases checkAlgorithm_cases h with ⟨-, rfl⟩ | ⟨e, text, findings, -, -, -, rfl⟩
  · rfl
  · rw [List.map_map]
    exact variableFindings_map_eq_nil (fun f start => variableFinding?_of_ne hne start _ f) _

end Findings

section Agreement

variable {doc other : Document} {annex : Text} {a : NodeId}

theorem textFindings_eq (hlike : doc.IsLike other) {c : Collection.Algorithm}
    (hseeds : Scope.seeds other annex c.element = Scope.seeds doc annex c.element) (text : Text) :
    textFindings readers other annex c text = textFindings readers doc annex c text := by
  have hscope : scopeFindings other annex c = scopeFindings doc annex c := by
    funext list cache
    rw [scopeFindings, scopeFindings, hlike.attribute?_eq, hseeds]
  rw [textFindings, textFindings, hscope]

/-- The same is said about the variables of one algorithm, whatever is said about others. -/
theorem variableFindings_checkAlgorithm_eq (hlike : doc.IsLike other) {algorithm : NodeId}
    (hseeds : Scope.seeds other annex algorithm = Scope.seeds doc annex algorithm)
    (hmarkup : other.markup? algorithm = doc.markup? algorithm) {c : Collection.Algorithm}
    {found found' : List (Complaint Problem)} (h : checkAlgorithm readers doc annex c = .ok found)
    (h' : checkAlgorithm readers other annex c = .ok found') :
    variableFindings other algorithm (found'.map .ofComplaint) =
      variableFindings doc algorithm (found.map .ofComplaint) := by
  by_cases hc : c.element = algorithm
  · subst hc
    rcases checkAlgorithm_cases h with ⟨hnone, rfl⟩ | ⟨e, text, findings, he, htext, hfindings, rfl⟩
    · rcases checkAlgorithm_cases h' with ⟨-, rfl⟩ | ⟨e', text', findings', -, htext', -, -⟩
      · rfl
      · rw [htext', hnone] at hmarkup
        cases hmarkup
    · rcases checkAlgorithm_cases h' with ⟨hnone, -⟩ | ⟨e', text', findings', he', htext', hfindings', rfl⟩
      · rw [hnone, htext] at hmarkup
        cases hmarkup
      · rw [htext, htext'] at hmarkup
        cases hmarkup
        rw [textFindings_eq hlike hseeds, hfindings] at hfindings'
        cases hfindings'
        rw [variableFindings_complaint he', variableFindings_complaint he]
  · rw [variableFindings_of_ne h hc, variableFindings_of_ne h' hc]

theorem variableFindings_flatten_eq (hlike : doc.IsLike other) {algorithm : NodeId}
    (hseeds : Scope.seeds other annex algorithm = Scope.seeds doc annex algorithm)
    (hmarkup : other.markup? algorithm = doc.markup? algorithm) {algorithms : List Collection.Algorithm}
    {checked checked' : List (List (Complaint Problem))}
    (h : algorithms.mapM (checkAlgorithm readers doc annex) = .ok checked)
    (h' : algorithms.mapM (checkAlgorithm readers other annex) = .ok checked') :
    variableFindings other algorithm (checked'.flatten.map .ofComplaint) =
      variableFindings doc algorithm (checked.flatten.map .ofComplaint) := by
  induction algorithms generalizing checked checked' with
  | nil =>
    cases h
    cases h'
    rfl
  | cons c algorithms ih =>
    rw [List.mapM_cons] at h h'
    obtain ⟨first, hfirst, h⟩ := bind_eq_ok_iff.mp h
    obtain ⟨rest, hrest, h⟩ := bind_eq_ok_iff.mp h
    obtain ⟨first', hfirst', h'⟩ := bind_eq_ok_iff.mp h'
    obtain ⟨rest', hrest', h'⟩ := bind_eq_ok_iff.mp h'
    cases h
    cases h'
    rw [List.flatten_cons, List.flatten_cons, List.map_append, List.map_append, variableFindings_append,
      variableFindings_append, variableFindings_checkAlgorithm_eq hlike hseeds hmarkup hfirst hfirst',
      ih hrest hrest']

end Agreement

/-- The outline of an element with both tags. -/
def outlineOf (parent : Option NodeId) (name : String) (ids : List String) (children : List NodeId) : Node :=
  ⟨parent, .element ⟨name.toList, ids.map fun id => ⟨"id".toList, id.toList⟩, children, 0, ⟨0, 0⟩, some ⟨0, 0⟩⟩⟩

/-- Take two texts whose documents have the same tree and differ only in the text inside an element with the id
of the annex, and let no header with it have the title of early errors in one of them only. The same is said
about the variables of an algorithm outside that element, at the same places of its markup, if no node that the
search for names reads holds that element. -/
theorem variableFindings_eq_of_differInAnnex {filename filename' : Path} {text text' : Text}
    (options : Options) {a algorithm : NodeId}
    (hdiffer : Collection.DifferInAnnex (read filename text) (read filename' text') options.annex a)
    (hout : a ∉ algorithm :: (read filename text).ancestors algorithm)
    (hmarkup : (read filename' text').markup? algorithm = (read filename text).markup? algorithm)
    (hread : ∀ node ∈ Scope.nodesRead (read filename text) options.annex algorithm
      ((read filename text).ancestors algorithm), node ∉ (read filename text).ancestors a) :
    ∃ found found', diagnostics readers options (read filename text) = .ok found ∧
      diagnostics readers options (read filename' text') = .ok found' ∧
      variableFindings (read filename' text') algorithm found' =
        variableFindings (read filename text) algorithm found := by
  have htree := isTree_read filename text
  obtain ⟨pos, hsound⟩ := sound_read filename text
  obtain ⟨pos', hsound'⟩ := sound_read filename' text'
  obtain ⟨found, hfound, -⟩ := (yields_diagnostics hsound options).eq_ok
  obtain ⟨found', hfound', -⟩ := (yields_diagnostics hsound' options).eq_ok
  refine ⟨found, found', hfound, hfound', ?_⟩
  obtain ⟨outcome, outcome', hcollect, hcollect', hcollection⟩ := hdiffer.collection_eq htree hsound hsound'
  rcases variableFindings_diagnostics hfound hcollect with
    ⟨hnone, hnil⟩ | ⟨collection, checked, hsome, hchecked, hfindings⟩
  · rcases variableFindings_diagnostics hfound' hcollect' with
      ⟨-, hnil'⟩ | ⟨collection', checked', hsome', -, -⟩
    · rw [hnil, hnil']
    · rw [hsome', hnone] at hcollection
      cases hcollection
  · rcases variableFindings_diagnostics hfound' hcollect' with
      ⟨hnone', -⟩ | ⟨collection', checked', hsome', hchecked', hfindings'⟩
    · rw [hnone', hsome] at hcollection
      cases hcollection
    · rw [hsome', hsome] at hcollection
      cases hcollection
      rw [hfindings, hfindings']
      exact variableFindings_flatten_eq hdiffer.agrees.isLike
        (Scope.seeds_eq hdiffer.agrees htree (decide_eq_true hdiffer.isAnnex) hout hread) hmarkup hchecked hchecked'

/-- The annex stands before the algorithm, and the search ends there. -/
theorem variableFindings_eq_of_differInAnnex_before :
    let page := fun inAnnex : String =>
      read []
        ("<emu-annex id=b>" ++ inAnnex ++ "</emu-annex>_y_<emu-alg>1. Return _x_ + _y_.</emu-alg>").toList
    let options : Options := ⟨"b".toList, false⟩
    ∃ found found', diagnostics readers options (page "_x_") = .ok found ∧
      diagnostics readers options (page "Other text.") = .ok found' ∧
      variableFindings (page "Other text.") 4 found' = variableFindings (page "_x_") 4 found := by
  intro page options
  have hlike : (page "_x_").IsLike (page "Other text.") :=
    calc (page "Other text.").nodes.map Node.outline
      _ = [outlineOf none "#document" [] [1, 3, 4], outlineOf (some 0) "emu-annex" ["b"] [2],
            ⟨some 1, .text 0 ⟨0, 0⟩⟩, ⟨some 0, .text 0 ⟨0, 0⟩⟩, outlineOf (some 0) "emu-alg" [] [5],
            ⟨some 4, .text 0 ⟨0, 0⟩⟩] := by decide +kernel
      _ = (page "_x_").nodes.map Node.outline := by decide +kernel
  have hdiffer : Collection.DifferInAnnex (page "_x_") (page "Other text.") options.annex 1 :=
    ⟨⟨hlike, by decide +kernel⟩, by decide +kernel, by decide +kernel⟩
  exact variableFindings_eq_of_differInAnnex options hdiffer (by decide +kernel) (by decide +kernel)
    (by decide +kernel)

/-- A page with the annex inside a node before the algorithm. -/
def annexInside (inAnnex : String) : Document :=
  read []
    ("<div><emu-annex id=b>" ++ inAnnex ++ "</emu-annex></div><emu-alg>1. Return _x_.</emu-alg>").toList

/-- A page on which the annex is the header of a clause. -/
def annexTitle (title : String) : Document :=
  read []
    ("<emu-clause><h1 id=b>" ++ title ++ "</h1><emu-alg>1. Return _x_.</emu-alg></emu-clause>").toList

def saidOn (page : Document) : Except Fault (List (Finding Scope.Problem)) :=
  (diagnostics readers ⟨"b".toList, false⟩ page).map (variableFindings page 4)

theorem agreesOutside_annexInside : (annexInside "_x_").AgreesOutside (annexInside "_y_") 2 := by
  have hlike : (annexInside "_x_").IsLike (annexInside "_y_") :=
    calc (annexInside "_y_").nodes.map Node.outline
      _ = [outlineOf none "#document" [] [1, 4], outlineOf (some 0) "div" [] [2],
            outlineOf (some 1) "emu-annex" ["b"] [3], ⟨some 2, .text 0 ⟨0, 0⟩⟩,
            outlineOf (some 0) "emu-alg" [] [5], ⟨some 4, .text 0 ⟨0, 0⟩⟩] := by decide +kernel
      _ = (annexInside "_x_").nodes.map Node.outline := by decide +kernel
  exact ⟨hlike, by decide +kernel⟩

theorem agreesOutside_annexTitle :
    (annexTitle "A").AgreesOutside (annexTitle "Static Semantics: Early Errors") 2 := by
  have hlike : (annexTitle "A").IsLike (annexTitle "Static Semantics: Early Errors") :=
    calc (annexTitle "Static Semantics: Early Errors").nodes.map Node.outline
      _ = [outlineOf none "#document" [] [1], outlineOf (some 0) "emu-clause" [] [2, 4],
            outlineOf (some 1) "h1" ["b"] [3], ⟨some 2, .text 0 ⟨0, 0⟩⟩,
            outlineOf (some 1) "emu-alg" [] [5], ⟨some 4, .text 0 ⟨0, 0⟩⟩] := by decide +kernel
      _ = (annexTitle "A").nodes.map Node.outline := by decide +kernel
  exact ⟨hlike, by decide +kernel⟩

/-- The search reads an annex inside a node before the algorithm. An annex that is the header of a clause can
give it the title of early errors, and then nothing is said about variables. -/
theorem variables_depend_on_annex :
    ((annexInside "_x_").AgreesOutside (annexInside "_y_") 2 ∧
      Scope.hasId (annexInside "_x_") 2 "b".toList = true ∧ 2 ∉ (annexInside "_x_").ancestors 4 ∧
      (annexInside "_y_").markup? 4 = (annexInside "_x_").markup? 4 ∧
      saidOn (annexInside "_x_") = .ok [] ∧
      saidOn (annexInside "_y_") = .ok [⟨.useBeforeDeclaration "x".toList, 10⟩]) ∧
    ((annexTitle "A").AgreesOutside (annexTitle "Static Semantics: Early Errors") 2 ∧
      Scope.hasId (annexTitle "A") 2 "b".toList = true ∧ 2 ∉ (annexTitle "A").ancestors 4 ∧
      (annexTitle "Static Semantics: Early Errors").markup? 4 = (annexTitle "A").markup? 4 ∧
      saidOn (annexTitle "A") = .ok [⟨.useBeforeDeclaration "x".toList, 10⟩] ∧
      saidOn (annexTitle "Static Semantics: Early Errors") = .ok []) :=
  ⟨⟨agreesOutside_annexInside, by decide +kernel⟩, agreesOutside_annexTitle, by decide +kernel⟩

end Lint
end Errata
