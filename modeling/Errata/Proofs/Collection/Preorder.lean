import Errata.Proofs.Collection
import Errata.Proofs.Document.Depiction

/-!
# What is collected

If there is a collection, its algorithms, definitions of grammar and operations are those nodes of the
document, in the order of the tree, that have the right name and attributes and nothing around them that
hides them. What stands around a node is told from its ancestors, with no regard to the walk.
-/

namespace Errata.Collection

/-! ## 1. What there is to collect -/

/-- Which of the given kinds of elements a node is or has around it. -/
def contextOf (doc : Document) (annex : Text) (id : NodeId) : Context where
  inAnnex := (id :: doc.ancestors id).any fun a => doc.attribute? a "id".toList = some annex
  inExample := (id :: doc.ancestors id).any fun a => doc.isNamed a exampleName
  inDeleted := (id :: doc.ancestors id).any fun a => doc.isNamed a deletedName

/-- Nodes in algorithms and in grammar are not looked at. -/
def isOutermost (doc : Document) (id : NodeId) : Bool :=
  (doc.ancestors id).all fun a => !doc.isNamed a algorithmName && !doc.isNamed a grammarName

def hasEndTag (doc : Document) (id : NodeId) : Bool := (doc.element? id).any (·.endTag.isSome)

def isExample (doc : Document) (id : NodeId) : Bool :=
  (doc.attribute? id "example".toList).isSome ||
    doc.attribute? id "type".toList = some "example".toList

/-- An algorithm that counts, closed or not. -/
def isAlgorithm (doc : Document) (id : NodeId) : Bool :=
  doc.isNamed id algorithmName && isOutermost doc id && !isExample doc id

/-- Grammar that counts. -/
def isGrammar (doc : Document) (annex : Text) (id : NodeId) : Bool :=
  doc.isNamed id grammarName && isOutermost doc id && !(contextOf doc annex id).inAnnex &&
    !(contextOf doc annex id).inDeleted

def isDefinition (doc : Document) (id : NodeId) : Bool :=
  doc.attribute? id "type".toList = some "definition".toList

/-- Grammar that is no definition belongs to the algorithm that follows it. -/
def operation? (doc : Document) (annex : Text) (id : NodeId) : Option Operation :=
  if isGrammar doc annex id && !isDefinition doc id then
    ((doc.nextElement? id).filter fun next => doc.isNamed next algorithmName).map fun next => ⟨id, next⟩
  else none

/-- What is found is what there is to collect among the given nodes. -/
structure Finds (doc : Document) (annex : Text) (ids : List NodeId) (found : Gathered) : Prop where
  algorithms : found.collection.algorithms =
    (ids.filter fun id => isAlgorithm doc id && hasEndTag doc id).map
      fun id => ⟨id, contextOf doc annex id⟩
  complaints : (found.complaints.map fun c => (c.problem.rule, c.element)) =
    (ids.filter fun id => isAlgorithm doc id && !hasEndTag doc id).map
      fun id => (Rule.missingCloseTag, id)
  grammars : found.collection.grammars =
    ids.filter fun id => isGrammar doc annex id && isDefinition doc id
  operations : found.collection.operations = ids.filterMap (operation? doc annex)

namespace Finds

variable {doc : Document} {annex : Text}

theorem append {first second : List NodeId} {a b : Gathered} (ha : Finds doc annex first a)
    (hb : Finds doc annex second b) : Finds doc annex (first ++ second) (a ++ b) := by
  refine ⟨?_, ?_, ?_, ?_⟩
  · rw [List.filter_append, List.map_append, ← ha.algorithms, ← hb.algorithms]
    rfl
  · rw [List.filter_append, List.map_append, ← ha.complaints, ← hb.complaints]
    exact List.map_append
  · rw [List.filter_append, ← ha.grammars, ← hb.grammars]
    rfl
  · rw [List.filterMap_append, ← ha.operations, ← hb.operations]
    rfl

/-- Nodes of other names are passed over, and so are those that have an algorithm or grammar around
them. -/
theorem nothing {ids : List NodeId}
    (h : ∀ id ∈ ids, isOutermost doc id = false ∨
      doc.isNamed id algorithmName = false ∧ doc.isNamed id grammarName = false) :
    Finds doc annex ids .nothing := by
  have halgorithm : ∀ id ∈ ids, isAlgorithm doc id = false := by
    intro id hid
    rcases h id hid with hinner | ⟨hname, -⟩
    · simp [isAlgorithm, hinner]
    · simp [isAlgorithm, hname]
  have hgrammar : ∀ id ∈ ids, isGrammar doc annex id = false := by
    intro id hid
    rcases h id hid with hinner | ⟨-, hname⟩
    · simp [isGrammar, hinner]
    · simp [isGrammar, hname]
  refine ⟨?_, ?_, ?_, ?_⟩
  · rw [List.filter_eq_nil_iff.mpr fun id hid => by simp [halgorithm id hid]]
    rfl
  · rw [List.filter_eq_nil_iff.mpr fun id hid => by simp [halgorithm id hid]]
    rfl
  · rw [List.filter_eq_nil_iff.mpr fun id hid => by simp [hgrammar id hid]]
    rfl
  · have hnone : ids.filterMap (operation? doc annex) = [] := by
      rw [List.filterMap_eq_nil_iff]
      intro id hid
      simp [operation?, hgrammar id hid]
    rw [hnone]
    rfl

theorem passedOver {id : NodeId} (halgorithm : doc.isNamed id algorithmName = false)
    (hgrammar : doc.isNamed id grammarName = false) : Finds doc annex [id] .nothing := by
  refine .nothing fun x hx => .inr ?_
  rw [List.mem_singleton.mp hx]
  exact ⟨halgorithm, hgrammar⟩

theorem single {id : NodeId} {found : Gathered}
    (halgorithms : found.collection.algorithms =
      if isAlgorithm doc id && hasEndTag doc id then [⟨id, contextOf doc annex id⟩] else [])
    (hcomplaints : (found.complaints.map fun c => (c.problem.rule, c.element)) =
      if isAlgorithm doc id && !hasEndTag doc id then [(Rule.missingCloseTag, id)] else [])
    (hgrammars : found.collection.grammars =
      if isGrammar doc annex id && isDefinition doc id then [id] else [])
    (hoperations : found.collection.operations = (operation? doc annex id).toList) :
    Finds doc annex [id] found := by
  refine ⟨?_, ?_, ?_, ?_⟩
  · rw [halgorithms, List.filter_singleton]
    cases isAlgorithm doc id && hasEndTag doc id <;> rfl
  · rw [hcomplaints, List.filter_singleton]
    cases isAlgorithm doc id && !hasEndTag doc id <;> rfl
  · rw [hgrammars, List.filter_singleton]
    cases isGrammar doc annex id && isDefinition doc id <;> rfl
  · rw [hoperations, List.filterMap_cons]
    cases operation? doc annex id <;> rfl

end Finds

/-! ## 2. One element -/

/-- No grammar is left unclosed. -/
def Gathered.IsClosed (found : Gathered) : Prop := ∀ c ∈ found.complaints, c.problem ≠ .unclosedGrammar

theorem Gathered.IsClosed.append {a b : Gathered} (h : (a ++ b).IsClosed) : a.IsClosed ∧ b.IsClosed :=
  List.forall_mem_append.mp h

/-- The element that the walk takes for the next one is the next one. -/
def IsNext (doc : Document) (id : NodeId) (next : Option Tree) : Prop :=
  next.map Tree.id = doc.nextElement? id ∧
    ∀ t, next = some t → t.isNamed algorithmName = doc.isNamed t.id algorithmName

section Element

variable {doc : Document} {annex : Text} {id : NodeId} {e : Element}

theorem isNamed_of_element? (he : doc.element? id = some e) (name : Text) :
    doc.isNamed id name = decide (e.name = name) := by
  rw [Document.isNamed, Document.name?, he]
  simp

theorem isNamed_eq_false (he : doc.element? id = some e) {name : Text} (hname : e.name ≠ name) :
    doc.isNamed id name = false := by
  rw [isNamed_of_element? he]
  exact decide_eq_false hname

theorem attribute?_of_element? (he : doc.element? id = some e) (name : Text) :
    doc.attribute? id name = e.attribute? name := by
  rw [Document.attribute?, he]
  rfl

theorem contextOf_of_parent? (hdoc : doc.IsTree) (he : doc.element? id = some e) {parent : NodeId}
    (hparent : doc.parent? id = some parent) :
    contextOf doc annex id = (contextOf doc annex parent).enter annex e := by
  rw [contextOf, contextOf, Context.enter, hdoc.ancestors_eq hparent]
  simp only [List.any_cons, isNamed_of_element? he, attribute?_of_element? he, Bool.or_comm]

theorem isOutermost_of_parent? (hdoc : doc.IsTree) {parent : NodeId}
    (hparent : doc.parent? id = some parent) :
    isOutermost doc id = (!doc.isNamed parent algorithmName && !doc.isNamed parent grammarName &&
      isOutermost doc parent) := by
  rw [isOutermost, isOutermost, hdoc.ancestors_eq hparent, List.all_cons]

theorem finds_gatherAlgorithm (he : doc.element? id = some e) (hname : e.name = algorithmName)
    (houter : isOutermost doc id = true) :
    Finds doc annex [id] (gatherAlgorithm (contextOf doc annex id) id e) := by
  have halgorithm : isAlgorithm doc id = !isExample doc id := by
    rw [isAlgorithm, isNamed_of_element? he, hname, houter]
    simp
  have hgrammar : isGrammar doc annex id = false := by
    rw [isGrammar, isNamed_eq_false he (by rw [hname]; decide)]
    rfl
  have hend : hasEndTag doc id = e.endTag.isSome := by
    rw [hasEndTag, he]
    rfl
  have hexample : isExample doc id = ((e.attribute? "example".toList).isSome ||
      decide (e.attribute? "type".toList = some "example".toList)) := by
    rw [isExample, attribute?_of_element? he, attribute?_of_element? he]
  have hno : operation? doc annex id = none := by
    rw [operation?, hgrammar]
    rfl
  unfold gatherAlgorithm
  rw [← hexample, ← hend]
  -- an example counts for nothing; otherwise the end tag decides
  cases hskip : isExample doc id with
  | true =>
    rw [hskip] at halgorithm
    apply Finds.single
    all_goals simp only [halgorithm, hgrammar, hno]; rfl
  | false =>
    rw [hskip] at halgorithm
    cases hclosed : hasEndTag doc id with
    | true =>
      apply Finds.single
      all_goals simp only [halgorithm, hclosed, hgrammar, hno]; rfl
    | false =>
      apply Finds.single
      all_goals simp only [halgorithm, hclosed, hgrammar, hno]; rfl

/-- Grammar, when none is left unclosed. -/
theorem finds_gatherGrammar (he : doc.element? id = some e) (hname : e.name = grammarName)
    (houter : isOutermost doc id = true) {next : Option Tree} (hnext : IsNext doc id next)
    (hclosed : (gatherGrammar (contextOf doc annex id) id e next).IsClosed) :
    Finds doc annex [id] (gatherGrammar (contextOf doc annex id) id e next) := by
  have halgorithm : isAlgorithm doc id = false := by
    rw [isAlgorithm, isNamed_eq_false he (by rw [hname]; decide)]
    rfl
  have hgrammar : isGrammar doc annex id =
      !((contextOf doc annex id).inAnnex || (contextOf doc annex id).inDeleted) := by
    rw [isGrammar, isNamed_of_element? he, hname, houter]
    simp
  have hdefinition : isDefinition doc id =
      decide (e.attribute? "type".toList = some "definition".toList) := by
    rw [isDefinition, attribute?_of_element? he]
  have hopen : ¬ (Gathered.ofComplaint (complaintAt .unclosedGrammar id e)).IsClosed :=
    fun h => h _ List.mem_cons_self rfl
  have hoperation : operation? doc annex id =
      if isGrammar doc annex id && !isDefinition doc id then
        (next.filter fun t => doc.isNamed t.id algorithmName).map fun t => ⟨id, t.id⟩
      else none := by
    rw [operation?, ← hnext.1]
    cases next with
    | none => rfl
    | some t =>
      rw [Option.map_some, Option.filter_some, Option.filter_some]
      cases doc.isNamed t.id algorithmName <;> rfl
  unfold gatherGrammar at hclosed ⊢
  cases hskip : ((contextOf doc annex id).inAnnex || (contextOf doc annex id).inDeleted) with
  | true =>
    rw [hskip] at hgrammar
    apply Finds.single
    all_goals simp only [halgorithm, hgrammar, hoperation]; rfl
  | false =>
    rw [hskip] at hgrammar hclosed
    by_cases hdef : e.attribute? "type".toList = some "definition".toList
    · rw [decide_eq_true hdef] at hdefinition
      by_cases hend : e.endTag.isSome = true
      · rw [if_neg Bool.false_ne_true, if_pos hdef, if_pos hend]
        apply Finds.single
        all_goals simp only [halgorithm, hgrammar, hdefinition, hoperation]; rfl
      · rw [if_neg Bool.false_ne_true, if_pos hdef, if_neg hend] at hclosed
        exact absurd hclosed hopen
    · rw [decide_eq_false hdef] at hdefinition
      rw [if_neg Bool.false_ne_true, if_neg hdef] at hclosed ⊢
      cases next with
      | none =>
        apply Finds.single
        all_goals simp only [halgorithm, hgrammar, hdefinition, hoperation]; rfl
      | some following =>
        -- the fragment counts only if the next element is an algorithm
        dsimp only at hclosed ⊢
        rw [hnext.2 following rfl] at hclosed ⊢
        cases hnamed : doc.isNamed following.id algorithmName with
        | false =>
          have hno : operation? doc annex id = none := by
            rw [hoperation, hgrammar, hdefinition]
            simp [hnamed]
          apply Finds.single
          all_goals simp only [halgorithm, hgrammar, hdefinition, hno]; rfl
        | true =>
          have hyes : operation? doc annex id = some ⟨id, following.id⟩ := by
            rw [hoperation, hgrammar, hdefinition]
            simp [hnamed]
          rw [hnamed] at hclosed
          by_cases hend : e.endTag.isSome = true
          · rw [if_neg (by decide), if_pos hend]
            apply Finds.single
            all_goals simp only [halgorithm, hgrammar, hdefinition, hyes]; rfl
          · rw [if_neg (by decide), if_neg hend] at hclosed
            exact absurd hclosed hopen

/-- A clause has nothing of its own but headers, early errors and grammar without an end tag. -/
theorem gatherClause_cases {context : Context} {children : List Tree} {own : Gathered}
    (h : gatherClause doc context id e children = .ok own) :
    own.collection.algorithms = [] ∧ own.collection.grammars = [] ∧ own.collection.operations = [] ∧
      ∀ c ∈ own.complaints, c.problem = .unclosedGrammar := by
  have hheader : ∀ header : Header, (Gathered.ofHeader header).collection.algorithms = [] ∧
      (Gathered.ofHeader header).collection.grammars = [] ∧
      (Gathered.ofHeader header).collection.operations = [] ∧
      ∀ c ∈ (Gathered.ofHeader header).complaints, c.problem = .unclosedGrammar :=
    fun header => ⟨rfl, rfl, rfl, List.forall_mem_nil _⟩
  unfold gatherClause at h
  split at h
  · cases h
    exact ⟨rfl, rfl, rfl, List.forall_mem_nil _⟩
  split at h
  · cases h
    exact ⟨rfl, rfl, rfl, List.forall_mem_nil _⟩
  dsimp only at h
  split at h
  · cases h
    exact hheader _
  split at h
  · cases h
  split at h
  · -- the early errors follow the header
    unfold gatherEarlyErrors at h
    split at h
    · cases h
    · rename_i groups hgroups
      cases h
      refine ⟨rfl, rfl, rfl, fun c hc => ?_⟩
      obtain ⟨group, -, hc⟩ := List.mem_flatMap.mp hc
      unfold unclosed at hc
      split at hc
      · exact absurd hc List.not_mem_nil
      · rw [List.mem_singleton.mp hc]
        rfl
  · cases h
    exact hheader _

end Element

/-! ## 3. The walk -/

section Walk

variable {doc : Document} {annex : Text}

theorem ne_of_mem_clauseNames :
    ∀ name ∈ clauseNames, name ≠ algorithmName ∧ name ≠ grammarName := by
  decide

theorem finds_gatherClause {id : NodeId} {e : Element} (he : doc.element? id = some e)
    (hname : clauseNames.contains e.name = true) {context : Context} {children : List Tree}
    {own : Gathered} (h : gatherClause doc context id e children = .ok own) (hclosed : own.IsClosed) :
    Finds doc annex [id] own := by
  obtain ⟨halgorithms, hgrammars, hoperations, hcomplaints⟩ := gatherClause_cases h
  have hnone : own.complaints = [] := by
    rw [List.eq_nil_iff_forall_not_mem]
    exact fun c hc => hclosed c hc (hcomplaints c hc)
  have hne := ne_of_mem_clauseNames e.name (List.contains_iff_mem.mp hname)
  have hpassed : Finds doc annex [id] .nothing :=
    .passedOver (isNamed_eq_false he hne.1) (isNamed_eq_false he hne.2)
  refine ⟨?_, ?_, ?_, ?_⟩
  · rw [halgorithms]
    exact hpassed.algorithms
  · rw [hnone]
    exact hpassed.complaints
  · rw [hgrammars]
    exact hpassed.grammars
  · rw [hoperations]
    exact hpassed.operations

/-- The node below which a walk goes on: nothing is hidden there. -/
structure IsEntered (doc : Document) (parent : NodeId) : Prop where
  algorithm : doc.isNamed parent algorithmName = false
  grammar : doc.isNamed parent grammarName = false
  outermost : isOutermost doc parent = true

theorem IsEntered.isOutermost (hdoc : doc.IsTree) {id parent : NodeId} (h : IsEntered doc parent)
    (hparent : doc.parent? id = some parent) : isOutermost doc id = true := by
  rw [isOutermost_of_parent? hdoc hparent, h.algorithm, h.grammar, h.outermost]
  rfl

theorem isNext_find? (hdoc : doc.IsTree) {parent : NodeId} {before : List NodeId} {t : Tree}
    {rest : List Tree} (hchildren : doc.children parent = before ++ (t :: rest).map Tree.id)
    (hdepicts : ∀ t' ∈ t :: rest, t'.Depicts doc (some parent)) :
    IsNext doc t.id (rest.find? Tree.isElement) := by
  obtain ⟨ht, hrest⟩ := List.forall_mem_cons.mp hdepicts
  have hsame : rest.find? Tree.isElement = rest.find? fun t' => doc.isElement t'.id := by
    rw [← List.head?_filter, ← List.head?_filter]
    rw [List.filter_congr fun t' ht' => (hrest t' ht').isElement_eq]
  refine ⟨?_, fun next hnext => ?_⟩
  · rw [hdoc.nextElement?_eq ht.parent?_eq hchildren, List.find?_map, hsame]
    rfl
  · exact (hrest next (List.mem_of_find?_eq_some hnext)).isNamed_eq algorithmName

/-- A walk over siblings finds what walks over each of them find. -/
theorem finds_gather (hdoc : doc.IsTree) {parent : NodeId} {before : List NodeId} {ts : List Tree}
    (hchildren : doc.children parent = before ++ ts.map Tree.id)
    (hdepicts : ∀ t ∈ ts, t.Depicts doc (some parent)) {context : Context}
    (heach : ∀ t ∈ ts, ∀ next found, IsNext doc t.id next →
      gatherNode doc annex t context next = .ok found → found.IsClosed → Finds doc annex t.ids found)
    {found : Gathered} (h : gather doc annex ts context = .ok found) (hclosed : found.IsClosed) :
    Finds doc annex (Tree.ids.idsAll ts) found := by
  induction ts generalizing before found with
  | nil =>
    cases h
    exact .nothing (List.forall_mem_nil _)
  | cons t rest ih =>
    rw [gather] at h
    obtain ⟨first, hfirst, h⟩ := bind_eq_ok_iff.mp h
    obtain ⟨others, hothers, h⟩ := bind_eq_ok_iff.mp h
    cases h
    obtain ⟨hclosedFirst, hclosedOthers⟩ := hclosed.append
    have hnext := isNext_find? hdoc hchildren hdepicts
    rw [List.forall_mem_cons] at hdepicts heach
    have hbehind : doc.children parent = (before ++ [t.id]) ++ rest.map Tree.id := by
      rw [hchildren, List.map_cons, List.append_assoc]
      rfl
    exact (heach.1 _ first hnext hfirst hclosedFirst).append
      (ih hbehind hdepicts.2 heach.2 hothers hclosedOthers)

theorem finds_gatherNode (hdoc : doc.IsTree) {t : Tree} {above : Option NodeId}
    (ht : t.Depicts doc above) {parent : NodeId} (habove : above = some parent)
    (hentered : IsEntered doc parent) {next : Option Tree} (hnext : IsNext doc t.id next)
    {found : Gathered} (h : gatherNode doc annex t (contextOf doc annex parent) next = .ok found)
    (hclosed : found.IsClosed) : Finds doc annex t.ids found := by
  induction ht generalizing parent next found with
  | @text above id source span hnode =>
    cases h
    refine .nothing fun x hx => .inr ?_
    have hnone : doc.element? id = none := by rw [Document.element?, hnode]; rfl
    rw [List.mem_singleton.mp hx, Document.isNamed, Document.isNamed, Document.name?, hnone]
    exact ⟨rfl, rfl⟩
  | @element above id e children hnode hids hchildren ih =>
    subst habove
    have hdepicts := Tree.Depicts.element hnode hids hchildren
    have hparent := hdepicts.parent?_eq
    have he := Document.element?_eq_some_of_node? hnode
    have houter := hentered.isOutermost hdoc hparent
    -- below an algorithm or grammar nothing counts
    have hhidden : e.name = algorithmName ∨ e.name = grammarName →
        Finds doc annex (Tree.ids.idsAll children) .nothing := by
      intro hname
      refine .nothing fun x hx => .inl ?_
      have haround := hdepicts.mem_ancestors hdoc hx
      rw [isOutermost, List.all_eq_false]
      refine ⟨id, haround, ?_⟩
      rw [isNamed_of_element? he, isNamed_of_element? he]
      rcases hname with hname | hname
      · simp [hname]
      · simp [hname]
    -- below any other element the walk goes on
    have hbelow : e.name ≠ algorithmName → e.name ≠ grammarName → ∀ {below : Gathered},
        gather doc annex children (contextOf doc annex id) = .ok below → below.IsClosed →
        Finds doc annex (Tree.ids.idsAll children) below := by
      intro halgorithm hgrammar below hgather hclosed
      have hentered' : IsEntered doc id :=
        ⟨isNamed_eq_false he halgorithm, isNamed_eq_false he hgrammar, houter⟩
      have hlist : doc.children id = [] ++ children.map Tree.id := by
        rw [Document.children_eq he, hids]
        rfl
      exact finds_gather hdoc hlist hchildren
        (fun t ht next found hnext h hclosed => ih t ht rfl hentered' hnext h hclosed) hgather hclosed
    rw [gatherNode, ← contextOf_of_parent? hdoc he hparent] at h
    show Finds doc annex ([id] ++ Tree.ids.idsAll children) found
    split at h
    · rename_i hclause
      have hne := ne_of_mem_clauseNames e.name (List.contains_iff_mem.mp hclause)
      obtain ⟨own, hown, h⟩ := bind_eq_ok_iff.mp h
      obtain ⟨below, hgather, h⟩ := bind_eq_ok_iff.mp h
      cases h
      obtain ⟨hclosedOwn, hclosedBelow⟩ := hclosed.append
      exact (finds_gatherClause he hclause hown hclosedOwn).append
        (hbelow hne.1 hne.2 hgather hclosedBelow)
    split at h
    · rename_i hname
      cases h
      rw [← Gathered.append_nothing (gatherGrammar ..)]
      exact (finds_gatherGrammar he hname houter hnext hclosed).append (hhidden (.inr hname))
    split at h
    · rename_i hname
      cases h
      rw [← Gathered.append_nothing (gatherAlgorithm ..)]
      exact (finds_gatherAlgorithm he hname houter).append (hhidden (.inl hname))
    · rename_i hgrammar halgorithm
      have hself : Finds doc annex [id] .nothing :=
        .passedOver (isNamed_eq_false he halgorithm) (isNamed_eq_false he hgrammar)
      rw [← Gathered.nothing_append found]
      exact hself.append (hbelow halgorithm hgrammar h hclosed)

/-! ## 4. The whole document -/

/-- The root is no element of the text: it has no attributes and a name that no tag can have. -/
theorem isEntered_root (hdoc : doc.IsTree) : IsEntered doc Document.root := by
  obtain ⟨e, hnode, hname, -⟩ := hdoc.root
  have he := Document.element?_eq_some_of_node? hnode
  refine ⟨isNamed_eq_false he ?_, isNamed_eq_false he ?_, ?_⟩
  · rw [hname]
    decide
  · rw [hname]
    decide
  · rw [isOutermost, hdoc.ancestors_root]
    rfl

theorem contextOf_root (hdoc : doc.IsTree) : contextOf doc annex Document.root = ⟨false, false, false⟩ := by
  obtain ⟨e, hnode, hname, hattributes⟩ := hdoc.root
  have he := Document.element?_eq_some_of_node? hnode
  have hnone : e.attribute? "id".toList = none := by
    rw [Element.attribute?, hattributes]
    rfl
  have hexample : doc.isNamed Document.root exampleName = false :=
    isNamed_eq_false he (by rw [hname]; decide)
  have hdeleted : doc.isNamed Document.root deletedName = false :=
    isNamed_eq_false he (by rw [hname]; decide)
  rw [contextOf, hdoc.ancestors_root]
  simp only [List.any_cons, List.any_nil, attribute?_of_element? he, hnone, hexample, hdeleted]
  rfl

theorem Gathered.isClosed_of_outcome {found : Gathered} {c : Collection}
    (h : found.outcome.collection = some c) : found.IsClosed ∧ found.collection = c := by
  unfold Gathered.outcome at h
  split at h
  · cases h
  · rename_i hclosed
    refine ⟨fun complaint hcomplaint hproblem => hclosed ?_, Option.some.inj h⟩
    exact List.any_eq_true.mpr ⟨complaint, hcomplaint, decide_eq_true hproblem⟩

theorem finds_collect (hdoc : doc.IsTree) {outcome : Outcome} (h : collect doc annex = .ok outcome)
    {c : Collection} (hc : outcome.collection = some c) :
    ∃ t, doc.tree Document.root = .ok t ∧ t.Depicts doc none ∧
      Finds doc annex t.ids ⟨c, outcome.complaints⟩ := by
  unfold collect at h
  obtain ⟨t, ht, h⟩ := bind_eq_ok_iff.mp h
  obtain ⟨hid, hdepicts⟩ := hdoc.depicts_tree ht
  rw [hdoc.parent?_root] at hdepicts
  refine ⟨t, ht, hdepicts, ?_⟩
  obtain ⟨e, hroot, -⟩ := hdoc.root
  cases hdepicts with
  | @text _ id source span hnode =>
    have hid' : id = Document.root := hid
    rw [hid', hroot] at hnode
    cases hnode
  | @element _ id e' children hnode hids hchildren =>
    obtain rfl : id = Document.root := hid
    have he := Document.element?_eq_some_of_node? hnode
    have hentered := isEntered_root hdoc
    have hlist : doc.children Document.root = [] ++ children.map Tree.id := by
      rw [Document.children_eq he, hids]
      rfl
    have hself : Finds doc annex [Document.root] .nothing :=
      .passedOver hentered.algorithm hentered.grammar
    dsimp only at h
    split at h
    · cases h
    · cases h
      cases hc
    · rename_i found hgather
      cases h
      obtain ⟨hclosed, rfl⟩ := Gathered.isClosed_of_outcome hc
      rw [← contextOf_root hdoc] at hgather
      exact hself.append (finds_gather hdoc hlist hchildren
        (fun t ht next found hnext h hclosed =>
          finds_gatherNode hdoc (hchildren t ht) rfl hentered hnext h hclosed) hgather hclosed)

/-- The algorithms, the definitions of grammar and the operations of a collection are those of the
document, each once and in the order of the tree. An algorithm that would be among them but for its end tag
has a complaint, and there are no other complaints. -/
theorem collect_eq_preorder (hdoc : doc.IsTree) {outcome : Outcome}
    (h : collect doc annex = .ok outcome) {c : Collection} (hc : outcome.collection = some c) :
    ∃ t, doc.tree Document.root = .ok t ∧ t.Depicts doc none ∧ t.ids.Nodup ∧
      (c.algorithms.map Algorithm.element).Nodup ∧ Finds doc annex t.ids ⟨c, outcome.complaints⟩ := by
  obtain ⟨t, ht, hdepicts, hfinds⟩ := finds_collect hdoc h hc
  have hnodup := hdepicts.nodup_ids hdoc
  refine ⟨t, ht, hdepicts, hnodup, ?_, hfinds⟩
  rw [hfinds.algorithms, List.map_map]
  exact (hnodup.filter _).map fun _ _ heq => heq

/-- An annex, a deleted grammar, an operation, an algorithm in another and one without an end tag. -/
theorem collect_eq_preorder_annex :
    let page := Markup.read [] ("<emu-annex id=b><emu-grammar>A</emu-grammar><emu-alg>a</emu-alg></emu-annex>" ++
      "<del><emu-grammar type=definition>B</emu-grammar></del><emu-grammar type=definition>C</emu-grammar>" ++
      "<emu-grammar>D</emu-grammar> <emu-alg><emu-alg>d</emu-alg></emu-alg><emu-example><emu-alg>e").toList
    ∃ outcome c t, collect page "b".toList = .ok outcome ∧ outcome.collection = some c ∧
      c.algorithms = [⟨4, ⟨true, false, false⟩⟩, ⟨14, ⟨false, false, false⟩⟩] ∧ c.grammars = [9] ∧
      c.operations = [⟨11, 14⟩] ∧ page.tree Document.root = .ok t ∧ t.Depicts page none ∧ t.ids.Nodup ∧
      (c.algorithms.map Algorithm.element).Nodup ∧
      Finds page "b".toList t.ids ⟨c, outcome.complaints⟩ := by
  intro page
  have hcollect : (collect page "b".toList).toOption.bind Outcome.collection = some
      ⟨[], [9], [⟨11, 14⟩], [], [⟨4, ⟨true, false, false⟩⟩, ⟨14, ⟨false, false, false⟩⟩]⟩ := by
    decide +kernel
  obtain ⟨outcome, houtcome, hc⟩ := Option.bind_eq_some_iff.mp hcollect
  have h : collect page "b".toList = .ok outcome := by
    cases h : collect page "b".toList with
    | error fault =>
      rw [h] at houtcome
      cases houtcome
    | ok outcome' =>
      rw [h] at houtcome
      cases houtcome
      rfl
  obtain ⟨t, ht⟩ := collect_eq_preorder (Markup.isTree_read _ _) h hc
  exact ⟨outcome, _, t, h, hc, rfl, rfl, rfl, ht⟩

end Walk

end Errata.Collection
