import Errata.Proofs.Collection.Unclosed
import Errata.Proofs.Document.Likeness

/-!
# Collections of documents with the same tree

The walk over a document looks at its tree and reads no text but the headers of clauses outside the annex.
So the same is collected from two documents with the same tree, if they agree on those headers.
-/

namespace Errata.Collection

/-! ## 1. Walks that match -/

/-- The same was gathered, up to the positions of complaints. -/
structure Gathered.Matches (found other : Gathered) : Prop where
  collection_eq : other.collection = found.collection
  problems_eq : other.complaints.map Complaint.problem = found.complaints.map Complaint.problem

theorem Gathered.Matches.append {a a' b b' : Gathered} (ha : a.Matches a') (hb : b.Matches b') :
    (a ++ b).Matches (a' ++ b') := by
  refine ⟨?_, ?_⟩
  · show (a'.append b').collection = (a.append b).collection
    rw [Gathered.append, Gathered.append, ha.collection_eq, hb.collection_eq]
  · show (a'.complaints ++ b'.complaints).map _ = (a.complaints ++ b.complaints).map _
    rw [List.map_append, List.map_append, ha.problems_eq, hb.problems_eq]

theorem Gathered.Matches.outcome {found other : Gathered} (h : found.Matches other) :
    other.outcome.collection = found.outcome.collection := by
  have hany : (other.complaints.any fun c => c.problem = .unclosedGrammar) =
      found.complaints.any fun c => c.problem = .unclosedGrammar := by
    have hproblems := congrArg (List.any · (· = Problem.unclosedGrammar)) h.problems_eq
    simp only [List.any_map] at hproblems
    exact hproblems
  rw [Gathered.outcome, Gathered.outcome]
  dsimp only
  rw [hany, h.collection_eq]

/-- Both walks come to their ends and gather the same, or both are stopped by the shape of early errors. -/
inductive WalkMatches : Except Stop Gathered → Except Stop Gathered → Prop
  | ok {found other : Gathered} (h : found.Matches other) : WalkMatches (.ok found) (.ok other)
  | shape (c c' : Complaint Problem) : WalkMatches (.error (.shape c)) (.error (.shape c'))

theorem WalkMatches.append {x x' y y' : Except Stop Gathered} (hx : WalkMatches x x')
    (hy : WalkMatches y y') :
    WalkMatches (do return (← x) ++ (← y)) (do return (← x') ++ (← y')) := by
  cases hx with
  | shape c c' => exact .shape c c'
  | ok hx =>
    cases hy with
    | shape c c' => exact .shape c c'
    | ok hy => exact .ok (hx.append hy)

/-! ## 2. Parts of the walk -/

/-- The elements that follow are the same, as far as it matters. -/
def NextMatches (next next' : Option Tree) : Prop :=
  (next'.map fun t => (t.id, t.isNamed algorithmName)) = next.map fun t => (t.id, t.isNamed algorithmName)

section Parts

variable {e e' : Element} (houtline : e'.outline = e.outline)
include houtline

theorem enter_eq (context : Context) (annex : Text) : context.enter annex e' = context.enter annex e := by
  rw [Context.enter, Context.enter, Element.attribute?_eq_of_outline houtline,
    Element.name_eq_of_outline houtline]

theorem matches_gatherAlgorithm (context : Context) (id : NodeId) :
    (gatherAlgorithm context id e).Matches (gatherAlgorithm context id e') := by
  unfold gatherAlgorithm
  rw [Element.attribute?_eq_of_outline houtline, Element.attribute?_eq_of_outline houtline,
    Element.isSome_endTag_of_outline houtline]
  split
  · exact ⟨rfl, rfl⟩
  split
  · exact ⟨rfl, rfl⟩
  · exact ⟨rfl, rfl⟩

theorem matches_gatherGrammar (context : Context) (id : NodeId) {next next' : Option Tree}
    (hnext : NextMatches next next') :
    (gatherGrammar context id e next).Matches (gatherGrammar context id e' next') := by
  unfold gatherGrammar
  rw [Element.attribute?_eq_of_outline houtline, Element.isSome_endTag_of_outline houtline]
  split
  · exact ⟨rfl, rfl⟩
  split
  · split
    · exact ⟨rfl, rfl⟩
    · exact ⟨rfl, rfl⟩
  cases next with
  | none =>
    rw [NextMatches, Option.map_none, Option.map_eq_none_iff] at hnext
    rw [hnext]
    exact ⟨rfl, rfl⟩
  | some following =>
    obtain ⟨following', rfl, hfollowing⟩ := Option.map_eq_some_iff.mp hnext
    obtain ⟨hid, hnamed⟩ := Prod.mk.inj hfollowing
    dsimp only
    rw [hid, hnamed]
    split
    · exact ⟨rfl, rfl⟩
    split
    · exact ⟨rfl, rfl⟩
    · exact ⟨rfl, rfl⟩

end Parts

/-! ### Early errors -/

/-- A group without positions. -/
def Group.outline (group : Group) : NodeId × List NodeId × Bool :=
  (group.id, group.lists, group.element.endTag.isSome)

theorem problems_unclosed (id : NodeId) (e : Element) :
    (unclosed id e).map Complaint.problem = if e.endTag.isSome then [] else [Problem.unclosedGrammar] := by
  unfold unclosed
  split
  · rfl
  · rfl

/-- Both have the same groups, or neither has the shape of early errors. -/
inductive GroupsMatch :
    Except (Complaint Problem) (List Group) → Except (Complaint Problem) (List Group) → Prop
  | ok {groups others : List Group} (h : others.map Group.outline = groups.map Group.outline) :
      GroupsMatch (.ok groups) (.ok others)
  | error (c c' : Complaint Problem) : GroupsMatch (.error c) (.error c')

theorem GroupsMatch.cons {x x' : Except (Complaint Problem) (List Group)} (h : GroupsMatch x x')
    {group group' : Group} (hgroup : group'.outline = group.outline) :
    GroupsMatch (x.map (group :: ·)) (x'.map (group' :: ·)) := by
  cases h with
  | error c c' => exact .error c c'
  | ok h =>
    refine .ok ?_
    rw [List.map_cons, List.map_cons, hgroup, h]

theorem groupsMatch_groupsOf_nil {clause : NodeId} {e e' : Element} {current current' : Option Group}
    (hcurrent : current'.map Group.outline = current.map Group.outline) :
    GroupsMatch (groupsOf clause e current []) (groupsOf clause e' current' []) := by
  cases current with
  | none =>
    rw [Option.map_none, Option.map_eq_none_iff] at hcurrent
    rw [hcurrent]
    exact .error _ _
  | some group =>
    obtain ⟨group', rfl, hgroup⟩ := Option.map_eq_some_iff.mp hcurrent
    have hlists : group'.lists = group.lists := congrArg (fun x => x.2.1) hgroup
    rw [groupsOf, groupsOf, hlists]
    split
    · exact .error _ _
    · exact .ok (by rw [List.map_singleton, List.map_singleton, hgroup])

theorem groupsMatch_groupsOf_element {clause id : NodeId} {e e' f f' : Element}
    (houtline : f'.outline = f.outline) {below below' rest rest' : List Tree} {current current' : Option Group}
    (hcurrent : current'.map Group.outline = current.map Group.outline)
    (hrest : ∀ next next' : Option Group, next'.map Group.outline = next.map Group.outline →
      GroupsMatch (groupsOf clause e next rest) (groupsOf clause e' next' rest')) :
    GroupsMatch (groupsOf clause e current (.element id f below :: rest))
      (groupsOf clause e' current' (.element id f' below' :: rest')) := by
  have hbegun : Group.outline ⟨id, f', []⟩ = Group.outline ⟨id, f, []⟩ := by
    rw [Group.outline, Group.outline, Element.isSome_endTag_of_outline houtline]
  have hnew : GroupsMatch (groupsOf clause e (some ⟨id, f, []⟩) rest)
      (groupsOf clause e' (some ⟨id, f', []⟩) rest') :=
    hrest _ _ (congrArg some hbegun)
  cases current with
  | none =>
    rw [Option.map_none, Option.map_eq_none_iff] at hcurrent
    rw [hcurrent, groupsOf, groupsOf, Element.name_eq_of_outline houtline]
    split
    · exact hnew
    split
    · exact .error _ _
    · exact hrest _ _ rfl
  | some group =>
    obtain ⟨group', rfl, hgroup⟩ := Option.map_eq_some_iff.mp hcurrent
    have hlists : group'.lists = group.lists := congrArg (fun x => x.2.1) hgroup
    rw [groupsOf, groupsOf, Element.name_eq_of_outline houtline, hlists]
    split
    · split
      · exact .error _ _
      · exact hnew.cons hgroup
    split
    · -- one more list for the group
      have hid : group'.id = group.id := congrArg (fun x => x.1) hgroup
      have hend : group'.element.endTag.isSome = group.element.endTag.isSome :=
        congrArg (fun x => x.2.2) hgroup
      refine hrest _ _ (congrArg some ?_)
      rw [Group.outline, Group.outline, hid, hend]
    · exact hrest _ _ hcurrent

section Clause

variable {doc other : Document} (hlike : doc.IsLike other)
include hlike

theorem groupsMatch_groupsOf {clause : NodeId} {e e' : Element} {above : Option NodeId} {children : List Tree}
    (hchildren : ∀ t ∈ children, t.Depicts doc above) {current current' : Option Group}
    (hcurrent : current'.map Group.outline = current.map Group.outline) :
    GroupsMatch (groupsOf clause e current children)
      (groupsOf clause e' current' (children.map (Tree.takenFrom other))) := by
  induction children generalizing current current' with
  | nil => exact groupsMatch_groupsOf_nil hcurrent
  | cons t rest ih =>
    rw [List.forall_mem_cons] at hchildren
    obtain ⟨ht, hrest⟩ := hchildren
    rw [List.map_cons]
    cases ht with
    | @text _ id source span hnode =>
      obtain ⟨source', span', hother⟩ := hlike.exists_text hnode
      rw [Tree.takenFrom_text hother, groupsOf, groupsOf]
      exact ih hrest hcurrent
    | @element _ id f below hnode hids hbelow =>
      obtain ⟨f', hf', houtline⟩ := hlike.exists_element? (Document.element?_eq_some_of_node? hnode)
      rw [Tree.takenFrom_element hf']
      exact groupsMatch_groupsOf_element houtline hcurrent fun _ _ hnext => ih hrest hnext

theorem walkMatches_gatherEarlyErrors {clause : NodeId} {e e' : Element} {above : Option NodeId}
    {children : List Tree} (hchildren : ∀ t ∈ children, t.Depicts doc above) :
    WalkMatches (gatherEarlyErrors clause e children)
      (gatherEarlyErrors clause e' (children.map (Tree.takenFrom other))) := by
  have hgroups : GroupsMatch (groupsOf clause e none children)
      (groupsOf clause e' none (children.map (Tree.takenFrom other))) :=
    groupsMatch_groupsOf hlike hchildren rfl
  unfold gatherEarlyErrors
  generalize groupsOf clause e none children = groups at hgroups ⊢
  generalize groupsOf clause e' none (children.map (Tree.takenFrom other)) = others at hgroups ⊢
  cases hgroups with
  | error c c' => exact .shape c c'
  | @ok groups others h =>
    -- a group is told by its grammar and its lists, and is complained about if it has no end tag
    have hpairs := congrArg (List.map fun x => (⟨x.1, x.2.1⟩ : EarlyErrors)) h
    have hproblems := congrArg (List.flatMap fun x => if x.2.2 then [] else [Problem.unclosedGrammar]) h
    rw [List.map_map, List.map_map] at hpairs
    rw [List.flatMap_map, List.flatMap_map] at hproblems
    have hunclosed : (fun group : Group => (unclosed group.id group.element).map Complaint.problem) =
        fun group => if group.outline.2.2 then [] else [Problem.unclosedGrammar] :=
      funext fun group => problems_unclosed group.id group.element
    refine .ok ⟨congrArg (fun groups => (Gathered.ofEarlyErrors groups).collection) hpairs, ?_⟩
    dsimp only
    rw [List.map_flatMap, List.map_flatMap, hunclosed]
    exact hproblems

/-- The header and the early errors of a clause match if both have the title of early errors or neither. -/
theorem walkMatches_gatherClause {id : NodeId} {e e' : Element} {above : Option NodeId} {children : List Tree}
    (hchildren : ∀ t ∈ children, t.Depicts doc above) {context : Context}
    (htitle : context.inAnnex = false → ∀ first, children.find? Tree.isElement = some first →
      first.isNamed headerName = true → ∃ title title', doc.textOf first (some deletedName) = .ok title ∧
        other.textOf (first.takenFrom other) (some deletedName) = .ok title' ∧
        (title'.trim = earlyErrorsTitle ↔ title.trim = earlyErrorsTitle)) :
    WalkMatches (gatherClause doc context id e children)
      (gatherClause other context id e' (children.map (Tree.takenFrom other))) := by
  unfold gatherClause
  rw [Tree.find?_isElement_takenFrom]
  cases hfind : children.find? Tree.isElement with
  | none => exact .ok ⟨rfl, rfl⟩
  | some first =>
    have hfirst := hchildren first (List.mem_of_find?_eq_some hfind)
    rw [Option.map_some]
    dsimp only
    rw [Tree.isNamed_takenFrom hlike hfirst, Tree.id_takenFrom]
    cases hnamed : first.isNamed headerName with
    | false => exact .ok ⟨rfl, rfl⟩
    | true =>
      cases hannex : context.inAnnex with
      | true => exact .ok ⟨rfl, rfl⟩
      | false =>
        obtain ⟨title, title', hdoc, hother, hearly⟩ := htitle hannex first hfind hnamed
        rw [hdoc, hother]
        simp only [Bool.not_true, Bool.false_eq_true, if_false, hearly]
        split
        · have hearly : WalkMatches (gatherEarlyErrors id e children)
              (gatherEarlyErrors id e' (children.map (Tree.takenFrom other))) :=
            walkMatches_gatherEarlyErrors hlike hchildren
          generalize gatherEarlyErrors id e children = early at hearly ⊢
          generalize gatherEarlyErrors id e' (children.map (Tree.takenFrom other)) = early' at hearly ⊢
          cases hearly with
          | shape c c' => exact .shape c c'
          | ok h => exact .ok (Gathered.Matches.append ⟨rfl, rfl⟩ h)
        · exact .ok ⟨rfl, rfl⟩

end Clause

/-! ## 3. The walk -/

/-- Whether the node is the header of a clause outside the annex. -/
def isTitle (doc : Document) (annex : Text) (id : NodeId) : Bool :=
  doc.isNamed id headerName && (doc.parent? id).any fun clause =>
    clauseNames.any (doc.isNamed clause) && doc.firstElementChild? clause = some id &&
      !(contextOf doc annex clause).inAnnex

def isEarlyErrorsTitle (doc : Document) (header : NodeId) : Bool :=
  (titleOf doc header).toOption.any (·.trim = earlyErrorsTitle)

section Walk

variable {doc other : Document} {annex : Text}

theorem nextMatches_find? (hlike : doc.IsLike other) {above : Option NodeId} {ts : List Tree}
    (hts : ∀ t ∈ ts, t.Depicts doc above) :
    NextMatches (ts.find? Tree.isElement) ((ts.map (Tree.takenFrom other)).find? Tree.isElement) := by
  rw [NextMatches, Tree.find?_isElement_takenFrom]
  cases hfind : ts.find? Tree.isElement with
  | none => rfl
  | some next =>
    have hnext := hts next (List.mem_of_find?_eq_some hfind)
    simp only [Option.map_some, Tree.isNamed_takenFrom hlike hnext, Tree.id_takenFrom]

theorem walkMatches_gather (hlike : doc.IsLike other) {above : Option NodeId} {ts : List Tree}
    (hts : ∀ t ∈ ts, t.Depicts doc above) {context : Context}
    (heach : ∀ t ∈ ts, ∀ next next', NextMatches next next' →
      WalkMatches (gatherNode doc annex t context next)
        (gatherNode other annex (t.takenFrom other) context next')) :
    WalkMatches (gather doc annex ts context) (gather other annex (ts.map (Tree.takenFrom other)) context) := by
  induction ts with
  | nil => exact .ok ⟨rfl, rfl⟩
  | cons t ts ih =>
    rw [List.forall_mem_cons] at hts heach
    rw [List.map_cons, gather, gather]
    exact (heach.1 _ _ (nextMatches_find? hlike hts.2)).append (ih hts.2 heach.2)

variable {text text' : Text} {pos pos' : Nat} {a : NodeId}

theorem not_mem_of_inAnnex_eq_false {id : NodeId} (hannex : doc.attribute? a "id".toList = some annex)
    (h : (contextOf doc annex id).inAnnex = false) : a ∉ id :: doc.ancestors id := by
  intro hmem
  rw [contextOf, List.any_eq_false] at h
  exact h a hmem (decide_eq_true hannex)

theorem isTitle_of_find? {above : Option NodeId} {id : NodeId} {e : Element} {children : List Tree}
    (h : Tree.Depicts doc above (.element id e children)) (hclause : clauseNames.contains e.name = true)
    (hout : (contextOf doc annex id).inAnnex = false) {first : Tree}
    (hfind : children.find? Tree.isElement = some first) (hnamed : first.isNamed headerName = true) :
    isTitle doc annex first.id = true := by
  have hchild := firstElementChild?_eq h
  rw [hfind, Option.map_some] at hchild
  cases h with
  | element hnode hids hchildren =>
    have he := Document.element?_eq_some_of_node? hnode
    have hfirst := hchildren first (List.mem_of_find?_eq_some hfind)
    rw [isTitle, ← hfirst.isNamed_eq, hnamed, hfirst.parent?_eq]
    simp only [Option.any_some, any_isNamed_clauseNames he, hclause, hchild, hout]
    rfl

/-- The documents differ in an annex only, and no header that it is in has the title of early errors in one of
them and not in the other. -/
structure DifferInAnnex (doc other : Document) (annex : Text) (a : NodeId) : Prop where
  agrees : doc.AgreesOutside other a
  isAnnex : doc.attribute? a "id".toList = some annex
  titles : ∀ header ∈ a :: doc.ancestors a, isTitle doc annex header = true →
    isEarlyErrorsTitle other header = isEarlyErrorsTitle doc header

/-- The title of a clause outside the annex is that of early errors in both documents or in neither. -/
theorem DifferInAnnex.exists_titles (h : DifferInAnnex doc other annex a) (hdoc : doc.IsTree)
    (hsound : doc.Sound text pos) (hsound' : other.Sound text' pos') {id : NodeId}
    (hout : (contextOf doc annex id).inAnnex = false) {first : Tree} (hfirst : first.Depicts doc (some id))
    (htitle : isTitle doc annex first.id = true) :
    ∃ title title', doc.textOf first (some deletedName) = .ok title ∧
      other.textOf (first.takenFrom other) (some deletedName) = .ok title' ∧
      (title'.trim = earlyErrorsTitle ↔ title.trim = earlyErrorsTitle) := by
  have htree := h.agrees.isLike.tree_eq (hfirst.tree_eq hdoc)
  obtain ⟨title, htitleOf, htext⟩ := exists_titleOf_eq hdoc hsound hfirst
  obtain ⟨title', htext', -⟩ := (hsound'.yields_textOf (other.shows_of_tree htree) (some deletedName)).eq_ok
  refine ⟨title, title', htext, htext', ?_⟩
  have houtside : a ∉ doc.ancestors first.id := by
    rw [hdoc.ancestors_eq hfirst.parent?_eq]
    exact not_mem_of_inAnnex_eq_false h.isAnnex hout
  by_cases hin : first.id ∈ a :: doc.ancestors a
  · -- the annex is in the header
    have hsame := h.titles first.id hin htitle
    have htitleOf' : titleOf other first.id = .ok title' := by
      rw [titleOf, htree]
      exact htext'
    rw [isEarlyErrorsTitle, isEarlyErrorsTitle, htitleOf, htitleOf'] at hsame
    exact decide_eq_decide.mp hsame
  · rw [List.mem_cons, not_or] at hin
    have hapart : doc.IsApart a first.id := by
      refine ⟨fun hmem => ?_, hin.2⟩
      rcases List.mem_cons.mp hmem with heq | hmem
      · exact hin.1 heq.symm
      · exact houtside hmem
    rw [h.agrees.textOf_takenFrom hdoc hfirst hapart, htext] at htext'
    cases htext'
    exact Iff.rfl

theorem walkMatches_gatherNode (h : DifferInAnnex doc other annex a) (hdoc : doc.IsTree)
    (hsound : doc.Sound text pos) (hsound' : other.Sound text' pos') {t : Tree}
    {above : Option NodeId} (ht : t.Depicts doc above) {parent : NodeId} (habove : above = some parent)
    {next next' : Option Tree} (hnext : NextMatches next next') :
    WalkMatches (gatherNode doc annex t (contextOf doc annex parent) next)
      (gatherNode other annex (t.takenFrom other) (contextOf doc annex parent) next') := by
  induction ht generalizing parent next next' with
  | @text above id source span hnode =>
    obtain ⟨source', span', hother⟩ := h.agrees.isLike.exists_text hnode
    rw [Tree.takenFrom_text hother]
    exact .ok ⟨rfl, rfl⟩
  | @element above id e children hnode hids hchildren ih =>
    subst habove
    have hdepicts := Tree.Depicts.element hnode hids hchildren
    have he := Document.element?_eq_some_of_node? hnode
    obtain ⟨e', he', houtline⟩ := h.agrees.isLike.exists_element? he
    have hbelow : WalkMatches (gather doc annex children (contextOf doc annex id))
        (gather other annex (children.map (Tree.takenFrom other)) (contextOf doc annex id)) :=
      walkMatches_gather h.agrees.isLike hchildren fun t ht _ _ hnext => ih t ht rfl hnext
    rw [Tree.takenFrom_element he', gatherNode, gatherNode, enter_eq houtline,
      ← contextOf_of_parent? hdoc he hdepicts.parent?_eq, Element.name_eq_of_outline houtline]
    split
    · rename_i hclause
      refine (walkMatches_gatherClause h.agrees.isLike hchildren
        fun hout first hfind hnamed => ?_).append hbelow
      exact h.exists_titles hdoc hsound hsound' hout (hchildren first (List.mem_of_find?_eq_some hfind))
        (isTitle_of_find? hdepicts hclause hout hfind hnamed)
    split
    · exact .ok (matches_gatherGrammar houtline _ id hnext)
    split
    · exact .ok (matches_gatherAlgorithm houtline _ id)
    · exact hbelow

/-- The same is collected from both documents. -/
theorem DifferInAnnex.collection_eq (h : DifferInAnnex doc other annex a) (hdoc : doc.IsTree)
    (hsound : doc.Sound text pos) (hsound' : other.Sound text' pos') :
    ∃ outcome outcome', collect doc annex = .ok outcome ∧ collect other annex = .ok outcome' ∧
      outcome'.collection = outcome.collection := by
  obtain ⟨t, htree, hid, -⟩ := (hsound.yields_treeWithout none hsound.nonempty).eq_ok
  have htree : doc.tree Document.root = .ok t := htree
  have hother := h.agrees.isLike.tree_eq htree
  obtain ⟨-, hdepicts⟩ := hdoc.depicts_tree htree
  rw [hdoc.parent?_root] at hdepicts
  obtain ⟨e, hroot, -⟩ := hdoc.root
  cases hdepicts with
  | @text _ id source span hnode =>
    have hid : id = Document.root := hid
    rw [hid, hroot] at hnode
    cases hnode
  | @element _ id e children hnode hids hchildren =>
    obtain rfl : id = Document.root := hid
    obtain ⟨e', he', -⟩ := h.agrees.isLike.exists_element? (Document.element?_eq_some_of_node? hnode)
    rw [Tree.takenFrom_element he'] at hother
    have hwalk : WalkMatches (gather doc annex children (contextOf doc annex Document.root))
        (gather other annex (children.map (Tree.takenFrom other)) (contextOf doc annex Document.root)) :=
      walkMatches_gather h.agrees.isLike hchildren fun t ht _ _ hnext =>
        walkMatches_gatherNode h hdoc hsound hsound' (hchildren t ht) rfl hnext
    rw [contextOf_root hdoc] at hwalk
    rw [collect, collect, htree, hother]
    dsimp only [bind, Except.bind]
    generalize gather doc annex children ⟨false, false, false⟩ = walk at hwalk ⊢
    generalize gather other annex (children.map (Tree.takenFrom other)) ⟨false, false, false⟩ = walk' at hwalk ⊢
    cases hwalk with
    | shape c c' => exact ⟨_, _, rfl, rfl, rfl⟩
    | ok hmatches => exact ⟨_, _, rfl, rfl, hmatches.outcome⟩

end Walk

end Errata.Collection
