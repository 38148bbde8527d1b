import Errata.Proofs.Collection
import Errata.Proofs.Document.Depiction
import Errata.Proofs.Slices.Text
import Errata.Scope.Seeds

/-!
# Walking over a document by numbers

The walk goes here from number to number: each node is looked up in the table of nodes, and the element after
another is found in a slice of the children of their parent. A number that is not in use and a slice past the
end have no result. In a document that is a tree neither comes to pass, and what is gathered is the same.
-/

namespace Errata

/-! ## 1. Look-ups -/

namespace Document

/-- The element of the node with the given number, unless it is a text node. -/
def elementAt? (doc : Document) (id : NodeId) : Option (Option Element) := do
  return (← doc.nodes[id]?).element?

def parentAt? (doc : Document) (id : NodeId) : Option (Option NodeId) := do
  return (← doc.nodes[id]?).parent

def childrenAt? (doc : Document) (id : NodeId) : Option (List NodeId) := do
  return ((← doc.elementAt? id).map Element.children).getD []

/-- The first of some nodes that is an element. -/
def firstElementAt? (doc : Document) : List NodeId → Option (Option NodeId)
  | [] => return none
  | id :: ids => do if (← doc.elementAt? id).isSome then return some id else doc.firstElementAt? ids

/-- The element that follows a node, in the slice of its parent's children after it. -/
def nextElementAt? (doc : Document) (id : NodeId) : Option (Option NodeId) := do
  match ← doc.parentAt? id with
  | none => return none
  | some parent =>
    let siblings ← doc.childrenAt? parent
    match siblings.findIdx? (· = id) with
    | none => return none
    | some i => if i + 1 ≤ siblings.length then doc.firstElementAt? (siblings.drop (i + 1)) else none

/-- A node without what stands below it. -/
def nodeAt? (doc : Document) (id : NodeId) : Option Tree := do
  match (← doc.nodes[id]?).content with
  | .text source span => return .text id source span
  | .element e => return .element id e []

end Document

/-! ## 2. The walk -/

namespace Collection

def visitClauseAt? (doc : Document) (context : Context) (id : NodeId) (e : Element) :
    Faulting Stop Gathered := do
  let children ← (e.children.mapM doc.nodeAt? : Option (List Tree))
  match children.find? Tree.isElement with
  | none => return .nothing
  | some first =>
    if !first.isNamed headerName then return .nothing
    let header := Gathered.ofHeader ⟨first.id, context.inAnnex⟩
    if context.inAnnex then return header
    match (do doc.textOf (← doc.tree first.id) (some deletedName) : Except Fault Text) with
    | .error fault => throw (.fault fault)
    | .ok title =>
      if title.trim = earlyErrorsTitle then
        return header ++ (← (gatherEarlyErrors id e children : Except Stop Gathered))
      else return header

mutual

def walkNodeAt? (doc : Document) (annex : Text) (id : NodeId) (context : Context) : Faulting Stop Gathered := do
  match ← (doc.elementAt? id : Option (Option Element)) with
  | none => return .nothing
  | some e =>
    let walk : Document → Text → List NodeId → Context → Faulting Stop Gathered := by apply walkAt?
    let inside := context.enter annex e
    if clauseNames.contains e.name then
      let own ← visitClauseAt? doc inside id e
      let below ← walk doc annex e.children inside
      return own ++ below
    else if e.name = grammarName then
      let next ← (doc.nextElementAt? id : Option (Option NodeId))
      let following ← (next.mapM doc.nodeAt? : Option (Option Tree))
      return gatherGrammar inside id e following
    else if e.name = algorithmName then return gatherAlgorithm inside id e
    else walk doc annex e.children inside
partial_fixpoint

def walkAt? (doc : Document) (annex : Text) (ids : List NodeId) (context : Context) :
    Faulting Stop Gathered :=
  match ids with
  | [] => return .nothing
  | id :: ids => do
    let visit : Document → Text → NodeId → Context → Faulting Stop Gathered := by apply walkNodeAt?
    let again : Document → Text → List NodeId → Context → Faulting Stop Gathered := by apply walkAt?
    let found ← visit doc annex id context
    let others ← again doc annex ids context
    return found ++ others
partial_fixpoint

end

/-- Gathers what there is to check in a document. -/
def collectAt? (doc : Document) (annex : Text) : Faulting Fault Outcome := do
  match ← (doc.elementAt? Document.root : Option (Option Element)) with
  | none => return Gathered.nothing.outcome
  | some e =>
    match ← ((walkAt? doc annex e.children ⟨false, false, false⟩).run : Option (Except Stop Gathered)) with
    | .error (.fault fault) => throw fault
    | .error (.shape complaint) => return ⟨none, [complaint]⟩
    | .ok found => return found.outcome

end Collection

/-! ## 3. Numbers in use -/

namespace Document

variable {doc : Document} {id : NodeId}

theorem elementAt?_eq (h : id < doc.count) : doc.elementAt? id = some (doc.element? id) := by
  rw [elementAt?, element?, node?, List.getElem?_eq_getElem h]
  rfl

theorem parentAt?_eq (h : id < doc.count) : doc.parentAt? id = some (doc.parent? id) := by
  rw [parentAt?, parent?, node?, List.getElem?_eq_getElem h]
  rfl

theorem childrenAt?_eq (h : id < doc.count) : doc.childrenAt? id = some (doc.children id) := by
  rw [childrenAt?, elementAt?_eq h]
  rfl

end Document

namespace Tree

variable {doc : Document} {parent : Option NodeId} {t : Tree} {ts : List Tree}

/-- A tree without what stands below its node. -/
def shallow : Tree → Tree
  | .text id source span => .text id source span
  | .element id e _ => .element id e []

@[simp] theorem id_shallow (t : Tree) : t.shallow.id = t.id := by cases t <;> rfl

@[simp] theorem isElement_shallow (t : Tree) : t.shallow.isElement = t.isElement := by cases t <;> rfl

@[simp] theorem isNamed_shallow (t : Tree) (name : Text) : t.shallow.isNamed name = t.isNamed name := by
  cases t <;> rfl

theorem Depicts.id_lt (h : t.Depicts doc parent) : t.id < doc.count := by
  cases h with
  | text hnode => exact (List.getElem?_eq_some_iff.mp hnode).1
  | element hnode => exact (List.getElem?_eq_some_iff.mp hnode).1

theorem Depicts.elementAt?_eq (h : t.Depicts doc parent) : doc.elementAt? t.id = some t.element? := by
  rw [Document.elementAt?_eq h.id_lt, h.element?_eq]

theorem Depicts.nodeAt?_eq (h : t.Depicts doc parent) : doc.nodeAt? t.id = some t.shallow := by
  cases h with
  | @text _ id source span hnode =>
    have hnode : doc.nodes[id]? = some ⟨parent, .text source span⟩ := hnode
    rw [Document.nodeAt?, Tree.id, hnode]
    rfl
  | @element _ id e children hnode =>
    have hnode : doc.nodes[id]? = some ⟨parent, .element e⟩ := hnode
    rw [Document.nodeAt?, Tree.id, hnode]
    rfl

theorem find?_shallow (ts : List Tree) :
    (ts.map shallow).find? isElement = (ts.find? isElement).map shallow := by
  rw [List.find?_map]
  congr 2
  funext t
  exact t.isElement_shallow

theorem firstElementAt?_eq (h : ∀ t ∈ ts, t.Depicts doc parent) :
    doc.firstElementAt? (ts.map Tree.id) = some ((ts.find? isElement).map Tree.id) := by
  induction ts with
  | nil => rfl
  | cons t ts ih =>
    obtain ⟨ht, hts⟩ := List.forall_mem_cons.mp h
    rw [List.map_cons, Document.firstElementAt?, Document.elementAt?_eq ht.id_lt, List.find?_cons, ih hts,
      ht.isElement_eq]
    dsimp only [Option.bind_eq_bind, Option.bind]
    rw [← Document.isElement]
    cases doc.isElement t.id with
    | true => rfl
    | false => rfl

/-- The children of a node: a tree, those before it and those after it. -/
structure Among (doc : Document) (parent : NodeId) (before : List Tree) (t : Tree) (rest : List Tree) : Prop where
  children : doc.children parent = (before ++ t :: rest).map Tree.id
  parent_lt : parent < doc.count
  depicts : ∀ s ∈ t :: rest, s.Depicts doc (some parent)

theorem Among.nextElementAt?_eq {parent : NodeId} {before rest : List Tree} (h : Among doc parent before t rest)
    (hdoc : doc.IsTree) : doc.nextElementAt? t.id = some ((rest.find? isElement).map Tree.id) := by
  obtain ⟨hchildren, hparent, hdepicts⟩ := h
  obtain ⟨ht, hrest⟩ := List.forall_mem_cons.mp hdepicts
  -- the numbers of siblings increase, so the node is not found before its own place
  have hindex : ((before ++ t :: rest).map Tree.id).findIdx? (· = t.id) = some before.length := by
    have hincreasing := hdoc.increasing parent
    rw [hchildren, List.map_append, List.map_cons] at hincreasing
    have hbefore : (before.map Tree.id).findIdx? (· = t.id) = none := by
      rw [List.findIdx?_eq_none_iff]
      intro sibling hsibling
      have hlt := (List.pairwise_append.mp hincreasing).2.2 sibling hsibling t.id List.mem_cons_self
      exact decide_eq_false (Nat.ne_of_lt hlt)
    rw [List.map_append, List.map_cons, List.findIdx?_append, hbefore, List.findIdx?_cons]
    simp
  have hdrop : ((before ++ t :: rest).map Tree.id).drop (before.length + 1) = rest.map Tree.id := by
    rw [← List.map_drop, List.drop_append]
    simp
  rw [Document.nextElementAt?, Document.parentAt?_eq ht.id_lt, ht.parent?_eq]
  dsimp only [Option.bind_eq_bind, Option.bind]
  rw [Document.childrenAt?_eq hparent, hchildren]
  dsimp only
  rw [hindex]
  dsimp only
  rw [if_pos (by simp), hdrop]
  exact firstElementAt?_eq hrest

end Tree

namespace Collection

/-! ## 4. The walk is the same -/

theorem groupsOf_shallow (clause : NodeId) (e : Element) (current : Option Group) (ts : List Tree) :
    groupsOf clause e current (ts.map Tree.shallow) = groupsOf clause e current ts := by
  induction ts generalizing current with
  | nil => rfl
  | cons t ts ih =>
    cases t with
    | text id source span => exact ih current
    | element id e children => simp only [List.map_cons, Tree.shallow, groupsOf, ih]

theorem gatherGrammar_shallow (context : Context) (id : NodeId) (e : Element) (next : Option Tree) :
    gatherGrammar context id e (next.map Tree.shallow) = gatherGrammar context id e next := by
  cases next with
  | none => rfl
  | some following => simp only [gatherGrammar, Option.map_some, Tree.isNamed_shallow, Tree.id_shallow]

variable {doc : Document} {annex : Text}

theorem returns_visitClauseAt? (hdoc : doc.IsTree) {id : NodeId} {e : Element} {children : List Tree}
    (hids : children.map Tree.id = e.children) (hchildren : ∀ t ∈ children, t.Depicts doc (some id))
    (context : Context) :
    Returns (visitClauseAt? doc context id e) (gatherClause doc context id e children) := by
  have hnodes : e.children.mapM doc.nodeAt? = some (children.map Tree.shallow) := by
    rw [← hids, List.mapM_map]
    exact mapM_eq_some fun t ht => (hchildren t ht).nodeAt?_eq
  refine returns_lift hnodes ?_
  rw [Tree.find?_shallow, gatherClause]
  cases hfirst : children.find? Tree.isElement with
  | none => exact returns_pure _
  | some first =>
    have htree := (hchildren first (List.mem_of_find?_eq_some hfirst)).tree_eq hdoc
    simp only [Option.map_some, Tree.isNamed_shallow, Tree.id_shallow, htree]
    split
    · exact returns_pure _
    split
    · exact returns_pure _
    dsimp only [bind, Except.bind]
    cases doc.textOf first (some deletedName) with
    | error fault => exact returns_throw _
    | ok title =>
      dsimp only
      split
      · rw [gatherEarlyErrors, groupsOf_shallow, ← gatherEarlyErrors]
        cases gatherEarlyErrors id e children with
        | error reason => rfl
        | ok groups => rfl
      · exact returns_pure _

theorem returns_walkAt? {parent : NodeId} (hparent : parent < doc.count) {ts : List Tree}
    (hnode : ∀ t ∈ ts, ∀ before rest context, Tree.Among doc parent before t rest →
      Returns (walkNodeAt? doc annex t.id context) (gatherNode doc annex t context (rest.find? Tree.isElement)))
    (hdepicts : ∀ t ∈ ts, t.Depicts doc (some parent)) {before : List Tree}
    (hchildren : doc.children parent = (before ++ ts).map Tree.id) (context : Context) :
    Returns (walkAt? doc annex (ts.map Tree.id) context) (gather doc annex ts context) := by
  induction ts generalizing before with
  | nil =>
    rw [List.map_nil, walkAt?]
    exact returns_pure _
  | cons t ts ih =>
    obtain ⟨hfirst, hothers⟩ := List.forall_mem_cons.mp hnode
    have hnext : doc.children parent = ((before ++ [t]) ++ ts).map Tree.id := by
      rw [hchildren, List.append_assoc]
      rfl
    rw [List.map_cons, walkAt?, gather]
    refine (hfirst before ts context ⟨hchildren, hparent, hdepicts⟩).bind fun found _ => ?_
    exact (ih hothers (List.forall_mem_cons.mp hdepicts).2 hnext).bind fun others _ => returns_pure _

theorem returns_walkNodeAt? (hdoc : doc.IsTree) {t : Tree} {above : Option NodeId} (ht : t.Depicts doc above)
    {parent : NodeId} {before rest : List Tree} (context : Context) (hamong : Tree.Among doc parent before t rest) :
    Returns (walkNodeAt? doc annex t.id context) (gatherNode doc annex t context (rest.find? Tree.isElement)) := by
  induction ht generalizing parent before rest context with
  | text hnode =>
    rw [walkNodeAt?]
    exact returns_lift (Tree.Depicts.text hnode).elementAt?_eq (returns_pure _)
  | @element _ id e children hnode hids hchildren ih =>
    have hlookup : doc.elementAt? id = some (some e) := (Tree.Depicts.element hnode hids hchildren).elementAt?_eq
    have hnext : ((rest.find? Tree.isElement).map Tree.id).mapM doc.nodeAt? =
        some ((rest.find? Tree.isElement).map Tree.shallow) := by
      cases hfind : rest.find? Tree.isElement with
      | none => rfl
      | some following =>
        have hmem := List.mem_cons_of_mem (Tree.element id e children) (List.mem_of_find?_eq_some hfind)
        exact congrArg (Option.map some) (hamong.depicts following hmem).nodeAt?_eq
    have hwalk : ∀ inside, Returns (walkAt? doc annex e.children inside) (gather doc annex children inside) := by
      have hbelow : doc.children id = ([] ++ children).map Tree.id :=
        (Document.children_eq (Document.element?_eq_some_of_node? hnode)).trans hids.symm
      rw [← hids]
      exact returns_walkAt? (List.getElem?_eq_some_iff.mp hnode).1
        (fun t ht before rest context hamong => ih t ht context hamong) hchildren hbelow
    show Returns (walkNodeAt? doc annex id context) _
    rw [walkNodeAt?, gatherNode]
    refine returns_lift hlookup ?_
    dsimp only
    split
    · refine (returns_visitClauseAt? hdoc hids hchildren _).bind fun own _ => ?_
      exact (hwalk _).bind fun below _ => returns_pure _
    split
    · refine returns_lift (hamong.nextElementAt?_eq hdoc) (returns_lift hnext ?_)
      rw [gatherGrammar_shallow]
      exact returns_pure _
    split
    · exact returns_pure _
    · exact hwalk _

theorem returns_collectAt? (hdoc : doc.IsTree) (annex : Text) :
    Returns (collectAt? doc annex) (collect doc annex) := by
  obtain ⟨e, hroot, -⟩ := hdoc.root
  have hlt : Document.root < doc.count := (List.getElem?_eq_some_iff.mp hroot).1
  have helement := Document.element?_eq_some_of_node? hroot
  obtain ⟨t, htree, -⟩ := (hdoc.descendsUpward.yields_treeWithout none hlt).eq_ok
  have htree : doc.tree Document.root = .ok t := htree
  obtain ⟨hid, hdepicts⟩ := hdoc.depicts_tree htree
  rw [hdoc.parent?_root] at hdepicts
  unfold collectAt? collect
  rw [htree]
  cases hdepicts with
  | @text _ id source span hnode =>
    cases hid
    cases hroot.symm.trans hnode
  | @element _ id e' children hnode hids hchildren =>
    cases hid
    cases hroot.symm.trans hnode
    have hbelow : doc.children Document.root = ([] ++ children).map Tree.id :=
      (Document.children_eq helement).trans hids.symm
    have hwalk := @returns_walkAt? doc annex _ hlt children
      (fun t ht before rest context hamong => returns_walkNodeAt? hdoc (hchildren t ht) context hamong) hchildren []
      hbelow ⟨false, false, false⟩
    have hlookup := Document.elementAt?_eq hlt
    rw [helement] at hlookup
    refine returns_lift hlookup ?_
    dsimp only [bind, Except.bind]
    rw [← hids]
    refine returns_lift hwalk ?_
    cases gather doc annex children ⟨false, false, false⟩ with
    | error reason =>
      cases reason with
      | fault fault => exact returns_throw fault
      | shape complaint => exact returns_pure _
    | ok found => exact returns_pure _

end Collection

/-! ## 5. Names in prose -/

namespace Scope

/-- Whether the node with the given number has the given id. -/
def hasIdAt? (doc : Document) (node : NodeId) (id : Text) : Option Bool := do
  return (← doc.elementAt? node).bind (·.attribute? "id".toList) = some id

def isClauseLikeAt? (doc : Document) (node : NodeId) : Option Bool := do
  return ((← doc.elementAt? node).map Element.name).any clauseLike.contains

def namesInNodesAt? (doc : Document) (annex : Text) : List NodeId → Faulting Fault (List Text × Bool)
  | [] => return ([], false)
  | node :: nodes => do
    if ← (hasIdAt? doc node annex : Option Bool) then return ([], true)
    let names := namesIn (← (doc.textContent node : Except Fault Text))
    let (others, stopped) ← namesInNodesAt? doc annex nodes
    return (names ++ others, stopped)

/-- The names before a node inside the elements around it, from the parent of the node on. -/
def namesBeforeAt? (doc : Document) (annex : Text) (node : NodeId) : Faulting Fault (List Text) := do
  match ← (doc.parentAt? node : Option (Option NodeId)) with
  | none => return []
  | some parent =>
    if ← (hasIdAt? doc parent annex : Option Bool) then return []
    let siblings ← (doc.childrenAt? parent : Option (List NodeId))
    let before := (siblings.findIdx? (· = node)).getD siblings.length
    let earlier ← (if before ≤ siblings.length then some (siblings.take before) else none : Option (List NodeId))
    let (names, stopped) ← namesInNodesAt? doc annex earlier.reverse
    let clauseLike ← (isClauseLikeAt? doc parent : Option Bool)
    if stopped || parent = Document.root || clauseLike then return names
    let again : Document → Text → NodeId → Faulting Fault (List Text) := by apply namesBeforeAt?
    return names ++ (← again doc annex parent)
partial_fixpoint

variable {doc : Document} {annex : Text}

theorem hasIdAt?_eq {node : NodeId} (h : node < doc.count) (id : Text) :
    hasIdAt? doc node id = some (hasId doc node id) := by
  rw [hasIdAt?, Document.elementAt?_eq h]
  rfl

theorem isClauseLikeAt?_eq {node : NodeId} (h : node < doc.count) :
    isClauseLikeAt? doc node = some (isClauseLike doc node) := by
  rw [isClauseLikeAt?, Document.elementAt?_eq h]
  rfl

theorem returns_namesInNodesAt? {nodes : List NodeId} (h : ∀ node ∈ nodes, node < doc.count) :
    Returns (namesInNodesAt? doc annex nodes) (namesInNodes doc annex nodes) := by
  induction nodes with
  | nil => exact returns_pure _
  | cons node nodes ih =>
    obtain ⟨hnode, hnodes⟩ := List.forall_mem_cons.mp h
    rw [namesInNodesAt?, namesInNodes]
    refine returns_lift (hasIdAt?_eq hnode annex) ?_
    split
    · exact returns_pure _
    · exact Returns.bind rfl fun text _ => (ih hnodes).bind fun others _ => returns_pure _

theorem take_findIdx? (siblings : List NodeId) (node : NodeId) :
    (if (siblings.findIdx? (· = node)).getD siblings.length ≤ siblings.length then
      some (siblings.take ((siblings.findIdx? (· = node)).getD siblings.length)) else none) =
    some (siblings.takeWhile (· ≠ node)) := by
  rw [← List.findIdx_eq_getD_findIdx?, if_pos List.findIdx_le_length, List.takeWhile_eq_take_findIdx_not]
  simp

theorem returns_namesBeforeAt? (hdoc : doc.IsTree) {node : Nat} (hnode : node < doc.count) :
    Returns (namesBeforeAt? doc annex node) (seeds doc annex node) := by
  -- the parent of a node has a smaller number
  induction node using Nat.strongRecOn with
  | ind node ih =>
    rw [namesBeforeAt?, seeds]
    refine returns_lift (Document.parentAt?_eq hnode) ?_
    cases hparent : doc.parent? node with
    | none =>
      rw [Document.ancestors_of_parent?_eq_none hparent]
      exact returns_pure _
    | some parent =>
      have hlt := hdoc.parent_lt hparent
      have hup : parent < doc.count := Nat.lt_trans hlt hnode
      have hearlier : ∀ child ∈ ((doc.children parent).takeWhile (· ≠ node)).reverse, child < doc.count := by
        intro child hchild
        exact hdoc.lt_count_of_mem_children (List.takeWhile_subset _ (List.mem_reverse.mp hchild))
      rw [hdoc.ancestors_eq hparent, namesBefore]
      refine returns_lift (hasIdAt?_eq hup annex) ?_
      split
      · exact returns_pure _
      refine returns_lift (Document.childrenAt?_eq hup) (returns_lift (take_findIdx? _ _) ?_)
      refine (returns_namesInNodesAt? hearlier).bind fun found _ => returns_lift (isClauseLikeAt?_eq hup) ?_
      dsimp only
      split
      · exact returns_pure _
      · exact (ih parent hlt hup).bind fun others _ => returns_pure _

end Scope

end Errata
