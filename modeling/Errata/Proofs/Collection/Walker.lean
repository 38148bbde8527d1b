import Errata.Lint
import Errata.Proofs.Collection

/-!
# The walk with its state

The walk over a document as it goes along: it keeps a list of the problems that it has met, what it has
collected, and whether grammar without an end tag has made it fail. Early errors without their shape stop it
from wherever it stands, and its state stays as it was left. The problems are then added to a list that was
begun before the walk; of a walk that was stopped only those about the shape of early errors are.

The walk that gathers comes to the same for every list to begin with.
-/

namespace Errata.Collection

/-! ## 1. The state -/

structure Walker where
  problems : List Diagnostic
  collection : Collection
  failed : Bool

/-- The walk could not be completed. The reason has been reported. -/
inductive Failure where
  | failed

/-- A part of the walk. A part that fails leaves its state behind. -/
abbrev Walk := ExceptT Failure (StateT Walker (Except Fault))

def diagnostic (c : Complaint Problem) : Diagnostic := .ofComplaint (c.map .collection)

def report (problem : Problem) (id : NodeId) (e : Element) : Walk Unit :=
  modify fun walker =>
    { walker with problems := walker.problems ++ [diagnostic (complaintAt problem id e)] }

def keep (change : Collection → Collection) : Walk Unit :=
  modify fun walker => { walker with collection := change walker.collection }

/-! ## 2. Parts of the walk -/

/-- Whether grammar has an end tag. The walk fails without one, but goes on. -/
def requireEndTag (id : NodeId) (e : Element) : Walk Bool := do
  if e.endTag.isSome then return true
  report .unclosedGrammar id e
  modify fun walker => { walker with failed := true }
  return false

def visitAlgorithm (context : Context) (id : NodeId) (e : Element) : Walk Unit := do
  if (e.attribute? "example".toList).isSome || e.attribute? "type".toList = some "example".toList then
    return
  if e.endTag.isSome then
    keep fun c => { c with algorithms := c.algorithms ++ [⟨id, context⟩] }
  else report .unclosedAlgorithm id e

def visitGrammar (context : Context) (id : NodeId) (e : Element) (next : Option Tree) : Walk Unit := do
  if context.inAnnex || context.inDeleted then return
  if e.attribute? "type".toList = some "definition".toList then
    if ← requireEndTag id e then keep fun c => { c with grammars := c.grammars ++ [id] }
  else
    match next with
    | none => return
    | some following =>
      if following.isNamed algorithmName then
        if ← requireEndTag id e then
          keep fun c => { c with operations := c.operations ++ [⟨id, following.id⟩] }

/-- Stops the walk. -/
def stop {α : Type} (shape : Shape) (id : NodeId) (e : Element) : Walk α := do
  report (.earlyErrors shape) id e
  throw .failed

/-- The groups among the children of a clause, as far as they have been looked at. -/
structure Sorting where
  grammar : Option (NodeId × Element)
  lists : List NodeId
  found : List Group

def Sorting.next (sorting : Sorting) : Tree → Walk Sorting
  | .text .. => return sorting
  | .element id e _ =>
    if e.name = grammarName then
      match sorting.grammar with
      | none => return { sorting with grammar := some (id, e) }
      | some (previous, previousElement) => do
        if sorting.lists.isEmpty then stop .consecutiveGrammars id e
        return ⟨some (id, e), [], sorting.found ++ [⟨previous, previousElement, sorting.lists⟩]⟩
    else if e.name = listName then do
      if sorting.grammar.isNone then stop .listFirst id e
      return { sorting with lists := sorting.lists ++ [id] }
    else return sorting

/-- Keeps the groups that were found. -/
def finish (found : List Group) : Walk Unit := do
  found.forM fun group => discard (requireEndTag group.id group.element)
  keep fun c => { c with earlyErrors := c.earlyErrors ++ found.map Group.earlyErrors }

/-- What is done after the last child of a clause. -/
def Sorting.conclude (clause : NodeId) (e : Element) (sorting : Sorting) : Walk Unit :=
  match sorting.grammar with
  | none => stop .noGrammar clause e
  | some (grammar, grammarElement) => do
    if sorting.lists.isEmpty then stop .grammarWithoutList grammar grammarElement
    finish (sorting.found ++ [⟨grammar, grammarElement, sorting.lists⟩])

def visitEarlyErrors (clause : NodeId) (e : Element) (children : List Tree) : Walk Unit := do
  let sorting ← children.foldlM Sorting.next ⟨none, [], []⟩
  sorting.conclude clause e

def visitClause (doc : Document) (context : Context) (id : NodeId) (e : Element) (children : List Tree) :
    Walk Unit :=
  match children.find? Tree.isElement with
  | none => return
  | some first => do
    if !first.isNamed headerName then return
    keep fun c => { c with headers := c.headers ++ [⟨first.id, context.inAnnex⟩] }
    if context.inAnnex then return
    let title ← (doc.textOf first (some deletedName) : Except Fault Text)
    if title.trim = earlyErrorsTitle then visitEarlyErrors id e children

mutual

/-- Walks over a node and what is below it; `next` is the element that follows it. -/
def walkNode (doc : Document) (annex : Text) : Tree → Context → Option Tree → Walk Unit
  | .text .., _, _ => return
  | .element id e children, context, next =>
    let inside := context.enter annex e
    if clauseNames.contains e.name then do
      visitClause doc inside id e children
      walk doc annex children inside
    else if e.name = grammarName then visitGrammar inside id e next
    else if e.name = algorithmName then visitAlgorithm inside id e
    else walk doc annex children inside

/-- Walks over siblings and what is below them. -/
def walk (doc : Document) (annex : Text) : List Tree → Context → Walk Unit
  | [], _ => return
  | t :: rest, context => do
    walkNode doc annex t context (rest.find? Tree.isElement)
    walk doc annex rest context

end

/-- What the walk has come to, with its problems added to those before. Of a walk that was stopped only the
shape of early errors counts. -/
def conclude (problems : List Diagnostic) :
    Except Failure Unit × Walker → Except Failure Collection × List Diagnostic
  | (.error failure, walker) =>
    (.error failure, problems ++ walker.problems.filter (·.problem.rule = .earlyErrorShape))
  | (.ok (), walker) =>
    (if walker.failed then .error .failed else .ok walker.collection, problems ++ walker.problems)

/-- The state with what was gathered. -/
def Walker.add (walker : Walker) (found : Gathered) : Walker where
  problems := walker.problems ++ found.complaints.map diagnostic
  collection := (Gathered.append ⟨walker.collection, []⟩ found).collection
  failed := walker.failed || found.complaints.any (·.problem = .unclosedGrammar)

theorem Walker.add_nothing (walker : Walker) : walker.add .nothing = walker := by
  obtain ⟨problems, collection, failed⟩ := walker
  simp only [Walker.add, Walker.mk.injEq]
  refine ⟨List.append_nil _, ?_, Bool.or_false _⟩
  simp only [Gathered.append, Gathered.nothing, List.append_nil]

theorem Walker.add_append (walker : Walker) (a b : Gathered) : walker.add (a ++ b) = (walker.add a).add b := by
  show walker.add (a.append b) = _
  simp only [Walker.add, Gathered.append, List.append_assoc, List.map_append, List.any_append, Bool.or_assoc]

/-- What is collected without a complaint changes the collection only. -/
theorem Walker.add_of_complaints_eq_nil (walker : Walker) {found : Gathered} (h : found.complaints = []) :
    walker.add found =
      { walker with collection := (Gathered.append ⟨walker.collection, []⟩ found).collection } := by
  simp only [Walker.add, h, List.map_nil, List.append_nil, List.any_nil, Bool.or_false]

theorem Walker.add_ofComplaint (walker : Walker) (c : Complaint Problem) :
    walker.add (.ofComplaint c) =
      { walker with
        problems := walker.problems ++ [diagnostic c]
        failed := walker.failed || c.problem = .unclosedGrammar } := by
  obtain ⟨problems, collection, failed⟩ := walker
  simp only [Walker.add, Walker.mk.injEq]
  refine ⟨rfl, ?_, by simp [Gathered.ofComplaint]⟩
  simp only [Gathered.append, Gathered.ofComplaint, Gathered.nothing, List.append_nil]

/-- From the given state the part does what was gathered. If it is stopped, what it has met on the way are
missing end tags. -/
def Follows (walker : Walker) (part : Walk Unit) : Except Stop Gathered → Prop
  | .ok found => part.run.run walker = .ok (.ok (), walker.add found) ∧
      ∀ c ∈ found.complaints, c.problem.rule = .missingCloseTag
  | .error (.fault fault) => part.run.run walker = .error fault
  | .error (.shape c) => c.problem.rule = .earlyErrorShape ∧ ∃ met left,
      part.run.run walker = .ok (.error .failed, left) ∧
        left.problems = walker.problems ++ met ++ [diagnostic c] ∧
        ∀ d ∈ met, d.problem.rule = .missingCloseTag

theorem run_bind {α β : Type} (part : Walk α) (rest : α → Walk β) (walker : Walker) :
    (part >>= rest).run.run walker =
      part.run.run walker >>= fun
        | (.ok a, walker) => (rest a).run.run walker
        | (.error failure, walker) => .ok (.error failure, walker) := by
  show (part.run.run walker >>= _) = _
  congr 1
  funext result
  obtain ⟨result, walker⟩ := result
  cases result with
  | error failure => rfl
  | ok a => rfl

section Parts

variable {walker : Walker} {part rest : Walk Unit} {id : NodeId} {e : Element}

theorem follows_nothing (walker : Walker) : Follows walker (pure ()) (.ok .nothing) := by
  refine ⟨?_, List.forall_mem_nil _⟩
  rw [walker.add_nothing]
  rfl

/-- A walk goes on from the state that its first part has left. -/
theorem Follows.bind {first : Except Stop Gathered} {second : Except Stop Gathered}
    (hpart : Follows walker part first)
    (hrest : ∀ found, first = .ok found → Follows (walker.add found) rest second) :
    Follows walker (part >>= fun _ => rest) (do return (← first) ++ (← second)) := by
  cases first with
  | error reason =>
    cases reason with
    | fault fault =>
      have hrun : part.run.run walker = .error fault := hpart
      show (part >>= fun _ => rest).run.run walker = .error fault
      rw [run_bind, hrun]
      rfl
    | shape c =>
      obtain ⟨hrule, met, left, hrun, hproblems, hmet⟩ := hpart
      refine ⟨hrule, met, left, ?_, hproblems, hmet⟩
      rw [run_bind, hrun]
      rfl
  | ok found =>
    obtain ⟨hrun, hmissing⟩ := hpart
    have hnext : (part >>= fun _ => rest).run.run walker = rest.run.run (walker.add found) := by
      rw [run_bind, hrun]
      rfl
    have hsecond := hrest found rfl
    cases second with
    | error reason =>
      cases reason with
      | fault fault => exact hnext.trans hsecond
      | shape c =>
        obtain ⟨hrule, met, left, hrun, hproblems, hmet⟩ := hsecond
        refine ⟨hrule, found.complaints.map diagnostic ++ met, left, hnext.trans hrun, ?_, ?_⟩
        · rw [hproblems, Walker.add, List.append_assoc walker.problems]
        · exact List.forall_mem_append.mpr ⟨List.forall_mem_map.mpr hmissing, hmet⟩
    | ok others =>
      obtain ⟨hrun, hothers⟩ := hsecond
      refine ⟨?_, List.forall_mem_append.mpr ⟨hmissing, hothers⟩⟩
      rw [hnext, hrun, ← Walker.add_append]

theorem follows_keep (walker : Walker) {change : Collection → Collection} {found : Gathered}
    (hnone : found.complaints = [])
    (hchange : (Gathered.append ⟨walker.collection, []⟩ found).collection = change walker.collection) :
    Follows walker (keep change) (.ok found) := by
  refine ⟨?_, ?_⟩
  · rw [walker.add_of_complaints_eq_nil hnone, hchange]
    rfl
  · rw [hnone]
    exact List.forall_mem_nil _

/-- Grammar without an end tag is reported, and the walk has failed from then on. -/
theorem run_requireEndTag (walker : Walker) (id : NodeId) (e : Element) :
    (requireEndTag id e).run.run walker =
      if e.endTag.isSome then .ok (.ok true, walker)
      else .ok (.ok false, walker.add (.ofComplaint (complaintAt .unclosedGrammar id e))) := by
  unfold requireEndTag
  split
  · rfl
  · rw [walker.add_ofComplaint]
    simp only [complaintAt, decide_true, Bool.or_true]
    rfl

theorem follows_visitAlgorithm (walker : Walker) (context : Context) (id : NodeId) (e : Element) :
    Follows walker (visitAlgorithm context id e) (.ok (gatherAlgorithm context id e)) := by
  unfold visitAlgorithm gatherAlgorithm
  split
  · exact follows_nothing walker
  split
  · exact follows_keep walker rfl (by simp [Gathered.append, Gathered.ofAlgorithm, Gathered.nothing])
  · refine ⟨?_, List.forall_mem_singleton.mpr rfl⟩
    rw [walker.add_ofComplaint]
    simp only [complaintAt, reduceCtorEq, decide_false, Bool.or_false]
    rfl

/-- What grammar is kept for, if it has an end tag. -/
theorem follows_requireEndTag (walker : Walker) {change : Collection → Collection} {found : Gathered}
    (hnone : found.complaints = [])
    (hchange : (Gathered.append ⟨walker.collection, []⟩ found).collection = change walker.collection) :
    Follows walker (do if ← requireEndTag id e then keep change)
      (.ok (if e.endTag.isSome then found else .ofComplaint (complaintAt .unclosedGrammar id e))) := by
  have hrun := run_requireEndTag walker id e
  by_cases hend : e.endTag.isSome
  · rw [if_pos hend] at hrun ⊢
    obtain ⟨hkeep, hmissing⟩ := follows_keep walker hnone hchange
    refine ⟨?_, hmissing⟩
    rw [run_bind, hrun]
    exact hkeep
  · rw [if_neg hend] at hrun ⊢
    refine ⟨?_, List.forall_mem_singleton.mpr rfl⟩
    rw [run_bind, hrun]
    rfl

theorem follows_visitGrammar (walker : Walker) (context : Context) (id : NodeId) (e : Element)
    (next : Option Tree) :
    Follows walker (visitGrammar context id e next) (.ok (gatherGrammar context id e next)) := by
  unfold visitGrammar gatherGrammar
  split
  · exact follows_nothing walker
  split
  · exact follows_requireEndTag walker (rfl : (Gathered.ofGrammar id).complaints = [])
      (by simp [Gathered.append, Gathered.ofGrammar, Gathered.nothing])
  · cases next with
    | none => exact follows_nothing walker
    | some following =>
      cases hnamed : following.isNamed algorithmName with
      | false =>
        simp only [hnamed]
        exact follows_nothing walker
      | true =>
        simp only [hnamed]
        exact follows_requireEndTag walker (rfl : (Gathered.ofOperation ⟨id, following.id⟩).complaints = [])
          (by simp [Gathered.append, Gathered.ofOperation, Gathered.nothing])

theorem follows_discard_requireEndTag (walker : Walker) (id : NodeId) (e : Element) :
    Follows walker (discard (requireEndTag id e)) (.ok ⟨Gathered.nothing.collection, unclosed id e⟩) := by
  have hdiscard : discard (requireEndTag id e) = requireEndTag id e >>= fun _ => pure () :=
    (bind_pure_comp (fun _ => ()) (requireEndTag id e)).symm
  rw [hdiscard]
  unfold unclosed
  split
  · rename_i hend
    refine ⟨?_, List.forall_mem_nil _⟩
    rw [run_bind, run_requireEndTag, if_pos hend]
    exact congrArg (fun walker => Except.ok (Except.ok (), walker)) walker.add_nothing.symm
  · rename_i hend
    refine ⟨?_, List.forall_mem_singleton.mpr rfl⟩
    rw [run_bind, run_requireEndTag, if_neg hend]
    rfl

theorem follows_forM_requireEndTag (walker : Walker) (found : List Group) :
    Follows walker (found.forM fun group => discard (requireEndTag group.id group.element))
      (.ok ⟨Gathered.nothing.collection, found.flatMap fun group => unclosed group.id group.element⟩) := by
  induction found generalizing walker with
  | nil => exact follows_nothing walker
  | cons group found ih =>
    exact (follows_discard_requireEndTag walker group.id group.element).bind fun _ _ => ih _

/-- The groups that were found are kept, and those without an end tag are reported. -/
theorem follows_finish (walker : Walker) (found : List Group) :
    Follows walker (finish found)
      (.ok { Gathered.ofEarlyErrors (found.map Group.earlyErrors) with
        complaints := found.flatMap fun group => unclosed group.id group.element }) := by
  have hkeep : ∀ walker, Follows walker
      (keep fun c => { c with earlyErrors := c.earlyErrors ++ found.map Group.earlyErrors })
      (.ok (.ofEarlyErrors (found.map Group.earlyErrors))) := fun walker =>
    follows_keep walker rfl (by simp [Gathered.append, Gathered.ofEarlyErrors, Gathered.nothing])
  have hfollows := (follows_forM_requireEndTag walker found).bind fun _ _ => hkeep _
  have happend : ∀ complaints : List (Complaint Problem),
      (⟨Gathered.nothing.collection, complaints⟩ : Gathered) ++ .ofEarlyErrors (found.map Group.earlyErrors) =
        { Gathered.ofEarlyErrors (found.map Group.earlyErrors) with complaints := complaints } := by
    intro complaints
    show Gathered.mk _ (complaints ++ []) = _
    rw [List.append_nil]
    rfl
  rw [← happend]
  exact hfollows

/-- The sorting that has begun a group. -/
def Sorting.of (current : Option Group) (found : List Group) : Sorting where
  grammar := current.map fun group => (group.id, group.element)
  lists := (current.map Group.lists).getD []
  found := found

/-- The groups are those that come after what was found before. A clause without the shape of early errors
adds one report and fails. -/
theorem run_sorted (walker : Walker) (clause : NodeId) (e : Element) (children : List Tree)
    (current : Option Group) (found : List Group) :
    (children.foldlM Sorting.next (.of current found) >>= Sorting.conclude clause e).run.run walker =
      match groupsOf clause e current children with
      | .error c => .ok (.error .failed, { walker with problems := walker.problems ++ [diagnostic c] })
      | .ok groups => (finish (found ++ groups)).run.run walker := by
  induction children generalizing current found with
  | nil =>
    rw [List.foldlM_nil, pure_bind]
    cases current with
    | none => rfl
    | some group =>
      obtain ⟨grammar, grammarElement, lists⟩ := group
      cases lists with
      | nil => rfl
      | cons list lists => rfl
  | cons child children ih =>
    rw [List.foldlM_cons, bind_assoc]
    cases child with
    | text id source span => exact ih current found
    | element id element below =>
      unfold groupsOf Sorting.next
      dsimp only
      by_cases hgrammar : element.name = grammarName
      · rw [if_pos hgrammar, if_pos hgrammar]
        cases current with
        | none => exact ih (some ⟨id, element, []⟩) found
        | some group =>
          obtain ⟨grammar, grammarElement, lists⟩ := group
          cases lists with
          | nil => rfl
          | cons list lists =>
            -- the group before is complete, and a new one begins
            refine (ih (some ⟨id, element, []⟩) (found ++ [⟨grammar, grammarElement, list :: lists⟩])).trans ?_
            show _ = match (groupsOf clause e (some ⟨id, element, []⟩) children).map (_ :: ·) with
              | .error c => _
              | .ok groups => _
            cases groupsOf clause e (some ⟨id, element, []⟩) children with
            | error c => rfl
            | ok groups =>
              show (finish (found ++ [_] ++ groups)).run.run walker = _
              rw [List.append_assoc]
              rfl
      · rw [if_neg hgrammar, if_neg hgrammar]
        by_cases hlist : element.name = listName
        · rw [if_pos hlist, if_pos hlist]
          cases current with
          | none => rfl
          | some group => exact ih (some { group with lists := group.lists ++ [id] }) found
        · rw [if_neg hlist, if_neg hlist]
          exact ih current found

theorem follows_visitEarlyErrors (walker : Walker) (clause : NodeId) (e : Element) (children : List Tree) :
    Follows walker (visitEarlyErrors clause e children) (gatherEarlyErrors clause e children) := by
  have hrun : (visitEarlyErrors clause e children).run.run walker = _ :=
    run_sorted walker clause e children none []
  unfold gatherEarlyErrors
  cases hgroups : groupsOf clause e none children with
  | error c =>
    rw [hgroups] at hrun
    have hshape := @ends_groupsOf clause e (fun _ _ => True) trivial children (fun _ _ _ _ => trivial) none
      fun _ hnone => nomatch hnone
    rw [hgroups] at hshape
    obtain ⟨shape, id, element, -, rfl⟩ := hshape
    refine ⟨rfl, [], _, hrun, ?_, List.forall_mem_nil _⟩
    rw [List.append_nil]
  | ok groups =>
    rw [hgroups] at hrun
    obtain ⟨hfinish, hmissing⟩ := follows_finish walker groups
    exact ⟨hrun.trans hfinish, hmissing⟩

/-- What comes after the header of a clause. -/
theorem follows_title (walker : Walker) (doc : Document) (first : Tree) (id : NodeId) (e : Element)
    (children : List Tree) :
    Follows walker
      (do
        let title ← (doc.textOf first (some deletedName) : Except Fault Text)
        if title.trim = earlyErrorsTitle then visitEarlyErrors id e children)
      (match doc.textOf first (some deletedName) with
      | .error fault => .error (.fault fault)
      | .ok title => if title.trim = earlyErrorsTitle then gatherEarlyErrors id e children else .ok .nothing) := by
  cases doc.textOf first (some deletedName) with
  | error fault => exact (rfl : (_ : Except Fault (Except Failure Unit × Walker)) = .error fault)
  | ok title =>
    show Follows walker (if title.trim = earlyErrorsTitle then visitEarlyErrors id e children else pure ()) _
    dsimp only
    split
    · exact follows_visitEarlyErrors walker id e children
    · exact follows_nothing walker

theorem follows_visitClause (walker : Walker) (doc : Document) (context : Context) (id : NodeId) (e : Element)
    (children : List Tree) :
    Follows walker (visitClause doc context id e children) (gatherClause doc context id e children) := by
  unfold visitClause gatherClause
  cases hfirst : children.find? Tree.isElement with
  | none => exact follows_nothing walker
  | some first =>
    dsimp only
    cases hnamed : first.isNamed headerName with
    | false => exact follows_nothing walker
    | true =>
      have hheader : Follows walker
          (keep fun c => { c with headers := c.headers ++ [⟨first.id, context.inAnnex⟩] })
          (.ok (.ofHeader ⟨first.id, context.inAnnex⟩)) :=
        follows_keep walker rfl (by simp [Gathered.append, Gathered.ofHeader, Gathered.nothing])
      cases hannex : context.inAnnex with
      | true =>
        rw [hannex] at hheader
        exact hheader.bind fun _ _ => follows_nothing _
      | false =>
        rw [hannex] at hheader
        have hfollows := hheader.bind fun _ _ => follows_title _ doc first id e children
        cases htitle : doc.textOf first (some deletedName) with
        | error fault =>
          rw [htitle] at hfollows
          exact hfollows
        | ok title =>
          rw [htitle] at hfollows
          dsimp only at hfollows
          simp only [Bool.not_true, Bool.false_eq_true, if_false]
          split
          · rename_i hearly
            rw [if_pos hearly] at hfollows
            cases hgather : gatherEarlyErrors id e children with
            | error reason =>
              rw [hgather] at hfollows
              exact hfollows
            | ok found =>
              rw [hgather] at hfollows
              exact hfollows
          · rename_i hother
            rw [if_neg hother] at hfollows
            exact hfollows

/-! ## 4. The whole walk -/

mutual

theorem follows_walkNode (doc : Document) (annex : Text) : ∀ (t : Tree) (walker : Walker) (context : Context)
    (next : Option Tree),
    Follows walker (walkNode doc annex t context next) (gatherNode doc annex t context next)
  | .text .., walker, context, next => by
    rw [walkNode, gatherNode]
    exact follows_nothing walker
  | .element id e children, walker, context, next => by
    rw [walkNode, gatherNode]
    split
    · exact (follows_visitClause walker doc _ id e children).bind fun _ _ => follows_walk doc annex children _ _
    split
    · exact follows_visitGrammar walker _ id e next
    split
    · exact follows_visitAlgorithm walker _ id e
    · exact follows_walk doc annex children walker _

theorem follows_walk (doc : Document) (annex : Text) : ∀ (ts : List Tree) (walker : Walker) (context : Context),
    Follows walker (walk doc annex ts context) (gather doc annex ts context)
  | [], walker, context => by
    rw [walk, gather]
    exact follows_nothing walker
  | t :: ts, walker, context => by
    rw [walk, gather]
    exact (follows_walkNode doc annex t walker context _).bind fun _ _ => follows_walk doc annex ts _ context

end

end Parts

/-- What a walk gives if it is completed. -/
def Outcome.result (outcome : Outcome) : Except Failure Collection :=
  match outcome.collection with
  | none => .error .failed
  | some collection => .ok collection

end Errata.Collection
