import Errata.Proofs.Collection.EarlyErrors
import Errata.Proofs.Collection.Preorder
import Errata.Proofs.Markup.Unclosed

/-!
# Grammar without an end tag

Grammar that is never closed takes in all that follows it, so neither an algorithm nor a list of early errors
follows it among its siblings. If it is a definition, there is a complaint about it, and in a clause of early
errors there is one about the shape. All other grammar without an end tag is passed over: no complaint is about
it, and it is not collected.
-/

namespace Errata

open Markup

theorem Tree.Depicts.everywhere_ne {doc : Document} {above : Option NodeId} {t : Tree}
    (h : t.Depicts doc above) {id : NodeId} (hid : id ∉ t.ids) : t.Everywhere fun x _ => x ≠ id := by
  induction h with
  | text hnode => exact .text
  | @element above x e children hnode hids hchildren ih =>
    rw [Tree.ids, List.mem_cons, not_or, Tree.idsAll_eq_flatMap] at hid
    refine .element (fun heq => hid.1 heq.symm) fun t ht => ih t ht fun hmem => hid.2 ?_
    exact List.mem_flatMap.mpr ⟨t, ht, hmem⟩

namespace Collection

/-! ## 1. Clauses of early errors -/

/-- The title that a header gives to its clause. -/
def titleOf (doc : Document) (header : NodeId) : Except Fault Text := do
  doc.textOf (← doc.tree header) (some deletedName)

/-- Whether the node is a clause whose first element is a header with the title of early errors. -/
def isEarlyErrors (doc : Document) (id : NodeId) : Bool :=
  clauseNames.any (doc.isNamed id) && (doc.firstElementChild? id).any fun first =>
    doc.isNamed first headerName && (titleOf doc first).toOption.any (·.trim = earlyErrorsTitle)

/-- Whether the node is a child of a clause of early errors. -/
def inEarlyErrors (doc : Document) (id : NodeId) : Bool := (doc.parent? id).any (isEarlyErrors doc)

section Clause

variable {doc : Document} {text : Text} {pos : Nat} {above : Option NodeId} {id : NodeId} {e : Element}
  {children : List Tree}

theorem exists_titleOf_eq (hdoc : doc.IsTree) (hsound : doc.Sound text pos) {t : Tree}
    (ht : t.Depicts doc above) :
    ∃ title, titleOf doc t.id = .ok title ∧ doc.textOf t (some deletedName) = .ok title := by
  have htree := ht.tree_eq hdoc
  obtain ⟨title, htitle, -⟩ := (hsound.yields_textOf (doc.shows_of_tree htree) (some deletedName)).eq_ok
  refine ⟨title, ?_, htitle⟩
  rw [titleOf, htree]
  exact htitle

theorem firstElementChild?_eq (h : Tree.Depicts doc above (.element id e children)) :
    doc.firstElementChild? id = (children.find? Tree.isElement).map Tree.id := by
  cases h with
  | element hnode hids hchildren =>
    have he := Document.element?_eq_some_of_node? hnode
    rw [Document.firstElementChild?, Document.elementChildren, Document.children_eq he, ← hids,
      List.filter_map, List.head?_map, ← List.head?_filter]
    rw [List.filter_congr fun t ht => (hchildren t ht).isElement_eq]
    rfl

theorem any_isNamed_clauseNames (he : doc.element? id = some e) :
    clauseNames.any (doc.isNamed id) = clauseNames.contains e.name := by
  rw [List.contains_eq_any_beq]
  congr 1
  funext name
  rw [isNamed_of_element? he, beq_eq_decide]

/-- A clause of early errors has groups besides its header, and no other clause has. -/
theorem gatherClause_eq (hdoc : doc.IsTree) (hsound : doc.Sound text pos)
    (h : Tree.Depicts doc above (.element id e children)) (hclause : clauseNames.contains e.name = true)
    {context : Context} (hannex : context.inAnnex = false) :
    (isEarlyErrors doc id = true ∧ ∃ header, gatherClause doc context id e children =
        (gatherEarlyErrors id e children).map (Gathered.ofHeader header ++ ·)) ∨
      isEarlyErrors doc id = false ∧ (gatherClause doc context id e children = .ok .nothing ∨
        ∃ header, gatherClause doc context id e children = .ok (.ofHeader header)) := by
  cases h with
  | element hnode hids hchildren =>
    have he := Document.element?_eq_some_of_node? hnode
    unfold gatherClause isEarlyErrors
    rw [firstElementChild?_eq (.element hnode hids hchildren), any_isNamed_clauseNames he, hclause]
    cases hfind : children.find? Tree.isElement with
    | none => exact Or.inr ⟨rfl, Or.inl rfl⟩
    | some first =>
      have hfirst := hchildren first (List.mem_of_find?_eq_some hfind)
      obtain ⟨title, htitle, htext⟩ := exists_titleOf_eq hdoc hsound hfirst
      dsimp only [Option.map_some, Option.any_some]
      rw [htitle, htext, ← hfirst.isNamed_eq, hannex]
      cases hheader : first.isNamed headerName with
      | false => exact Or.inr ⟨rfl, Or.inl rfl⟩
      | true =>
        by_cases heq : title.trim = earlyErrorsTitle
        · refine Or.inl ⟨?_, ⟨first.id, false⟩, ?_⟩
          · simp [Except.toOption, heq]
          · simp [heq]
        · refine Or.inr ⟨?_, Or.inr ⟨⟨first.id, false⟩, ?_⟩⟩
          · simp [Except.toOption, heq]
          · simp [heq]

/-- Grammar that is the last child of a clause has no list of errors. -/
theorem exists_groupsOf_eq_error (clause : NodeId) (clauseElement : Element) (hname : e.name = grammarName)
    (before : List Tree) (current : Option Group) :
    ∃ c, groupsOf clause clauseElement current (before ++ [.element id e children]) = .error c := by
  cases hgroups : groupsOf clause clauseElement current (before ++ [.element id e children]) with
  | error c => exact ⟨c, rfl⟩
  | ok groups =>
    -- groups end with a list, and so would all grammar and lists together
    obtain ⟨hne, hlists, hentries⟩ := (ends_groupsOf_entries clause clauseElement _ current).of_ok hgroups
    obtain ⟨ns, hns, hmarks⟩ := mem_matches'_groupsPattern.mp (map_flatMap_entries_mem hne hlists)
    have hlast := getLast?_flatMap_block hns
    rw [← hmarks, hentries, List.filterMap_append, List.filterMap_cons_some (labelled?_of_grammar hname),
      ← List.append_assoc, List.map_append, List.filterMap_nil, List.map_singleton, List.getLast?_concat] at hlast
    cases hlast

end Clause

/-! ## 2. Grammar that is left open -/

/-- The elements that are spoken of: those that there are complaints about, and the grammar. -/
def Gathered.named (found : Gathered) : List NodeId :=
  found.complaints.map Complaint.element ++ grammarIds found.collection

def Outcome.named (outcome : Outcome) : List NodeId :=
  outcome.complaints.map Complaint.element ++ outcome.collection.elim [] grammarIds

/-- The node is grammar that counts, and it has no end tag. -/
structure IsOpenGrammar (doc : Document) (annex : Text) (id : NodeId) (e : Element) : Prop where
  element : doc.element? id = some e
  name : e.name = grammarName
  endTag : e.endTag = none
  outermost : isOutermost doc id = true
  inAnnex : (contextOf doc annex id).inAnnex = false
  inDeleted : (contextOf doc annex id).inDeleted = false

/-- What is found where a walk passes grammar that is left open. -/
structure Gathered.Passes (doc : Document) (id : NodeId) (e : Element) (found : Gathered) : Prop where
  definition : isDefinition doc id = true → complaintAt .unclosedGrammar id e ∈ found.complaints
  fragment : isDefinition doc id = false → id ∉ found.named

section Grammar

variable {doc : Document} {annex : Text} {id : NodeId} {e : Element}

theorem exists_isOpenGrammar (hgrammar : isGrammar doc annex id = true) (hopen : hasEndTag doc id = false) :
    ∃ e, IsOpenGrammar doc annex id e := by
  simp only [isGrammar, Bool.and_eq_true, Bool.not_eq_true'] at hgrammar
  obtain ⟨⟨⟨hname, houter⟩, hannex⟩, hdeleted⟩ := hgrammar
  cases he : doc.element? id with
  | none =>
    rw [Document.isNamed, Document.name?, he] at hname
    cases hname
  | some e =>
    rw [isNamed_of_element? he, decide_eq_true_eq] at hname
    rw [hasEndTag, he] at hopen
    have hend : e.endTag = none := Option.not_isSome_iff_eq_none.mp (Bool.eq_false_iff.mp hopen)
    exact ⟨e, he, hname, hend, houter, hannex, hdeleted⟩

theorem Gathered.mem_named_append {a b : Gathered} :
    id ∈ (a ++ b).named ↔ id ∈ a.named ∨ id ∈ b.named := by
  have hcomplaints : (a ++ b).complaints = a.complaints ++ b.complaints := rfl
  simp only [named, List.mem_append, mem_grammarIds_append, hcomplaints, List.map_append]
  grind

theorem Gathered.Passes.append_left {a b : Gathered} (ha : a.Passes doc id e) (hb : id ∉ b.named) :
    (a ++ b).Passes doc id e := by
  refine ⟨fun hdefinition => List.mem_append_left _ (ha.definition hdefinition), fun hfragment hmem => ?_⟩
  rcases mem_named_append.mp hmem with hmem | hmem
  · exact ha.fragment hfragment hmem
  · exact hb hmem

theorem Gathered.Passes.append_right {a b : Gathered} (ha : id ∉ a.named) (hb : b.Passes doc id e) :
    (a ++ b).Passes doc id e := by
  refine ⟨fun hdefinition => List.mem_append_right _ (hb.definition hdefinition), fun hfragment hmem => ?_⟩
  rcases mem_named_append.mp hmem with hmem | hmem
  · exact ha hmem
  · exact hb.fragment hfragment hmem

/-- What is said about other elements only does not name the element. -/
theorem Gathered.IsAbout.not_mem_named {found : Gathered} (h : found.IsAbout fun x _ => x ≠ id) :
    id ∉ found.named := by
  intro hmem
  rcases List.mem_append.mp hmem with hmem | hmem
  · obtain ⟨c, hc, heq⟩ := List.mem_map.mp hmem
    cases h.complaints c hc with
    | algorithm hne => exact hne heq
    | grammar hne => exact hne heq
  · obtain ⟨-, hne⟩ := h.grammars id hmem
    exact hne rfl

/-- No element follows grammar that is left open, so only a definition is noticed. -/
theorem IsOpenGrammar.passes_gatherGrammar (h : IsOpenGrammar doc annex id e) :
    (gatherGrammar (contextOf doc annex id) id e none).Passes doc id e := by
  have hdefinition : isDefinition doc id =
      decide (e.attribute? "type".toList = some "definition".toList) := by
    rw [isDefinition, attribute?_of_element? h.element]
  unfold gatherGrammar
  rw [h.inAnnex, h.inDeleted, if_neg (by decide), h.endTag]
  by_cases hdef : e.attribute? "type".toList = some "definition".toList
  · rw [decide_eq_true hdef] at hdefinition
    rw [if_pos hdef]
    refine ⟨fun _ => List.mem_cons_self, fun hfragment => ?_⟩
    rw [hdefinition] at hfragment
    cases hfragment
  · rw [decide_eq_false hdef] at hdefinition
    rw [if_neg hdef]
    refine ⟨fun hno => ?_, fun _ => List.not_mem_nil⟩
    rw [hdefinition] at hno
    cases hno

theorem IsOpenGrammar.isLeftOpen {t : Tree} {above : Option NodeId} (h : IsOpenGrammar doc annex id e)
    (ht : t.Depicts doc above) (hid : t.id = id) :
    isLeftOpen t = true ∧ ∃ below, t = .element id e below := by
  have he := ht.element?_eq
  rw [hid, h.element] at he
  cases t with
  | text id' source span => cases he
  | element id' e' below =>
    cases he
    obtain rfl : id' = id := hid
    refine ⟨?_, below, rfl⟩
    have hnames : selfEndingNames.contains grammarName = false ∧
        rawTextNames.contains grammarName = false := by
      decide
    simp only [Markup.isLeftOpen, Tree.element?, Option.any_some, h.endTag, h.name, hnames]
    rfl

theorem IsOpenGrammar.ne_of_mem_ancestors (h : IsOpenGrammar doc annex id e) {a : NodeId} {e' : Element}
    (ha : a ∈ doc.ancestors id) (he' : doc.element? a = some e') :
    e'.name ≠ algorithmName ∧ e'.name ≠ grammarName := by
  have houter := List.all_eq_true.mp h.outermost a ha
  rw [isNamed_of_element? he', isNamed_of_element? he'] at houter
  simpa using houter

theorem IsOpenGrammar.inAnnex_of_mem_ancestors (h : IsOpenGrammar doc annex id e) (hdoc : doc.IsTree)
    {a : NodeId} (ha : a ∈ doc.ancestors id) : (contextOf doc annex a).inAnnex = false := by
  have hannex := List.any_eq_false.mp h.inAnnex
  refine List.any_eq_false.mpr fun x hx => hannex x (List.mem_cons_of_mem _ ?_)
  rcases List.mem_cons.mp hx with rfl | hx
  · exact ha
  · exact hdoc.ancestors_subset ha hx

end Grammar

/-! ## 3. The walk -/

/-- What a walk can stop for: only in a clause of early errors is it the grammar that is left open. -/
def StopsElsewhere (doc : Document) (id : NodeId) (stop : Stop) : Prop :=
  ∀ c, stop = .shape c → inEarlyErrors doc id = false → c.element ≠ id

/-- What comes of a walk over trees in which grammar is left open. If the walk comes to its end, the grammar is
not in early errors, unless it is a root of these trees. -/
def Treats (doc : Document) (id : NodeId) (e : Element) (isRoot : Prop) : Except Stop Gathered → Prop :=
  Ends (StopsElsewhere doc id)
    (fun found => (isRoot ∨ inEarlyErrors doc id = false) ∧ found.Passes doc id e)

section Walk

variable {doc : Document} {annex : Text} {id : NodeId} {e : Element}

theorem WalkIsAbout.spares {walk : Except Stop Gathered} (h : WalkIsAbout (fun x _ => x ≠ id) walk) :
    Ends (StopsElsewhere doc id) (fun found => id ∉ found.named) walk := by
  refine h.imp (fun stop hstop c hc _ => ?_) fun found hfound => hfound.not_mem_named
  obtain ⟨shape, id', e', hne, rfl⟩ := hstop c hc
  exact hne

theorem spares_gatherNode {t : Tree} {above : Option NodeId} (ht : t.Depicts doc above) (hid : id ∉ t.ids)
    (context : Context) (next : Option Tree) :
    Ends (StopsElsewhere doc id) (fun found => id ∉ found.named) (gatherNode doc annex t context next) :=
  (walkIsAbout_gatherNode doc annex (ht.everywhere_ne hid) context next).spares

theorem spares_gather {ts : List Tree} {above : Option NodeId} (hts : ∀ t ∈ ts, t.Depicts doc above)
    (hid : id ∉ Tree.ids.idsAll ts) (context : Context) :
    Ends (StopsElsewhere doc id) (fun found => id ∉ found.named) (gather doc annex ts context) := by
  rw [Tree.idsAll_eq_flatMap] at hid
  refine (walkIsAbout_gather (fun t ht context next => ?_) context).spares
  refine walkIsAbout_gatherNode doc annex ((hts t ht).everywhere_ne fun hmem => hid ?_) context next
  exact List.mem_flatMap.mpr ⟨t, ht, hmem⟩

/-- A walk over siblings comes to the one that the grammar is in, and spares the others. -/
theorem treats_gather (h : IsOpenGrammar doc annex id e) {parent : NodeId} {ts : List Tree}
    (hts : ∀ t ∈ ts, t.Depicts doc (some parent)) (hlast : ∀ t ∈ ts.dropLast, isLeftOpen t = false)
    (hnodup : (Tree.ids.idsAll ts).Nodup) (hmem : id ∈ Tree.ids.idsAll ts) {context : Context}
    (heach : ∀ t ∈ ts, id ∈ t.ids → ∀ next, (t.id = id → next = none) →
      Treats doc id e (t.id = id) (gatherNode doc annex t context next)) :
    Treats doc id e (∃ t ∈ ts, t.id = id) (gather doc annex ts context) := by
  induction ts with
  | nil => exact absurd hmem List.not_mem_nil
  | cons t rest ih =>
    obtain ⟨ht, hrest⟩ := List.forall_mem_cons.mp hts
    obtain ⟨hnow, hlater⟩ := List.forall_mem_cons.mp heach
    rw [Tree.ids.idsAll, List.nodup_append] at hnodup
    obtain ⟨-, hnodup, hapart⟩ := hnodup
    rw [gather]
    rcases List.mem_append.mp hmem with hmem | hmem
    · -- what is left open has nothing behind it
      have hnext : t.id = id → rest.find? Tree.isElement = none := by
        intro hid
        cases rest with
        | nil => rfl
        | cons u rest =>
          have hclosed := hlast t List.mem_cons_self
          rw [(h.isLeftOpen ht hid).1] at hclosed
          cases hclosed
      refine Ends.bind (hnow hmem _ hnext) fun found hfound => ?_
      have hother : id ∉ Tree.ids.idsAll rest := fun hmem' => hapart id hmem id hmem' rfl
      refine Ends.bind (spares_gather hrest hother context) fun others hothers => ?_
      exact ⟨hfound.1.imp_left fun hid => ⟨t, List.mem_cons_self, hid⟩, hfound.2.append_left hothers⟩
    · have hother : id ∉ t.ids := fun hmem' => hapart id hmem' id hmem rfl
      have hlast' : ∀ t ∈ rest.dropLast, isLeftOpen t = false := by
        intro u hu
        refine hlast u ?_
        cases rest with
        | nil => exact absurd hu List.not_mem_nil
        | cons v rest => exact List.mem_cons_of_mem t hu
      refine Ends.bind (spares_gatherNode ht hother context _) fun found hfound => ?_
      refine Ends.bind (ih hrest hlast' hnodup hmem hlater) fun others hothers => ?_
      refine ⟨hothers.1.imp_left ?_, .append_right hfound hothers.2⟩
      rintro ⟨u, hu, hid⟩
      exact ⟨u, List.mem_cons_of_mem t hu, hid⟩

/-- A clause stops the walk if the grammar is among its early errors; otherwise it does not speak of it. -/
theorem treats_gatherClause (h : IsOpenGrammar doc annex id e) (hdoc : doc.IsTree) {text : Text} {pos : Nat}
    (hsound : doc.Sound text pos) {above : Option NodeId} {clause : NodeId} {e' : Element}
    {children : List Tree} (hdepicts : Tree.Depicts doc above (.element clause e' children))
    (hclause : clauseNames.contains e'.name = true) (hlast : ∀ t ∈ children.dropLast, isLeftOpen t = false)
    (hmem : id ∈ Tree.ids.idsAll children) :
    Ends (StopsElsewhere doc id)
      (fun own => ((∃ t ∈ children, t.id = id) → isEarlyErrors doc clause = false) ∧ id ∉ own.named)
      (gatherClause doc (contextOf doc annex clause) clause e' children) := by
  have haround := hdepicts.mem_ancestors hdoc hmem
  have hne : clause ≠ id := Nat.ne_of_lt (hdoc.lt_of_mem_ancestors haround)
  cases hdepicts with
  | element hnode hids hchildren =>
    by_cases hchild : ∃ t ∈ children, t.id = id
    · obtain ⟨t, ht, hid⟩ := hchild
      have hdepicts := hchildren t ht
      have hparent : doc.parent? id = some clause := hid ▸ hdepicts.parent?_eq
      obtain ⟨hopen, below, heq⟩ := h.isLeftOpen hdepicts hid
      rcases gatherClause_eq hdoc hsound (.element hnode hids hchildren) hclause
        (h.inAnnex_of_mem_ancestors hdoc haround) with ⟨hearly, header, hgather⟩ | ⟨hearly, hgather⟩
      · -- the last of the children is grammar without a list
        have hconcat := eq_dropLast_concat hlast ht hopen
        obtain ⟨c, hc⟩ := exists_groupsOf_eq_error clause e' h.name children.dropLast none
        rw [← heq, ← hconcat] at hc
        have hin : inEarlyErrors doc id = true := by
          rw [inEarlyErrors, hparent]
          exact hearly
        rw [hgather, gatherEarlyErrors, hc]
        rintro c' - hout
        rw [hin] at hout
        cases hout
      · rcases hgather with hgather | ⟨header, hgather⟩
        · rw [hgather]
          exact ⟨fun _ => hearly, (isAbout_nothing _).not_mem_named⟩
        · rw [hgather]
          exact ⟨fun _ => hearly, (isAbout_ofHeader _ header).not_mem_named⟩
    · -- no child is the grammar, and the clause is not either
      have hothers : ∀ t ∈ children, ∀ e', t.element? = some e' → t.id ≠ id :=
        fun t ht _ _ hid => hchild ⟨t, ht, hid⟩
      have hwalk := walkIsAbout_gatherClause (P := fun x _ => x ≠ id) (e := e') doc hne hothers
        (contextOf doc annex clause)
      exact hwalk.spares.imp (fun _ hstop => hstop) fun own hown => ⟨fun hno => absurd hno hchild, hown⟩

theorem treats_gatherNode (h : IsOpenGrammar doc annex id e) (hdoc : doc.IsTree) {text : Text} {pos : Nat}
    (hsound : doc.Sound text pos) {t : Tree} {above : Option NodeId} (ht : t.Depicts doc above)
    (hopens : OpensLast t) {parent : NodeId} (habove : above = some parent) (hmem : id ∈ t.ids)
    {next : Option Tree} (hnext : t.id = id → next = none) :
    Treats doc id e (t.id = id) (gatherNode doc annex t (contextOf doc annex parent) next) := by
  induction ht generalizing parent next with
  | @text above x source span hnode =>
    obtain rfl := List.mem_singleton.mp hmem
    have helement := h.element
    rw [Document.element?, hnode] at helement
    cases helement
  | @element above x e' children hnode hids hchildren ih =>
    subst habove
    have hdepicts := Tree.Depicts.element hnode hids hchildren
    have he' := Document.element?_eq_some_of_node? hnode
    rw [gatherNode, ← contextOf_of_parent? hdoc he' hdepicts.parent?_eq]
    rcases List.mem_cons.mp hmem with rfl | hmem
    · -- the walk has come to the grammar
      have heq := h.element
      rw [he'] at heq
      cases heq
      have hno : ¬ clauseNames.contains e.name = true := by
        rw [h.name]
        decide
      rw [if_neg hno, if_pos h.name, hnext rfl]
      exact ⟨Or.inl rfl, h.passes_gatherGrammar⟩
    · have hne := h.ne_of_mem_ancestors (hdepicts.mem_ancestors hdoc hmem) he'
      have hnodup := (List.nodup_cons.mp (hdepicts.nodup_ids hdoc)).2
      cases hopens with
      | element hlast hbelow =>
        have hwalk : Treats doc id e (∃ t ∈ children, t.id = id)
            (gather doc annex children (contextOf doc annex x)) :=
          treats_gather h hchildren hlast hnodup hmem
            fun t ht hmem next hnext => ih t ht (hbelow t ht) rfl hmem hnext
        -- a child has this element for its parent, and there are no early errors here
        have hparent : ((∃ t ∈ children, t.id = id) → isEarlyErrors doc x = false) →
            (∃ t ∈ children, t.id = id) ∨ inEarlyErrors doc id = false → inEarlyErrors doc id = false := by
          rintro hearly (hchild | hout)
          · obtain ⟨t, ht, rfl⟩ := hchild
            rw [inEarlyErrors, (hchildren t ht).parent?_eq]
            exact hearly ⟨t, ht, rfl⟩
          · exact hout
        split
        · rename_i hclause
          refine Ends.bind (treats_gatherClause h hdoc hsound hdepicts hclause hlast hmem) fun own hown => ?_
          refine Ends.bind hwalk fun below hfound => ?_
          exact ⟨Or.inr (hparent hown.1 hfound.1), .append_right hown.2 hfound.2⟩
        · rename_i hclause
          rw [if_neg hne.2, if_neg hne.1]
          have hearly : isEarlyErrors doc x = false := by
            rw [isEarlyErrors, any_isNamed_clauseNames he', Bool.eq_false_iff.mpr hclause]
            rfl
          exact hwalk.imp (fun _ hstop => hstop) fun found hfound =>
            ⟨Or.inr (hparent (fun _ => hearly) hfound.1), hfound.2⟩

end Walk

/-! ## 4. Whole texts -/

/-- There is no collection, and a complaint says that the grammar has no end tag, or that early errors are
misshapen. -/
def Outcome.Refuses (outcome : Outcome) (id : NodeId) : Prop :=
  outcome.collection = none ∧ ∃ c ∈ outcome.complaints,
    c.problem = .unclosedGrammar ∧ c.element = id ∨ c.problem.rule = .earlyErrorShape

theorem Gathered.mem_named_of_outcome {found : Gathered} {id : NodeId} (h : id ∈ found.outcome.named) :
    id ∈ found.named := by
  rcases List.mem_append.mp h with h | h
  · exact List.mem_append_left _ h
  · refine List.mem_append_right _ ?_
    unfold Gathered.outcome at h
    dsimp only at h
    split at h
    · cases h
    · exact h

theorem Gathered.refuses_outcome {found : Gathered} {id : NodeId} {e : Element}
    (h : complaintAt .unclosedGrammar id e ∈ found.complaints) : found.outcome.Refuses id := by
  refine ⟨?_, _, h, Or.inl ⟨rfl, rfl⟩⟩
  unfold Gathered.outcome
  rw [if_pos (List.any_eq_true.mpr ⟨_, h, decide_eq_true rfl⟩)]

/-- Below the root the walk comes to all grammar that is left open. -/
theorem IsOpenGrammar.treats_read {filename : Path} {text annex : Text} {id : NodeId} {e : Element}
    (h : IsOpenGrammar (read filename text) annex id e) :
    ∃ root children, (read filename text).tree Document.root = .ok (.element Document.root root children) ∧
      Treats (read filename text) id e False
        (gather (read filename text) annex children ⟨false, false, false⟩) := by
  obtain ⟨t, ht, hopens⟩ := opensLast_read filename text
  obtain ⟨pos, hsound⟩ := sound_read filename text
  have hdoc := isTree_read filename text
  obtain ⟨hroot, hdepicts⟩ := hdoc.depicts_tree ht
  obtain ⟨node, hnode, -⟩ := Option.bind_eq_some_iff.mp h.element
  have hmem : id ∈ t.ids := by
    rw [Spine.ids_tree_read filename text ht]
    exact List.mem_range.mpr (List.getElem?_eq_some_iff.mp hnode).1
  have hentered := isEntered_root hdoc
  have hne : id ≠ Document.root := by
    rintro rfl
    have hname := hentered.grammar
    rw [isNamed_of_element? h.element, h.name] at hname
    exact absurd hname (by decide)
  cases hdepicts with
  | @text _ x source span hx =>
    obtain rfl : x = Document.root := hroot
    exact absurd (List.mem_singleton.mp hmem) hne
  | @element _ x root children hx hids hchildren =>
    obtain rfl : x = Document.root := hroot
    have hbelow := (List.mem_cons.mp hmem).resolve_left hne
    have hnodup := (List.nodup_cons.mp ((Tree.Depicts.element hx hids hchildren).nodup_ids hdoc)).2
    refine ⟨root, children, ht, ?_⟩
    cases hopens with
    | element hlast hopens =>
      rw [← contextOf_root hdoc]
      refine Ends.imp (treats_gather h hchildren hlast hnodup hbelow fun t ht hmem next hnext =>
        treats_gatherNode h hdoc hsound (hchildren t ht) (hopens t ht) rfl hmem hnext)
        (fun _ hstop => hstop) fun found hfound => ⟨Or.inr ?_, hfound.2⟩
      -- the root is no clause
      rcases hfound.1 with ⟨t, ht, rfl⟩ | hout
      · obtain ⟨e', hnode', hname, -⟩ := hdoc.root
        rw [inEarlyErrors, (hchildren t ht).parent?_eq, Option.any_some, isEarlyErrors,
          any_isNamed_clauseNames (Document.element?_eq_some_of_node? hnode'), hname]
        rfl
      · exact hout

/-- Grammar without an end tag that is a definition or in a clause of early errors leaves no collection, with a
complaint. Any other grammar without an end tag is neither collected nor complained about. -/
theorem refuses_or_passes_over_unclosed (filename : Path) (text annex : Text) (id : NodeId)
    (hgrammar : isGrammar (read filename text) annex id = true)
    (hopen : hasEndTag (read filename text) id = false) :
    ∃ outcome, collect (read filename text) annex = .ok outcome ∧
      (isDefinition (read filename text) id = true ∨ inEarlyErrors (read filename text) id = true →
        outcome.Refuses id) ∧
      (isDefinition (read filename text) id = false → inEarlyErrors (read filename text) id = false →
        id ∉ outcome.named) := by
  obtain ⟨pos, hsound⟩ := sound_read filename text
  obtain ⟨outcome, hcollect, -⟩ := (yields_collect hsound annex).eq_ok
  refine ⟨outcome, hcollect, ?_⟩
  obtain ⟨e, h⟩ := exists_isOpenGrammar hgrammar hopen
  obtain ⟨root, children, ht, htreats⟩ := h.treats_read
  cases (read filename text).shows_of_tree ht with
  | element helement hids hchildren =>
    have hwalk : WalkIsAbout (fun x e' => (read filename text).element? x = some e')
        (gather (read filename text) annex children ⟨false, false, false⟩) :=
      walkIsAbout_gather (fun t ht => walkIsAbout_gatherNode _ annex (hchildren t ht).everywhere) _
    unfold collect at hcollect
    rw [ht] at hcollect
    dsimp only [bind, Except.bind] at hcollect
    split at hcollect
    · cases hcollect
    · -- the walk was stopped
      rename_i c hshape
      rw [hshape] at htreats hwalk
      cases hcollect
      obtain ⟨shape, id', e', -, rfl⟩ := hwalk c rfl
      refine ⟨fun _ => ⟨rfl, _, List.mem_singleton_self _, Or.inr rfl⟩, fun _ hout hmem => ?_⟩
      rw [Outcome.named, Option.elim_none, List.append_nil, List.map_singleton, List.mem_singleton] at hmem
      exact htreats _ rfl hout hmem.symm
    · -- the walk came to its end, so the grammar is not in early errors
      rename_i found hok
      rw [hok] at htreats
      cases hcollect
      obtain ⟨hout, hpasses⟩ := htreats
      have hout := hout.resolve_left not_false
      refine ⟨?_, fun hfragment _ hmem => hpasses.fragment hfragment (Gathered.mem_named_of_outcome hmem)⟩
      rintro (hdefinition | hin)
      · exact Gathered.refuses_outcome (hpasses.definition hdefinition)
      · rw [hout] at hin
        cases hin

/-- A definition and a fragment without an end tag, each followed by an algorithm in the text. -/
theorem refuses_or_passes_over_unclosed_both :
    let page := read [] ("<div><emu-grammar type=definition>A<emu-alg>1. x</emu-alg></div>" ++
      "<div><emu-grammar>B<emu-alg>1. y</emu-alg></div>").toList
    ∃ outcome, collect page "b".toList = .ok outcome ∧ outcome.Refuses 2 ∧ 7 ∉ outcome.named := by
  intro page
  have hpage : (isGrammar page "b".toList 2 = true ∧ hasEndTag page 2 = false ∧ isDefinition page 2 = true) ∧
      isGrammar page "b".toList 7 = true ∧ hasEndTag page 7 = false ∧ isDefinition page 7 = false ∧
        inEarlyErrors page 7 = false := by
    decide +kernel
  obtain ⟨⟨hgrammar, hopen, hdefinition⟩, hgrammar', hopen', hfragment, hout⟩ := hpage
  obtain ⟨outcome, hcollect, hrefuses, -⟩ :=
    refuses_or_passes_over_unclosed [] _ "b".toList 2 hgrammar hopen
  obtain ⟨outcome', hcollect', -, hpasses⟩ :=
    refuses_or_passes_over_unclosed [] _ "b".toList 7 hgrammar' hopen'
  rw [hcollect] at hcollect'
  cases hcollect'
  exact ⟨outcome, hcollect, hrefuses (Or.inl hdefinition), hpasses hfragment hout⟩

/-- An algorithm stands behind grammar without an end tag, and nothing is said. -/
theorem collect_unclosed_fragment_silent :
    let page := read [] "<div><emu-grammar>A<emu-alg>1. Return 1.</emu-alg></div>".toList
    let options : Lint.Options := {}
    isGrammar page options.annex 2 = true ∧ hasEndTag page 2 = false ∧
      collect page options.annex = .ok ⟨some ⟨[], [], [], [], []⟩, []⟩ := by
  decide +kernel

end Collection

end Errata
