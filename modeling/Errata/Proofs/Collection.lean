import Errata.Collection
import Errata.Proofs.Document.Tree
import Errata.Proofs.Finding

/-!
# The walk over a document

The walk over a document that was read from a text comes to its end or to a complaint. All that it gathers
are elements of the text, and its complaints are where their start tags stand.
-/

namespace Errata

open Text

/-- Below a node, every tree shows a node that is not the root. -/
theorem Document.Sound.below {doc : Document} {text : Text} {pos : Nat} (hdoc : doc.Sound text pos)
    {id : NodeId} {e : Element} {children : List Tree}
    (h : (Tree.element id e children).Shows doc) : ∀ t ∈ children, t.Shows doc ∧ t.id ≠ 0 := by
  cases h with
  | element helement hids hchildren =>
    intro t ht
    have hlt := ((hdoc.element helement).2.2.1 t.id (hids t ht)).1
    exact ⟨hchildren t ht, Nat.ne_zero_of_lt hlt⟩

theorem Document.lt_count_of_element? {doc : Document} {id : NodeId} {e : Element}
    (h : doc.element? id = some e) : id < doc.count := by
  obtain ⟨node, hnode, -⟩ := Option.bind_eq_some_iff.mp h
  exact (List.getElem?_eq_some_iff.mp hnode).1

theorem Tree.Shows.id_lt {doc : Document} {t : Tree} (h : t.Shows doc) : t.id < doc.count := by
  cases h with
  | text hnode => exact (List.getElem?_eq_some_iff.mp hnode).1
  | element helement => exact Document.lt_count_of_element? helement

theorem Tree.Shows.element? {doc : Document} {t : Tree} (h : t.Shows doc) {e : Element}
    (he : t.element? = some e) : doc.element? t.id = some e := by
  cases h with
  | text hnode => cases he
  | element helement =>
    cases he
    exact helement

namespace Collection

/-- The element belongs to a node that is not the root. -/
def IsElementAt (doc : Document) (id : NodeId) (e : Element) : Prop :=
  doc.element? id = some e ∧ id ≠ 0

/-- The number is that of a node other than the root. -/
structure IsInside (doc : Document) (id : NodeId) : Prop where
  ne_root : id ≠ 0
  lt_count : id < doc.count

theorem IsElementAt.isInside {doc : Document} {id : NodeId} {e : Element} (h : IsElementAt doc id e) :
    IsInside doc id :=
  ⟨h.2, Document.lt_count_of_element? h.1⟩

/-- What was gathered belongs to nodes that are not the root, and the complaints are shown. -/
structure Gathered.Sound (doc : Document) (text : Text) (found : Gathered) : Prop where
  headers : ∀ header ∈ found.collection.headers, header.element < doc.count
  grammars : ∀ id ∈ found.collection.grammars, IsInside doc id
  operations : ∀ operation ∈ found.collection.operations, IsInside doc operation.grammar
  earlyErrors : ∀ group ∈ found.collection.earlyErrors, IsInside doc group.grammar
  algorithms : ∀ algorithm ∈ found.collection.algorithms, IsInside doc algorithm.element
  complaints : ∀ c ∈ found.complaints, c.IsShown doc text

namespace Gathered

theorem append_nothing (found : Gathered) : found ++ nothing = found := by
  show found.append nothing = found
  simp [append, nothing]

theorem nothing_append (found : Gathered) : nothing ++ found = found := rfl

variable {doc : Document} {text : Text}

theorem sound_nothing (doc : Document) (text : Text) : nothing.Sound doc text := by
  constructor
  all_goals exact List.forall_mem_nil _

theorem Sound.append {a b : Gathered} (ha : a.Sound doc text) (hb : b.Sound doc text) :
    (a ++ b).Sound doc text where
  headers := List.forall_mem_append.mpr ⟨ha.headers, hb.headers⟩
  grammars := List.forall_mem_append.mpr ⟨ha.grammars, hb.grammars⟩
  operations := List.forall_mem_append.mpr ⟨ha.operations, hb.operations⟩
  earlyErrors := List.forall_mem_append.mpr ⟨ha.earlyErrors, hb.earlyErrors⟩
  algorithms := List.forall_mem_append.mpr ⟨ha.algorithms, hb.algorithms⟩
  complaints := List.forall_mem_append.mpr ⟨ha.complaints, hb.complaints⟩

theorem sound_ofComplaint {c : Complaint Problem} (h : c.IsShown doc text) :
    (ofComplaint c).Sound doc text :=
  { sound_nothing doc text with complaints := fun _ hc => List.mem_singleton.mp hc ▸ h }

end Gathered

/-- A walk ends with a complaint that is shown, or with sound findings. -/
def WalkEnds (doc : Document) (text : Text) : Except Stop Gathered → Prop :=
  Ends (fun stop => ∃ c, stop = .shape c ∧ c.IsShown doc text) (Gathered.Sound doc text)

section Parts

variable {doc : Document} {text : Text} {pos : Nat} {id : NodeId} {e : Element}

theorem isShown_complaintAt (hdoc : doc.Sound text pos) (h : IsElementAt doc id e)
    (problem : Problem) : (complaintAt problem id e).IsShown doc text :=
  ⟨h.isInside.lt_count, ((hdoc.element h.1).2.2.2 h.2).start⟩

theorem sound_gatherAlgorithm (hdoc : doc.Sound text pos) (h : IsElementAt doc id e)
    (context : Context) : (gatherAlgorithm context id e).Sound doc text := by
  have hnothing := Gathered.sound_nothing doc text
  unfold gatherAlgorithm
  split
  · exact hnothing
  split
  · exact { hnothing with algorithms := fun _ ha => List.mem_singleton.mp ha ▸ h.isInside }
  · exact Gathered.sound_ofComplaint (isShown_complaintAt hdoc h _)

theorem sound_gatherGrammar (hdoc : doc.Sound text pos) (h : IsElementAt doc id e)
    (context : Context) (next : Option Tree) : (gatherGrammar context id e next).Sound doc text := by
  have hnothing := Gathered.sound_nothing doc text
  have hcomplaint : (Gathered.ofComplaint (complaintAt .unclosedGrammar id e)).Sound doc text :=
    Gathered.sound_ofComplaint (isShown_complaintAt hdoc h _)
  unfold gatherGrammar
  split
  · exact hnothing
  split
  · split
    · exact { hnothing with grammars := fun _ hid => List.mem_singleton.mp hid ▸ h.isInside }
    · exact hcomplaint
  · split
    · exact hnothing
    · split
      · exact hnothing
      split
      · exact { hnothing with operations := fun _ ho => List.mem_singleton.mp ho ▸ h.isInside }
      · exact hcomplaint

/-! ## 1. Early errors -/

/-- The complaint is about the shape of early errors, at an element with the given property. -/
def IsShapeAt (P : NodeId → Element → Prop) (c : Complaint Problem) : Prop :=
  ∃ shape id e, P id e ∧ c = complaintAt (.earlyErrors shape) id e

/-- The grammar of the groups, and what a complaint is about, is the clause or one of its children. -/
theorem ends_groupsOf {P : NodeId → Element → Prop} (h : P id e) {children : List Tree}
    (hchildren : ∀ t ∈ children, ∀ e', t.element? = some e' → P t.id e') {current : Option Group}
    (hcurrent : ∀ g, current = some g → P g.id g.element ∧ g.element.name = grammarName) :
    Ends (IsShapeAt P) (fun groups => ∀ g ∈ groups, P g.id g.element ∧ g.element.name = grammarName)
      (groupsOf id e current children) := by
  induction children generalizing current with
  | nil =>
    unfold groupsOf
    split
    · exact ⟨_, id, e, h, rfl⟩
    · rename_i group
      split
      · exact ⟨_, group.id, group.element, (hcurrent group rfl).1, rfl⟩
      · exact fun g hg => List.mem_singleton.mp hg ▸ hcurrent group rfl
  | cons child children ih =>
    obtain ⟨hchild, hrest⟩ := List.forall_mem_cons.mp hchildren
    cases child with
    | text child source span => exact ih hrest hcurrent
    | element child e' below =>
      have hchild : P child e' := hchild e' rfl
      unfold groupsOf
      dsimp only
      split
      · -- grammar begins a group, and the group before it is complete
        rename_i hname
        have hbegun := @ih hrest (some ⟨child, e', []⟩) fun g hg => Option.some.inj hg ▸ ⟨hchild, hname⟩
        split
        · exact hbegun
        · rename_i group
          split
          · exact ⟨_, child, e', hchild, rfl⟩
          · exact hbegun.map fun groups hgroups =>
              List.forall_mem_cons.mpr ⟨hcurrent group rfl, hgroups⟩
      · split
        · -- a list goes to the group that is open
          split
          · exact ⟨_, child, e', hchild, rfl⟩
          · rename_i group
            exact ih hrest fun g hg => Option.some.inj hg ▸ hcurrent group rfl
        · exact ih hrest hcurrent

theorem walkEnds_gatherEarlyErrors (hdoc : doc.Sound text pos) (h : IsElementAt doc id e)
    {children : List Tree} (hchildren : ∀ t ∈ children, t.Shows doc ∧ t.id ≠ 0) :
    WalkEnds doc text (gatherEarlyErrors id e children) := by
  have hbelow : ∀ t ∈ children, ∀ e', t.element? = some e' → IsElementAt doc t.id e' :=
    fun t ht e' he' => ⟨(hchildren t ht).1.element? he', (hchildren t ht).2⟩
  have hgroups := @ends_groupsOf id e (IsElementAt doc) h children hbelow none fun g hg => by cases hg
  unfold gatherEarlyErrors
  split
  · rename_i c herror
    rw [herror] at hgroups
    obtain ⟨shape, id', e', hat, rfl⟩ := hgroups
    exact ⟨_, rfl, isShown_complaintAt hdoc hat _⟩
  · rename_i groups hok
    rw [hok] at hgroups
    refine { Gathered.sound_nothing doc text with earlyErrors := ?_, complaints := ?_ }
    · intro group hgroup
      obtain ⟨g, hg, rfl⟩ := List.mem_map.mp hgroup
      exact (hgroups g hg).1.isInside
    · intro c hc
      obtain ⟨g, hg, hc⟩ := List.mem_flatMap.mp hc
      unfold unclosed at hc
      split at hc
      · exact absurd hc List.not_mem_nil
      · rw [List.mem_singleton.mp hc]
        exact isShown_complaintAt hdoc (hgroups g hg).1 _

theorem walkEnds_gatherClause (hdoc : doc.Sound text pos) (h : IsElementAt doc id e)
    (context : Context) {children : List Tree} (hchildren : ∀ t ∈ children, t.Shows doc ∧ t.id ≠ 0) :
    WalkEnds doc text (gatherClause doc context id e children) := by
  have hnothing := Gathered.sound_nothing doc text
  unfold gatherClause
  split
  · exact hnothing
  · rename_i first hfirst
    have hshows := (hchildren first (List.mem_of_find?_eq_some hfirst)).1
    have hheader : (Gathered.ofHeader ⟨first.id, context.inAnnex⟩).Sound doc text :=
      { hnothing with headers := fun _ hh => List.mem_singleton.mp hh ▸ hshows.id_lt }
    split
    · exact hnothing
    dsimp only
    split
    · exact hheader
    · obtain ⟨title, htitle, -⟩ := (hdoc.yields_textOf hshows (some deletedName)).eq_ok
      rw [htitle]
      dsimp only
      split
      · exact (walkEnds_gatherEarlyErrors hdoc h hchildren).map fun found hfound =>
          hheader.append hfound
      · exact hheader

/-! ## 2. The walk -/

theorem walkEnds_gather {annex : Text} {ts : List Tree}
    (h : ∀ t ∈ ts, ∀ context next, WalkEnds doc text (gatherNode doc annex t context next))
    (context : Context) : WalkEnds doc text (gather doc annex ts context) := by
  induction ts with
  | nil => exact Gathered.sound_nothing doc text
  | cons t ts ih =>
    obtain ⟨ht, hts⟩ := List.forall_mem_cons.mp h
    rw [gather]
    refine (ht context _).bind fun found hfound => ?_
    exact (ih hts).bind fun others hothers => hfound.append hothers

theorem walkEnds_gatherNode (hdoc : doc.Sound text pos) (annex : Text) {t : Tree} (ht : t.Shows doc)
    (hid : t.id ≠ 0) (context : Context) (next : Option Tree) :
    WalkEnds doc text (gatherNode doc annex t context next) := by
  induction ht generalizing context next with
  | text hnode => exact Gathered.sound_nothing doc text
  | @element id e children helement hids hchildren ih =>
    have hbelow := hdoc.below (.element helement hids hchildren)
    have hat : IsElementAt doc id e := ⟨helement, hid⟩
    have hgather : ∀ inside, WalkEnds doc text (gather doc annex children inside) :=
      walkEnds_gather fun t ht => ih t ht (hbelow t ht).2
    rw [gatherNode]
    split
    · refine (walkEnds_gatherClause hdoc hat _ hbelow).bind fun own hown => ?_
      exact (hgather _).bind fun below hfound => hown.append hfound
    split
    · exact sound_gatherGrammar hdoc hat _ next
    split
    · exact sound_gatherAlgorithm hdoc hat _
    · exact hgather _

/-- What an outcome holds is sound. -/
structure Outcome.Sound (doc : Document) (text : Text) (outcome : Outcome) : Prop where
  collection : ∀ collection, outcome.collection = some collection →
    Gathered.Sound doc text ⟨collection, []⟩
  complaints : ∀ c ∈ outcome.complaints, c.IsShown doc text

theorem Gathered.Sound.outcome {found : Gathered} (h : found.Sound doc text) :
    found.outcome.Sound doc text := by
  refine ⟨fun collection hcollection => ?_, h.complaints⟩
  unfold Gathered.outcome at hcollection
  dsimp only at hcollection
  split at hcollection
  · cases hcollection
  · cases hcollection
    exact { h with complaints := List.forall_mem_nil _ }

theorem yields_collect (hdoc : doc.Sound text pos) (annex : Text) :
    Yields (Outcome.Sound doc text) (collect doc annex) := by
  unfold collect
  refine (hdoc.yields_treeWithout none hdoc.nonempty).bind fun t ht => ?_
  obtain ⟨-, hshows⟩ := ht
  cases t with
  | text id source span => exact (Gathered.sound_nothing doc text).outcome
  | element id e children =>
    have hbelow := hdoc.below hshows
    have hwalk : WalkEnds doc text (gather doc annex children ⟨false, false, false⟩) :=
      walkEnds_gather (fun t ht => walkEnds_gatherNode hdoc annex (hbelow t ht).1 (hbelow t ht).2) _
    dsimp only
    split
    · -- a walk stops only for the shape of what it finds
      rename_i fault hfault
      rw [hfault] at hwalk
      obtain ⟨c, hc, -⟩ := hwalk
      cases hc
    · rename_i c hshape
      rw [hshape] at hwalk
      obtain ⟨c', hc, hshown⟩ := hwalk
      cases hc
      refine ⟨fun _ hcollection => (nomatch hcollection), fun c hc => ?_⟩
      rw [List.mem_singleton.mp hc]
      exact hshown
    · rename_i found hok
      rw [hok] at hwalk
      exact Gathered.Sound.outcome hwalk

end Parts

end Collection

end Errata
