import Errata.Lint
import Errata.Proofs.Collection

/-!
# How a collection ends

A walk that comes to its end complains about missing end tags only. There is then a collection, unless one of
them is missing from grammar. A walk that is stopped by the shape of early errors complains about that shape
and forgets what it has met before. If there is no collection, nothing but these complaints is reported.
-/

namespace Errata

theorem Document.shows_of_tree {doc : Document} {id : NodeId} {t : Tree} (h : doc.tree id = .ok t) :
    t.Shows doc := by
  unfold tree treeWithout at h
  split at h
  · rename_i t' hdepth
    cases h
    exact (shows_of_treeOfDepth? hdepth).2
  · cases h

/-- The property holds of every element of the tree. -/
inductive Tree.Everywhere (P : NodeId → Element → Prop) : Tree → Prop
  | text {id : NodeId} {source : SourceId} {span : Span} : Everywhere P (.text id source span)
  | element {id : NodeId} {e : Element} {children : List Tree} (h : P id e)
      (hchildren : ∀ t ∈ children, Everywhere P t) : Everywhere P (.element id e children)

theorem Tree.Everywhere.element? {P : NodeId → Element → Prop} {t : Tree} (h : t.Everywhere P) {e : Element}
    (he : t.element? = some e) : P t.id e := by
  cases h with
  | text => cases he
  | element h =>
    cases he
    exact h

theorem Tree.Shows.everywhere {doc : Document} {t : Tree} (h : t.Shows doc) :
    t.Everywhere fun id e => doc.element? id = some e := by
  induction h with
  | text hnode => exact .text
  | element helement hids hchildren ih => exact .element helement ih

namespace Collection

/-! ## 1. What is said about elements -/

/-- The grammar in a collection. -/
def grammarIds (c : Collection) : List NodeId :=
  c.grammars ++ c.operations.map Operation.grammar ++ c.earlyErrors.map EarlyErrors.grammar

theorem Gathered.mem_grammarIds_append {a b : Gathered} {id : NodeId} :
    id ∈ grammarIds (a ++ b).collection ↔ id ∈ grammarIds a.collection ∨ id ∈ grammarIds b.collection := by
  show id ∈ grammarIds (a.append b).collection ↔ _
  simp only [grammarIds, append, List.map_append, List.mem_append]
  grind

/-- The complaint is that an element with the given property has no end tag. -/
inductive MissesEndTag (P : NodeId → Element → Prop) : Complaint Problem → Prop
  | algorithm {id : NodeId} {e : Element} (h : P id e) (hname : e.name = algorithmName)
      (hend : e.endTag = none) : MissesEndTag P (complaintAt .unclosedAlgorithm id e)
  | grammar {id : NodeId} {e : Element} (h : P id e) (hname : e.name = grammarName)
      (hend : e.endTag = none) : MissesEndTag P (complaintAt .unclosedGrammar id e)

/-- What is said about elements is said about elements with the given property. -/
structure Gathered.IsAbout (P : NodeId → Element → Prop) (found : Gathered) : Prop where
  complaints : ∀ c ∈ found.complaints, MissesEndTag P c
  grammars : ∀ id ∈ grammarIds found.collection, ∃ e, P id e

/-- A walk comes to its end or stops, and speaks of elements with the given property only. -/
def WalkIsAbout (P : NodeId → Element → Prop) : Except Stop Gathered → Prop :=
  Ends (fun stop => ∀ c, stop = .shape c → IsShapeAt P c) (Gathered.IsAbout P)

section Parts

variable {P : NodeId → Element → Prop} {id : NodeId} {e : Element}

theorem isAbout_nothing (P : NodeId → Element → Prop) : Gathered.nothing.IsAbout P :=
  ⟨List.forall_mem_nil _, List.forall_mem_nil _⟩

theorem isAbout_ofHeader (P : NodeId → Element → Prop) (header : Header) :
    (Gathered.ofHeader header).IsAbout P :=
  ⟨List.forall_mem_nil _, List.forall_mem_nil _⟩

theorem Gathered.IsAbout.append {a b : Gathered} (ha : a.IsAbout P) (hb : b.IsAbout P) :
    (a ++ b).IsAbout P := by
  refine ⟨List.forall_mem_append.mpr ⟨ha.complaints, hb.complaints⟩, fun id hid => ?_⟩
  rcases mem_grammarIds_append.mp hid with hid | hid
  · exact ha.grammars id hid
  · exact hb.grammars id hid

theorem isAbout_ofComplaint {c : Complaint Problem} (h : MissesEndTag P c) :
    (Gathered.ofComplaint c).IsAbout P :=
  ⟨fun _ hc => List.mem_singleton.mp hc ▸ h, List.forall_mem_nil _⟩

theorem isAbout_gatherAlgorithm (h : P id e) (hname : e.name = algorithmName) (context : Context) :
    (gatherAlgorithm context id e).IsAbout P := by
  unfold gatherAlgorithm
  split
  · exact isAbout_nothing P
  split
  · exact ⟨List.forall_mem_nil _, List.forall_mem_nil _⟩
  · rename_i hend
    exact isAbout_ofComplaint (.algorithm h hname (Option.not_isSome_iff_eq_none.mp hend))

theorem isAbout_gatherGrammar (h : P id e) (hname : e.name = grammarName) (context : Context)
    (next : Option Tree) : (gatherGrammar context id e next).IsAbout P := by
  have hopen : ¬ e.endTag.isSome = true →
      (Gathered.ofComplaint (complaintAt .unclosedGrammar id e)).IsAbout P :=
    fun hend => isAbout_ofComplaint (.grammar h hname (Option.not_isSome_iff_eq_none.mp hend))
  have hself : ∀ x ∈ [id], ∃ e, P x e := fun x hx => List.mem_singleton.mp hx ▸ ⟨e, h⟩
  unfold gatherGrammar
  split
  · exact isAbout_nothing P
  split
  · -- a definition
    split
    · exact ⟨List.forall_mem_nil _, hself⟩
    · rename_i hend
      exact hopen hend
  · -- a fragment, if an algorithm follows
    split
    · exact isAbout_nothing P
    · split
      · exact isAbout_nothing P
      split
      · exact ⟨List.forall_mem_nil _, hself⟩
      · rename_i hend
        exact hopen hend

theorem walkIsAbout_gatherEarlyErrors (h : P id e) {children : List Tree}
    (hchildren : ∀ t ∈ children, ∀ e', t.element? = some e' → P t.id e') :
    WalkIsAbout P (gatherEarlyErrors id e children) := by
  have hgroups := @ends_groupsOf id e P h children hchildren none fun g hg => by cases hg
  unfold gatherEarlyErrors
  split
  · rename_i c herror
    rw [herror] at hgroups
    rintro c' hc'
    cases hc'
    exact hgroups
  · rename_i groups hok
    rw [hok] at hgroups
    refine ⟨fun c hc => ?_, fun x hx => ?_⟩
    · obtain ⟨g, hg, hc⟩ := List.mem_flatMap.mp hc
      unfold unclosed at hc
      split at hc
      · exact absurd hc List.not_mem_nil
      · rename_i hend
        rw [List.mem_singleton.mp hc]
        exact .grammar (hgroups g hg).1 (hgroups g hg).2 (Option.not_isSome_iff_eq_none.mp hend)
    · have hmem : x ∈ (groups.map Group.earlyErrors).map EarlyErrors.grammar := hx
      rw [List.map_map] at hmem
      obtain ⟨g, hg, rfl⟩ := List.mem_map.mp hmem
      exact ⟨g.element, (hgroups g hg).1⟩

theorem walkIsAbout_gatherClause (doc : Document) (h : P id e) {children : List Tree}
    (hchildren : ∀ t ∈ children, ∀ e', t.element? = some e' → P t.id e') (context : Context) :
    WalkIsAbout P (gatherClause doc context id e children) := by
  unfold gatherClause
  split
  · exact isAbout_nothing P
  split
  · exact isAbout_nothing P
  dsimp only
  split
  · exact isAbout_ofHeader P _
  split
  · -- a fault is no shape
    rintro c hc
    cases hc
  split
  · exact (walkIsAbout_gatherEarlyErrors h hchildren).map fun found hfound =>
      (isAbout_ofHeader P _).append hfound
  · exact isAbout_ofHeader P _

theorem walkIsAbout_gather {doc : Document} {annex : Text} {ts : List Tree}
    (h : ∀ t ∈ ts, ∀ context next, WalkIsAbout P (gatherNode doc annex t context next))
    (context : Context) : WalkIsAbout P (gather doc annex ts context) := by
  induction ts with
  | nil => exact isAbout_nothing P
  | cons t ts ih =>
    obtain ⟨ht, hts⟩ := List.forall_mem_cons.mp h
    rw [gather]
    refine (ht context _).bind fun found hfound => ?_
    exact (ih hts).bind fun others hothers => hfound.append hothers

theorem walkIsAbout_gatherNode (doc : Document) (annex : Text) {t : Tree} (ht : t.Everywhere P)
    (context : Context) (next : Option Tree) : WalkIsAbout P (gatherNode doc annex t context next) := by
  induction ht generalizing context next with
  | text => exact isAbout_nothing P
  | @element id e children h hchildren ih =>
    have hbelow : ∀ t ∈ children, ∀ e', t.element? = some e' → P t.id e' :=
      fun t ht _ he' => (hchildren t ht).element? he'
    rw [gatherNode]
    split
    · refine (walkIsAbout_gatherClause doc h hbelow _).bind fun own hown => ?_
      exact (walkIsAbout_gather ih _).bind fun below hbelow => hown.append hbelow
    split
    · rename_i hname
      exact isAbout_gatherGrammar h hname _ next
    split
    · rename_i hname
      exact isAbout_gatherAlgorithm h hname _
    · exact walkIsAbout_gather ih _

end Parts

/-! ## 2. Missing end tags -/

/-- The complaint is at the start tag of an element of the given name that has no end tag. -/
def IsUnclosedAt (doc : Document) (name : Text) (c : Complaint Problem) : Prop :=
  ∃ e, doc.element? c.element = some e ∧ e.name = name ∧ e.endTag = none ∧ c.offset = e.startTag.start

def MissesAlgorithm (doc : Document) (c : Complaint Problem) : Prop :=
  c.problem = .unclosedAlgorithm ∧ IsUnclosedAt doc algorithmName c

def MissesGrammar (doc : Document) (c : Complaint Problem) : Prop :=
  c.problem = .unclosedGrammar ∧ IsUnclosedAt doc grammarName c

section Outcome

variable {doc : Document}

theorem MissesEndTag.cases {c : Complaint Problem}
    (h : MissesEndTag (fun id e => doc.element? id = some e) c) :
    MissesAlgorithm doc c ∨ MissesGrammar doc c := by
  cases h with
  | @algorithm id e he hname hend => exact Or.inl ⟨rfl, e, he, hname, hend, rfl⟩
  | @grammar id e he hname hend => exact Or.inr ⟨rfl, e, he, hname, hend, rfl⟩

end Outcome

end Collection

/-! ## 3. Reports -/

namespace Lint

/-- The diagnostics that are raised before the walk. -/
def earlier (options : Options) (doc : Document) : List Diagnostic :=
  if options.spelling then spelling doc else []

/-- The diagnostics that the walk raises. -/
def structural (outcome : Collection.Outcome) : List Diagnostic :=
  outcome.complaints.map fun c => .ofComplaint (c.map .collection)

variable {doc : Document} {options : Options} {outcome : Collection.Outcome}

/-- The complaints are those of the walk and, if it gives a collection, those of each check on it. -/
theorem complaints_cases {readers : Readers} {annex : Text} {found : List (Complaint Problem)}
    (h : complaints readers annex doc = .ok found) :
    ∃ outcome, Collection.collect doc annex = .ok outcome ∧
      ((outcome.collection = none ∧ found = outcome.complaints.map (.map .collection)) ∨
        ∃ collection grammar algorithms headers, outcome.collection = some collection ∧
          Grammar.Consistency.check readers.grammar doc collection = .ok grammar ∧
          collection.algorithms.mapM (checkAlgorithm readers doc annex) = .ok algorithms ∧
          Header.check doc collection.headers = .ok headers ∧
          found = outcome.complaints.map (.map .collection) ++
            (grammar.map (.map .grammar) ++ algorithms.flatten ++ headers.map (.map .header))) := by
  obtain ⟨outcome, hcollect, h⟩ := bind_eq_ok_iff.mp h
  refine ⟨outcome, hcollect, ?_⟩
  dsimp only at h
  cases hcollection : outcome.collection with
  | none =>
    simp only [hcollection] at h
    cases h
    exact .inl ⟨rfl, rfl⟩
  | some collection =>
    simp only [hcollection] at h
    obtain ⟨checked, hchecked, h⟩ := bind_eq_ok_iff.mp h
    cases h
    obtain ⟨grammar, hgrammar, hchecked⟩ := bind_eq_ok_iff.mp hchecked
    obtain ⟨algorithms, halgorithms, hchecked⟩ := bind_eq_ok_iff.mp hchecked
    obtain ⟨headers, hheaders, hchecked⟩ := bind_eq_ok_iff.mp hchecked
    cases hchecked
    exact .inr ⟨collection, grammar, algorithms, headers, rfl, hgrammar, halgorithms, hheaders, rfl⟩

end Lint

end Errata
