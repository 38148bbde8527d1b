import Errata.Proofs.Document.WellFormed

/-!
# Documents that are built by changes

Sources and nodes are added to a document, elements are closed, and whole texts are read into it below any of
its nodes, in any order. What is built so is a tree, and to go from sibling to sibling in it is to go along the
children of an element.
-/

namespace Errata

/-- A change to a document. -/
inductive Change where
  | addSource (source : Source)
  | appendElement (parent : NodeId) (element : Element)
  | appendText (parent : NodeId) (source : SourceId) (span : Span)
  | close (id : NodeId) (endTag : Option Span)
  | readInto (source : SourceId) (base : NodeId)
deriving DecidableEq, Repr

/-- The numbers of nodes and sources that the change names are in use, and an element comes without children. -/
def Change.Fits (doc : Document) : Change → Prop
  | .addSource _ => True
  | .appendElement parent element =>
    parent < doc.count ∧ element.source < doc.sources.length ∧ element.children = []
  | .appendText parent source _ => parent < doc.count ∧ source < doc.sources.length
  | .close id _ => id < doc.count
  | .readInto source base => source < doc.sources.length ∧ base < doc.count

instance Change.decidableFits (doc : Document) : (c : Change) → Decidable (c.Fits doc)
  | .addSource _ => inferInstanceAs (Decidable True)
  | .appendElement parent element =>
    inferInstanceAs (Decidable (parent < doc.count ∧ element.source < doc.sources.length ∧ element.children = []))
  | .appendText parent source _ =>
    inferInstanceAs (Decidable (parent < doc.count ∧ source < doc.sources.length))
  | .close id _ => inferInstanceAs (Decidable (id < doc.count))
  | .readInto source base => inferInstanceAs (Decidable (source < doc.sources.length ∧ base < doc.count))

namespace Document

def change (doc : Document) : Change → Except Fault Document
  | .addSource source => .ok (doc.addSource source)
  | .appendElement parent element => .ok (doc.append parent (.element element))
  | .appendText parent source span => .ok (doc.append parent (.text source span))
  | .close id endTag => .ok (doc.close id endTag)
  | .readInto source base => Markup.readInto doc source base

/-- The document after changes one after another. -/
def changeAll (doc : Document) : List Change → Except Fault Document
  | [] => .ok doc
  | c :: changes => doc.change c >>= fun after => after.changeAll changes

/-- Each of the changes fits the document as those before it have left it. -/
def AllFit (doc : Document) : List Change → Prop
  | [] => True
  | c :: changes => c.Fits doc ∧ ∀ after, doc.change c = .ok after → after.AllFit changes

theorem allFit_cons_iff {doc after : Document} {c : Change} {changes : List Change}
    (h : doc.change c = .ok after) : doc.AllFit (c :: changes) ↔ c.Fits doc ∧ after.AllFit changes := by
  rw [AllFit, h]
  simp

theorem allFit_cons_iff_of_error {doc : Document} {fault : Fault} {c : Change} {changes : List Change}
    (h : doc.change c = .error fault) : doc.AllFit (c :: changes) ↔ c.Fits doc := by
  rw [AllFit, h]
  simp

instance decidableAllFit : (doc : Document) → (changes : List Change) → Decidable (doc.AllFit changes)
  | _, [] => inferInstanceAs (Decidable True)
  | doc, c :: changes =>
    match h : doc.change c with
    | .ok after =>
      have := decidableAllFit after changes
      decidable_of_iff' (c.Fits doc ∧ after.AllFit changes) (allFit_cons_iff h)
    | .error _ => decidable_of_iff' (c.Fits doc) (allFit_cons_iff_of_error h)

/-- Going on from element to element, one comes to exactly these and then to no more. -/
inductive Visits (doc : Document) : Option NodeId → List NodeId → Prop
  | done : Visits doc none []
  | step {id : NodeId} {visited : List NodeId} (hnext : Visits doc (doc.nextElement? id) visited) :
      Visits doc (some id) (id :: visited)

/-- Parents and children are told in two ways that agree, and so are the ways along the children. -/
structure IsNavigable (doc : Document) : Prop where
  parent_lt : ∀ id : Nat, id < doc.count → id ≠ root →
    ∃ parent : Nat, doc.parent? id = some parent ∧ parent < id
  increasing : ∀ id : Nat, doc.isElement id = true → (doc.children id).Pairwise (· < ·)
  mem_children : ∀ id : Nat, doc.isElement id = true →
    ∀ child : Nat, child ∈ doc.children id ↔ doc.parent? child = some id
  next_iff_previous : ∀ a b : Nat, doc.isElement a = true → doc.isElement b = true →
    (doc.nextElement? a = some b ↔ doc.previousElement? b = some a)
  visits_iff : ∀ id : Nat, doc.isElement id = true → ∀ visited : List NodeId,
    doc.Visits (doc.firstElementChild? id) visited ↔ visited = doc.elementChildren id
  last_visited : ∀ id : Nat, doc.isElement id = true → ∀ visited : List NodeId,
    doc.Visits (doc.firstElementChild? id) visited → visited.getLast? = doc.lastElementChild? id

/-! ## 1. Along the children of an element -/

section Siblings

variable {doc : Document}

theorem IsTree.parent?_of_mem_children (h : doc.IsTree) {id child : Nat} (hchild : child ∈ doc.children id) :
    doc.parent? child = some id := by
  cases hid : doc.isElement id with
  | true => exact (h.mem_children hid child).mp hchild
  | false =>
    rw [children_of_not_isElement hid] at hchild
    exact absurd hchild List.not_mem_nil

theorem exists_of_siblings? {id : Nat} {before after : List NodeId}
    (h : doc.siblings? id = some (before, after)) :
    ∃ parent : Nat, doc.children parent = before ++ id :: after := by
  obtain ⟨parent, -, h⟩ := Option.bind_eq_some_iff.mp h
  refine ⟨parent, ?_⟩
  dsimp only at h
  by_cases hmem : id ∈ doc.children parent
  · rw [if_pos hmem] at h
    obtain ⟨rfl, rfl⟩ := Prod.mk.inj (Option.some.inj h)
    -- the first child that is not passed over is the node itself
    have hsplit := List.takeWhile_append_dropWhile (p := fun child => decide (child ≠ id)) (l := doc.children parent)
    cases hrest : (doc.children parent).dropWhile fun child => decide (child ≠ id) with
    | nil =>
      have hall := List.dropWhile_eq_nil_iff.mp hrest id hmem
      exact absurd rfl (of_decide_eq_true hall)
    | cons child rest =>
      have hchild := List.head?_dropWhile_not (fun child => decide (child ≠ id)) (doc.children parent)
      rw [hrest] at hchild hsplit
      simp only [List.head?_cons, ne_eq, decide_not, Bool.not_eq_eq_eq_not, Bool.not_false,
        decide_eq_true_eq] at hchild
      rw [hchild] at hsplit
      exact hsplit.symm
  · rw [if_neg hmem] at h
    cases h

/-- The two nodes are children of one element, with only text nodes between them. -/
def AreNeighbours (doc : Document) (a b : Nat) : Prop :=
  ∃ (parent : Nat) (before between after : List NodeId),
    doc.children parent = before ++ a :: (between ++ b :: after) ∧ ∀ x ∈ between, doc.isElement x = false

theorem IsTree.nextElement?_eq_some_iff (h : doc.IsTree) {a b : Nat} :
    doc.nextElement? a = some b ↔ doc.isElement b = true ∧ doc.AreNeighbours a b := by
  constructor
  · intro hnext
    obtain ⟨⟨before, after⟩, hsiblings, hfind⟩ := Option.bind_eq_some_iff.mp hnext
    obtain ⟨hb, between, rest, rfl, hbetween⟩ := List.find?_eq_some_iff_append.mp hfind
    obtain ⟨parent, hchildren⟩ := exists_of_siblings? hsiblings
    exact ⟨hb, parent, before, between, rest, hchildren, fun x hx => by simpa using hbetween x hx⟩
  · rintro ⟨hb, parent, before, between, after, hchildren, hbetween⟩
    have hparent : doc.parent? a = some parent := by
      apply h.parent?_of_mem_children
      rw [hchildren]
      exact List.mem_append_right _ List.mem_cons_self
    rw [h.nextElement?_eq hparent hchildren]
    exact List.find?_eq_some_iff_append.mpr
      ⟨hb, between, after, rfl, fun x hx => by simp [hbetween x hx]⟩

theorem IsTree.previousElement?_eq_some_iff (h : doc.IsTree) {a b : Nat} :
    doc.previousElement? b = some a ↔ doc.isElement a = true ∧ doc.AreNeighbours a b := by
  constructor
  · intro hprevious
    obtain ⟨⟨before, after⟩, hsiblings, hfind⟩ := Option.bind_eq_some_iff.mp hprevious
    obtain ⟨ha, between, rest, hreverse, hbetween⟩ := List.find?_eq_some_iff_append.mp hfind
    obtain ⟨parent, hchildren⟩ := exists_of_siblings? hsiblings
    have hbefore : before = rest.reverse ++ a :: between.reverse := by
      rw [← List.reverse_reverse before, hreverse]
      simp
    refine ⟨ha, parent, rest.reverse, between.reverse, after, ?_, fun x hx => ?_⟩
    · rw [hchildren, hbefore, List.append_assoc]
      rfl
    · simpa using hbetween x (List.mem_reverse.mp hx)
  · rintro ⟨ha, parent, before, between, after, hchildren, hbetween⟩
    have hsplit : doc.children parent = (before ++ a :: between) ++ b :: after := by
      rw [hchildren, List.append_assoc]
      rfl
    have hparent : doc.parent? b = some parent := by
      apply h.parent?_of_mem_children
      rw [hsplit]
      exact List.mem_append_right _ List.mem_cons_self
    rw [previousElement?, h.siblings?_eq hparent hsplit]
    show (before ++ a :: between).reverse.find? doc.isElement = some a
    -- looking back, the text nodes between come first
    apply List.find?_eq_some_iff_append.mpr
    refine ⟨ha, between.reverse, before.reverse, by simp, fun x hx => ?_⟩
    simp [hbetween x (List.mem_reverse.mp hx)]

theorem Visits.unique {start : Option NodeId} {visited visited' : List NodeId} (h : doc.Visits start visited)
    (h' : doc.Visits start visited') : visited = visited' := by
  induction h generalizing visited' with
  | done =>
    cases h'
    rfl
  | step _ ih =>
    cases h' with
    | step hnext => rw [ih hnext]

/-- From the first element among the last children of a node, one comes to all of them that are elements. -/
theorem IsTree.visits_filter (h : doc.IsTree) {parent : Nat} {before rest : List NodeId}
    (hchildren : doc.children parent = before ++ rest) :
    doc.Visits (rest.filter doc.isElement).head? (rest.filter doc.isElement) := by
  induction rest generalizing before with
  | nil => exact .done
  | cons child rest ih =>
    have hothers : doc.Visits (rest.filter doc.isElement).head? (rest.filter doc.isElement) := by
      have hsplit : doc.children parent = (before ++ [child]) ++ rest := by
        rw [hchildren, List.append_assoc]
        rfl
      exact ih hsplit
    by_cases hchild : doc.isElement child = true
    · have hparent : doc.parent? child = some parent := by
        apply h.parent?_of_mem_children
        rw [hchildren]
        exact List.mem_append_right _ List.mem_cons_self
      rw [List.filter_cons_of_pos hchild]
      apply Visits.step
      rw [h.nextElement?_eq hparent hchildren, ← List.head?_filter]
      exact hothers
    · rw [List.filter_cons_of_neg hchild]
      exact hothers

theorem IsTree.visits_elementChildren (h : doc.IsTree) (id : Nat) :
    doc.Visits (doc.firstElementChild? id) (doc.elementChildren id) :=
  @IsTree.visits_filter doc h id [] (doc.children id) rfl

end Siblings

/-! ## 2. What the changes keep -/

/-- Every node but the root has a parent. -/
def HasParents (doc : Document) : Prop :=
  ∀ id : Nat, id < doc.count → id ≠ root → (doc.parent? id).isSome = true

section Changes

variable {doc : Document}

theorem isSome_parent?_append_count (doc : Document) (parent : NodeId) (content : Content) :
    ((doc.append parent content).parent? doc.count).isSome = true := by
  have hnew : (doc.nodes ++ [⟨some parent, content⟩])[doc.count]? = some ⟨some parent, content⟩ :=
    List.getElem?_concat_length
  rw [parent?, node?, Document.append, List.getElem?_modify, hnew]
  -- a node that is its own parent adopts itself and keeps that parent
  by_cases hself : parent = doc.count
  · simp [hself, Node.parent_mapElement]
  · simp [hself]

theorem HasParents.append (h : doc.HasParents) (parent : NodeId) (content : Content) :
    (doc.append parent content).HasParents := by
  intro id hid hne
  rw [count_append] at hid
  by_cases hnew : id = doc.count
  · rw [hnew]
    exact isSome_parent?_append_count doc parent content
  · have hold : id < doc.count := by omega
    have hparent := h id hold hne
    rw [parent?] at hparent ⊢
    rw [node?_append_of_lt content hold]
    cases hnode : doc.node? id with
    | none =>
      rw [hnode] at hparent
      cases hparent
    | some node =>
      rw [hnode] at hparent
      by_cases hadopts : parent = id
      · simpa [hadopts, Node.parent_mapElement] using hparent
      · simpa [hadopts] using hparent

theorem HasParents.close (h : doc.HasParents) (closed : NodeId) (endTag : Option Span) :
    (doc.close closed endTag).HasParents := by
  intro id hid hne
  rw [count_close] at hid
  rw [parent?_close]
  exact h id hid hne

/-- A token adds nodes or closes an element. -/
theorem HasParents.add {r : Markup.Reading} (h : r.document.HasParents) (source : SourceId) (base : NodeId)
    (token : Markup.Token) : (r.add source base token).document.HasParents := by
  cases token with
  | text span => exact h.append _ _
  | comment span => exact h
  | startTag tag span =>
    unfold Markup.Reading.add
    dsimp only
    split
    · exact h.append _ _
    · exact h.append _ _
  | rawElement tag span inner endTag =>
    unfold Markup.Reading.add
    dsimp only
    split
    · exact (h.append _ _).append _ _
    · exact h.append _ _
  | endTag name span =>
    unfold Markup.Reading.add
    dsimp only
    split
    · exact h.close _ _
    · exact h

theorem HasParents.addTokens {r : Markup.Reading} (h : r.document.HasParents) (source : SourceId) (base : NodeId)
    (tokens : List Markup.Token) : (tokens.foldl (Markup.Reading.add source base) r).document.HasParents := by
  induction tokens generalizing r with
  | nil => exact h
  | cons token tokens ih => exact ih (h.add source base token)

theorem HasParents.readText (h : doc.HasParents) (text : Text) (source : SourceId) (base : NodeId) :
    (Markup.readText doc text source base).HasParents :=
  @HasParents.addTokens ⟨doc, []⟩ h source base _

theorem readInto_eq (doc : Document) {source : Nat} (hsource : source < doc.sources.length) (base : NodeId) :
    ∃ text, Markup.readInto doc source base = .ok (Markup.readText doc text source base) := by
  refine ⟨(doc.sources.get ⟨source, hsource⟩).text, ?_⟩
  have hfound : doc.sources[source]? = some (doc.sources.get ⟨source, hsource⟩) :=
    List.getElem?_eq_getElem hsource
  rw [Markup.readInto, sourceText, hfound]
  rfl

/-- What every change keeps: the document is a tree, and the root alone has no parent. -/
structure IsGrown (doc : Document) : Prop where
  isTree : doc.IsTree
  hasParents : doc.HasParents

theorem isGrown_ofSource (source : Source) : (ofSource source).IsGrown := by
  refine ⟨isTree_ofSource source, fun id hid hne => ?_⟩
  have hone : id < 1 := hid
  have hroot : id = root := by
    show id = 0
    omega
  exact absurd hroot hne

/-- A change that fits is made, and keeps the document grown. -/
theorem IsGrown.change (h : doc.IsGrown) {c : Change} (hc : c.Fits doc) :
    ∃ after, doc.change c = .ok after ∧ after.IsGrown := by
  cases c with
  | addSource source => exact ⟨_, rfl, h.isTree.addSource source, h.hasParents⟩
  | appendElement parent element =>
    obtain ⟨hparent, -, hchildren⟩ := hc
    refine ⟨_, rfl, h.isTree.append hparent ?_, h.hasParents.append parent _⟩
    rintro e he
    cases he
    exact hchildren
  | appendText parent source span =>
    refine ⟨_, rfl, h.isTree.append hc.1 ?_, h.hasParents.append parent _⟩
    rintro e he
    cases he
  | close id endTag => exact ⟨_, rfl, h.isTree.close id endTag, h.hasParents.close id endTag⟩
  | readInto source base =>
    obtain ⟨text, hread⟩ := readInto_eq doc hc.1 base
    exact ⟨_, hread, Markup.isTree_readText h.isTree text source hc.2, h.hasParents.readText text source base⟩

theorem IsGrown.changeAll (h : doc.IsGrown) {changes : List Change} (hfit : doc.AllFit changes) :
    ∃ after, doc.changeAll changes = .ok after ∧ after.IsGrown := by
  induction changes generalizing doc with
  | nil => exact ⟨doc, rfl, h⟩
  | cons c changes ih =>
    obtain ⟨hc, hrest⟩ := hfit
    obtain ⟨next, hnext, hgrown⟩ := h.change hc
    obtain ⟨after, hafter, hdone⟩ := ih hgrown (hrest next hnext)
    refine ⟨after, ?_, hdone⟩
    rw [Document.changeAll, hnext]
    exact hafter

theorem IsGrown.isNavigable (h : doc.IsGrown) : doc.IsNavigable where
  parent_lt id hid hne := by
    obtain ⟨parent, hparent⟩ := Option.isSome_iff_exists.mp (h.hasParents id hid hne)
    exact ⟨parent, hparent, h.isTree.parent_lt hparent⟩
  increasing id _ := h.isTree.increasing id
  mem_children id hid := h.isTree.mem_children hid
  next_iff_previous a b ha hb := by
    rw [h.isTree.nextElement?_eq_some_iff, h.isTree.previousElement?_eq_some_iff]
    simp [ha, hb]
  visits_iff id _ visited := by
    have hvisits := h.isTree.visits_elementChildren id
    constructor
    · exact fun hvisited => hvisited.unique hvisits
    · rintro rfl
      exact hvisits
  last_visited id _ visited hvisited := by
    rw [hvisited.unique (h.isTree.visits_elementChildren id)]
    rfl

end Changes

/-! ## 3. Documents built from a source -/

/-- Changes that fit one after another can all be made, and what they build from a document without nodes
but the root can be gone through in every way. -/
theorem isNavigable_changeAll (source : Source) (changes : List Change)
    (hfit : (ofSource source).AllFit changes) :
    ∃ doc, (ofSource source).changeAll changes = .ok doc ∧ doc.IsNavigable := by
  obtain ⟨doc, hdoc, hgrown⟩ := (isGrown_ofSource source).changeAll hfit
  exact ⟨doc, hdoc, hgrown.isNavigable⟩

/-- Texts are read below an element and below a text node, before more elements are added beside them. -/
theorem isNavigable_changeAll_below_text :
    let source : Source := ⟨"a.html".toList, "x<p>y<p>z<br>".toList⟩
    let other : Source := ⟨"b.html".toList, "<i></i>-<b></b>".toList⟩
    let element : Element := ⟨"div".toList, [], [], 0, ⟨1, 4⟩, none⟩
    let changes : List Change := [.appendText root 0 ⟨0, 1⟩, .appendElement root element, .addSource other,
      .readInto 1 2, .close 2 (some ⟨9, 13⟩), .readInto 0 1, .appendElement 2 element, .appendElement root element]
    (ofSource source).AllFit changes ∧
      ∃ doc, (ofSource source).changeAll changes = .ok doc ∧ doc.IsNavigable := by
  intro source other element changes
  have hfit : (ofSource source).AllFit changes := by decide +kernel
  exact ⟨hfit, isNavigable_changeAll source changes hfit⟩

end Document

end Errata
