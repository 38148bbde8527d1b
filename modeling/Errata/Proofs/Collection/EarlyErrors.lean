import Errata.Proofs.Collection.Outcome
import Errata.Proofs.Document.Depiction
import Mathlib.Computability.RegularExpressions
import Mathlib.Data.List.Chain

/-!
# The shape of early errors

Among the children of a clause of early errors only grammar and lists count. They are to be groups of one
grammar with one list or more, and at least one group. The walk finds these groups, or it complains at the
first place where the children depart from that shape.
-/

namespace Errata

theorem Tree.Shows.element?_eq {doc : Document} {t : Tree} (h : t.Shows doc) : doc.element? t.id = t.element? := by
  cases h with
  | text hnode =>
    rw [Tree.id, Document.element?, hnode]
    rfl
  | element helement => exact helement

/-- The children of the tree below a node are those of the node, in the same order. -/
theorem Document.map_id_of_tree {doc : Document} {id id' : NodeId} {e : Element} {children : List Tree}
    (h : doc.tree id = .ok (.element id' e children)) : children.map Tree.id = e.children := by
  rw [tree, treeWithout] at h
  split at h
  · rename_i t hdepth
    cases h
    cases hcount : doc.count with
    | zero =>
      rw [hcount] at hdepth
      cases hdepth
    | succ depth =>
      rw [hcount, treeOfDepth?] at hdepth
      split at hdepth
      · cases hdepth
      · cases hdepth
      · rw [if_neg (Option.some_ne_none _).symm] at hdepth
        obtain ⟨ts, hmap, heq⟩ := Option.map_eq_some_iff.mp hdepth
        cases heq
        exact Tree.map_id_of_mapM (fun child t ht => (shows_of_treeOfDepth? ht).1) hmap
  · cases h

namespace Collection

/-! ## 1. The shape -/

/-- What counts among the children of a clause of early errors. -/
inductive Mark where
  | grammar
  | list
deriving DecidableEq

def markOf? (name : Text) : Option Mark :=
  if name = grammarName then some .grammar else if name = listName then some .list else none

/-- One match or more, one after another. -/
def someOf {α : Type} (r : RegularExpression α) : RegularExpression α := r * r.star

/-- Groups of one grammar with one list or more, and at least one group. -/
def groupsPattern : RegularExpression Mark := someOf (.char .grammar * someOf (.char .list))

/-- The marks of one group with `n` lists after its first. -/
def block (n : Nat) : List Mark := .grammar :: List.replicate (n + 1) .list

theorem mem_matches'_someOf {α : Type} {r : RegularExpression α} {w : List α} :
    w ∈ (someOf r).matches' ↔ ∃ parts : List (List α), parts ≠ [] ∧ w = parts.flatten ∧
      ∀ part ∈ parts, part ∈ r.matches' := by
  rw [someOf, RegularExpression.matches'_mul, RegularExpression.matches'_star, Language.mem_mul]
  constructor
  · rintro ⟨first, hfirst, rest, hrest, rfl⟩
    obtain ⟨parts, rfl, hparts⟩ := Language.mem_kstar.mp hrest
    exact ⟨first :: parts, List.cons_ne_nil _ _, rfl, List.forall_mem_cons.mpr ⟨hfirst, hparts⟩⟩
  · rintro ⟨parts, hne, rfl, hparts⟩
    cases parts with
    | nil => exact absurd rfl hne
    | cons first parts =>
      obtain ⟨hfirst, hrest⟩ := List.forall_mem_cons.mp hparts
      exact ⟨first, hfirst, parts.flatten, Language.mem_kstar.mpr ⟨parts, rfl, hrest⟩, rfl⟩

theorem mem_matches'_someOf_char {α : Type} {a : α} {w : List α} :
    w ∈ (someOf (.char a)).matches' ↔ ∃ n, w = List.replicate (n + 1) a := by
  rw [mem_matches'_someOf]
  constructor
  · rintro ⟨parts, hne, rfl, hparts⟩
    obtain ⟨n, hn⟩ := Nat.exists_eq_succ_of_ne_zero (List.length_pos_iff.mpr hne).ne'
    have hall : parts = List.replicate (n + 1) [a] := List.eq_replicate_iff.mpr ⟨hn, hparts⟩
    exact ⟨n, by rw [hall, List.flatten_replicate_singleton]⟩
  · rintro ⟨n, rfl⟩
    refine ⟨List.replicate (n + 1) [a], by simp, List.flatten_replicate_singleton.symm, ?_⟩
    intro part hpart
    exact List.eq_of_mem_replicate hpart

theorem mem_matches'_group {w : List Mark} :
    w ∈ (RegularExpression.char Mark.grammar * someOf (.char Mark.list)).matches' ↔ ∃ n, w = block n := by
  rw [RegularExpression.matches'_mul, Language.mem_mul]
  constructor
  · rintro ⟨first, rfl, rest, hrest, rfl⟩
    obtain ⟨n, rfl⟩ := mem_matches'_someOf_char.mp hrest
    exact ⟨n, rfl⟩
  · rintro ⟨n, rfl⟩
    exact ⟨[.grammar], rfl, _, mem_matches'_someOf_char.mpr ⟨n, rfl⟩, rfl⟩

theorem mem_matches'_groupsPattern {w : List Mark} :
    w ∈ groupsPattern.matches' ↔ ∃ ns : List Nat, ns ≠ [] ∧ w = ns.flatMap block := by
  rw [groupsPattern, mem_matches'_someOf]
  constructor
  · rintro ⟨parts, hne, rfl, hparts⟩
    have hblocks : ∃ ns : List Nat, parts = ns.map block := by
      clear hne
      induction parts with
      | nil => exact ⟨[], rfl⟩
      | cons part parts ih =>
        obtain ⟨hpart, hrest⟩ := List.forall_mem_cons.mp hparts
        obtain ⟨n, rfl⟩ := mem_matches'_group.mp hpart
        obtain ⟨ns, rfl⟩ := ih hrest
        exact ⟨n :: ns, rfl⟩
    obtain ⟨ns, rfl⟩ := hblocks
    exact ⟨ns, fun h => hne (by rw [h]; rfl), (List.flatMap_def ..).symm⟩
  · rintro ⟨ns, hne, rfl⟩
    refine ⟨ns.map block, fun h => hne (List.map_eq_nil_iff.mp h), List.flatMap_def .., ?_⟩
    intro part hpart
    obtain ⟨n, -, rfl⟩ := List.mem_map.mp hpart
    exact mem_matches'_group.mpr ⟨n, rfl⟩

/-! ## 2. Departures from the shape -/

/-- Grammar comes first, and it never follows grammar. -/
structure IsBegun (w : List Mark) : Prop where
  head : w.head? = some .grammar
  chain : w.IsChain fun a b => a = .list ∨ b = .list

/-- Where the grammar and the lists in a clause first depart from the shape. -/
inductive IsMisplaced (clause : NodeId) : List (Mark × NodeId) → Shape → NodeId → Prop
  | nothing : IsMisplaced clause [] .noGrammar clause
  | list {id : NodeId} {rest : List (Mark × NodeId)} :
      IsMisplaced clause ((.list, id) :: rest) .listFirst id
  | grammars {before after : List (Mark × NodeId)} {first second : NodeId}
      (h : IsBegun (before.map Prod.fst ++ [.grammar])) :
      IsMisplaced clause (before ++ (.grammar, first) :: (.grammar, second) :: after) .consecutiveGrammars second
  | last {before : List (Mark × NodeId)} {id : NodeId} (h : IsBegun (before.map Prod.fst ++ [.grammar])) :
      IsMisplaced clause (before ++ [(.grammar, id)]) .grammarWithoutList id

theorem getLast?_block (n : Nat) : (block n).getLast? = some .list := by
  have hblock : block n = (.grammar :: List.replicate n .list) ++ [.list] := by
    rw [block, List.replicate_succ', List.cons_append]
  rw [hblock, List.getLast?_concat]

/-- A group ends with a list, so anything may follow it. -/
theorem isBegun_block_append (n : Nat) {w : List Mark} (hw : w.IsChain fun a b => a = .list ∨ b = .list) :
    IsBegun (block n ++ w) := by
  refine ⟨rfl, List.isChain_append.mpr ⟨?_, hw, fun last hlast _ _ => ?_⟩⟩
  · exact List.isChain_cons_cons.mpr ⟨.inr rfl, List.isChain_replicate_of_rel (n + 1) (.inl rfl)⟩
  · rw [getLast?_block] at hlast
    exact .inl (Option.some.inj hlast).symm

theorem isChain_flatMap_block (ns : List Nat) :
    (ns.flatMap block).IsChain fun a b => a = .list ∨ b = .list := by
  induction ns with
  | nil => exact .nil
  | cons n ns ih =>
    rw [List.flatMap_cons]
    exact (isBegun_block_append n ih).chain

theorem getLast?_flatMap_block {ns : List Nat} (h : ns ≠ []) : (ns.flatMap block).getLast? = some .list := by
  obtain ⟨before, n, rfl⟩ := (List.eq_nil_or_concat' ns).resolve_left h
  rw [List.flatMap_append, List.flatMap_singleton, List.getLast?_append, getLast?_block]
  rfl

/-- What departs from the shape does not have it. -/
theorem IsMisplaced.not_mem_matches' {clause id : NodeId} {seq : List (Mark × NodeId)} {shape : Shape}
    (h : IsMisplaced clause seq shape id) : seq.map Prod.fst ∉ groupsPattern.matches' := by
  intro hmem
  obtain ⟨ns, hne, heq⟩ := mem_matches'_groupsPattern.mp hmem
  have hchain := isChain_flatMap_block ns
  have hlast := getLast?_flatMap_block hne
  rw [← heq] at hchain hlast
  cases h with
  | nothing => cases hlast
  | list =>
    cases ns with
    | nil => exact hne rfl
    | cons n ns => cases heq
  | grammars =>
    rw [List.map_append] at hchain
    rcases (List.isChain_cons_cons.mp hchain.right_of_append).1 with hlist | hlist
    · cases hlist
    · cases hlist
  | last =>
    rw [List.map_append] at hlast
    rw [List.map_singleton, List.getLast?_concat] at hlast
    cases hlast

/-! ## 3. Groups -/

/-- The grammar of a group and then its lists. -/
def EarlyErrors.entries (group : EarlyErrors) : List (Mark × NodeId) :=
  (.grammar, group.grammar) :: group.lists.map fun id => (.list, id)

def Group.entries (group : Group) : List (Mark × NodeId) := group.earlyErrors.entries

/-- What counts of a child. -/
def labelled? (t : Tree) : Option (Mark × NodeId) :=
  t.element?.bind fun e => (markOf? e.name).map fun mark => (mark, t.id)

theorem labelled?_of_grammar {id : NodeId} {e : Element} {below : List Tree} (h : e.name = grammarName) :
    labelled? (.element id e below) = some (.grammar, id) := by
  rw [labelled?, Tree.element?, Option.bind_some, markOf?, if_pos h]
  rfl

theorem labelled?_of_list {id : NodeId} {e : Element} {below : List Tree} (hno : ¬ e.name = grammarName)
    (h : e.name = listName) : labelled? (.element id e below) = some (.list, id) := by
  rw [labelled?, Tree.element?, Option.bind_some, markOf?, if_neg hno, if_pos h]
  rfl

theorem labelled?_of_other {id : NodeId} {e : Element} {below : List Tree} (hno : ¬ e.name = grammarName)
    (hneither : ¬ e.name = listName) : labelled? (.element id e below) = none := by
  rw [labelled?, Tree.element?, Option.bind_some, markOf?, if_neg hno, if_neg hneither]
  rfl

theorem Group.entries_of_isEmpty {group : Group} (h : group.lists.isEmpty = true) :
    group.entries = [(.grammar, group.id)] := by
  rw [entries, EarlyErrors.entries, earlyErrors, List.isEmpty_iff.mp h]
  rfl

/-- A list that comes next goes to the end of a group. -/
theorem Group.entries_add (group : Group) (id : NodeId) (rest : List (Mark × NodeId)) :
    Group.entries { group with lists := group.lists ++ [id] } ++ rest = group.entries ++ (.list, id) :: rest := by
  simp [entries, EarlyErrors.entries, earlyErrors]

theorem map_entries_eq_block {group : Group} (h : group.lists ≠ []) :
    group.entries.map Prod.fst = block (group.lists.length - 1) := by
  have hlength : group.lists.length - 1 + 1 = group.lists.length :=
    Nat.sub_add_cancel (List.length_pos_iff.mpr h)
  have hmarks : (group.lists.map fun id => (Mark.list, id)).map Prod.fst =
      List.replicate group.lists.length .list := by
    rw [List.map_map]
    exact List.map_const' ..
  rw [block, hlength, ← hmarks]
  rfl

/-- Complete groups have the shape. -/
theorem map_flatMap_entries_mem {groups : List Group} (hne : groups ≠ [])
    (h : ∀ group ∈ groups, group.lists ≠ []) :
    (groups.flatMap Group.entries).map Prod.fst ∈ groupsPattern.matches' := by
  refine mem_matches'_groupsPattern.mpr ⟨groups.map fun group => group.lists.length - 1, ?_, ?_⟩
  · exact fun hnil => hne (List.map_eq_nil_iff.mp hnil)
  · rw [List.map_flatMap, List.flatMap_map]
    exact List.flatMap_congr fun group hgroup => map_entries_eq_block (h group hgroup)

/-- If a group is followed by what departs from the shape after its first grammar, that is where the whole
departs from it. -/
theorem IsMisplaced.prepend {clause first id : NodeId} {rest : List (Mark × NodeId)} {shape : Shape}
    (h : IsMisplaced clause ((.grammar, first) :: rest) shape id) {group : Group} (hlists : group.lists ≠ []) :
    IsMisplaced clause (group.entries ++ (.grammar, first) :: rest) shape id := by
  have hbegun : ∀ before : List (Mark × NodeId), IsBegun (before.map Prod.fst ++ [.grammar]) →
      IsBegun ((group.entries ++ before).map Prod.fst ++ [.grammar]) := by
    intro before hbefore
    rw [List.map_append, map_entries_eq_block hlists, List.append_assoc]
    exact isBegun_block_append _ hbefore.chain
  generalize hseq : (Mark.grammar, first) :: rest = seq at h
  cases h with
  | nothing => cases hseq
  | list => cases hseq
  | @grammars before after first second hbefore =>
    rw [← List.append_assoc]
    exact .grammars (hbegun before hbefore)
  | @last before id hbefore =>
    rw [← List.append_assoc]
    exact .last (hbegun before hbefore)

/-- The groups that are found are complete, and put together they are all grammar and lists. Otherwise these
depart from the shape where the complaint says. -/
theorem ends_groupsOf_entries (clause : NodeId) (e : Element) (children : List Tree) (current : Option Group) :
    Ends
      (fun c => ∃ shape, c.problem = .earlyErrors shape ∧
        IsMisplaced clause (current.elim [] Group.entries ++ children.filterMap labelled?) shape c.element)
      (fun groups => groups ≠ [] ∧ (∀ group ∈ groups, group.lists ≠ []) ∧
        groups.flatMap Group.entries = current.elim [] Group.entries ++ children.filterMap labelled?)
      (groupsOf clause e current children) := by
  have hgrammar : IsBegun [Mark.grammar] := ⟨rfl, .singleton _⟩
  -- the sequence is what the open group has, followed by what is still to come
  induction children generalizing current with
  | nil =>
    unfold groupsOf
    split
    · exact ⟨_, rfl, .nothing⟩
    · rename_i group
      split
      · rename_i hempty
        refine ⟨_, rfl, ?_⟩
        rw [List.filterMap_nil, List.append_nil, Option.elim_some, Group.entries_of_isEmpty hempty]
        exact @IsMisplaced.last clause [] group.id hgrammar
      · rename_i hlists
        refine ⟨List.cons_ne_nil _ _, fun g hg => ?_, by simp⟩
        rw [List.mem_singleton.mp hg]
        exact fun h => hlists (List.isEmpty_iff.mpr h)
  | cons child children ih =>
    cases child with
    | text child source span => exact ih current
    | element child e' below =>
      unfold groupsOf
      dsimp only
      split
      · -- grammar begins a group, and the group before it is complete
        rename_i hname
        have hbegun := ih (some ⟨child, e', []⟩)
        rw [List.filterMap_cons_some (labelled?_of_grammar hname)]
        split
        · exact hbegun
        · rename_i group
          split
          · rename_i hempty
            refine ⟨_, rfl, ?_⟩
            rw [Option.elim_some, Group.entries_of_isEmpty hempty]
            exact @IsMisplaced.grammars clause [] _ group.id child hgrammar
          · rename_i hlists
            have hlists : group.lists ≠ [] := fun h => hlists (List.isEmpty_iff.mpr h)
            refine Ends.map (hbegun.imp ?_ fun _ hgroups => hgroups) ?_
            · rintro c ⟨shape, hproblem, hmisplaced⟩
              exact ⟨shape, hproblem, hmisplaced.prepend hlists⟩
            · rintro groups ⟨-, hall, hentries⟩
              refine ⟨List.cons_ne_nil _ _, List.forall_mem_cons.mpr ⟨hlists, hall⟩, ?_⟩
              rw [List.flatMap_cons, hentries]
              rfl
      · rename_i hno
        split
        · -- a list goes to the group that is open
          rename_i hname
          rw [List.filterMap_cons_some (labelled?_of_list hno hname)]
          split
          · exact ⟨_, rfl, .list⟩
          · rename_i group
            have hnext := ih (some { group with lists := group.lists ++ [child] })
            simp only [Option.elim_some, Group.entries_add] at hnext
            exact hnext
        · rename_i hneither
          rw [List.filterMap_cons_none (labelled?_of_other hno hneither)]
          exact ih current

/-! ## 4. Clauses -/

/-- The grammar and the lists among the child elements of a node, in their order. -/
def marked (doc : Document) (clause : NodeId) : List (Mark × NodeId) :=
  (doc.elementChildren clause).filterMap fun id => ((doc.name? id).bind markOf?).map fun mark => (mark, id)

theorem marked_eq_filterMap (doc : Document) {clause : NodeId} {e : Element} {children : List Tree}
    (h : doc.tree clause = .ok (.element clause e children)) : marked doc clause = children.filterMap labelled? := by
  have hids := doc.map_id_of_tree h
  cases doc.shows_of_tree h with
  | element helement _ hchildren =>
    rw [marked, Document.elementChildren, Document.children_eq helement, ← hids, List.filterMap_filter,
      List.filterMap_map]
    refine List.filterMap_congr fun t ht => ?_
    have helement := (hchildren t ht).element?_eq
    rw [Function.comp_apply, Document.isElement, Document.name?, helement, labelled?]
    cases t.element? with
    | none => rfl
    | some e' => rfl

/-- The walk finds groups in a clause of early errors if its grammar and lists have the shape of groups, and
then put together the groups are that grammar and these lists. Otherwise there is one complaint, at the start
tag of the element where they depart from the shape. -/
theorem groups_or_misplaced (doc : Document) (clause : NodeId) (e : Element) (children : List Tree)
    (h : doc.tree clause = .ok (.element clause e children)) :
    Ends
      (fun stop => (marked doc clause).map Prod.fst ∉ groupsPattern.matches' ∧
        ∃ shape id e', doc.element? id = some e' ∧ IsMisplaced clause (marked doc clause) shape id ∧
          stop = .shape (complaintAt (.earlyErrors shape) id e'))
      (fun found => (marked doc clause).map Prod.fst ∈ groupsPattern.matches' ∧
        found.collection.earlyErrors.flatMap EarlyErrors.entries = marked doc clause)
      (gatherEarlyErrors clause e children) := by
  have hgroups := ends_groupsOf_entries clause e children none
  rw [Option.elim_none, List.nil_append, ← marked_eq_filterMap doc h] at hgroups
  unfold gatherEarlyErrors
  cases hfound : groupsOf clause e none children with
  | error c =>
    obtain ⟨shape, hproblem, hmisplaced⟩ := hgroups.of_error hfound
    refine ⟨hmisplaced.not_mem_matches', ?_⟩
    -- the complaint is about an element of the document
    cases doc.shows_of_tree h with
    | element helement _ hchildren =>
      have hends := @ends_groupsOf clause e (fun id e' => doc.element? id = some e') helement children
        (fun t ht e' he' => (hchildren t ht).element? he') none fun g hg => by cases hg
      obtain ⟨shape', id, e', he', rfl⟩ := hends.of_error hfound
      cases hproblem
      exact ⟨shape, id, e', he', hmisplaced, rfl⟩
  | ok groups =>
    obtain ⟨hne, hlists, hentries⟩ := hgroups.of_ok hfound
    refine ⟨?_, ?_⟩
    · rw [← hentries]
      exact map_flatMap_entries_mem hne hlists
    · show (groups.map Group.earlyErrors).flatMap EarlyErrors.entries = _
      rw [List.flatMap_map]
      exact hentries

/-- An element of a text that was read has a tree below it. -/
theorem exists_tree_eq (filename : Path) (text : Text) {id : NodeId}
    (h : (Markup.read filename text).isElement id = true) :
    ∃ e children, (Markup.read filename text).tree id = .ok (.element id e children) := by
  obtain ⟨e, he⟩ := Option.isSome_iff_exists.mp h
  obtain ⟨node, hnode, -⟩ := Option.bind_eq_some_iff.mp he
  obtain ⟨pos, hsound⟩ := Markup.sound_read filename text
  obtain ⟨t, ht, rfl, hshows⟩ := (hsound.yields_treeWithout none (List.getElem?_eq_some_iff.mp hnode).1).eq_ok
  cases hshows with
  | @text x source span parent hx =>
    rw [Tree.Shows.element?_eq (.text hx)] at he
    cases he
  | @element x e' children => exact ⟨e', children, ht⟩

/-- Two groups, the first with two lists and with another element in between; and a clause in which grammar
follows grammar. -/
theorem groups_or_misplaced_both :
    let page := Markup.read [] ("<emu-clause><emu-grammar>A</emu-grammar><p></p><ul></ul><ul></ul>" ++
      "<emu-grammar>B</emu-grammar><ul></ul></emu-clause>" ++
      "<emu-clause><emu-grammar>C</emu-grammar><p></p><emu-grammar>D</emu-grammar><ul></ul></emu-clause>").toList
    (∃ e children found, page.tree 1 = .ok (.element 1 e children) ∧
      gatherEarlyErrors 1 e children = .ok found ∧
      found.collection.earlyErrors.flatMap EarlyErrors.entries =
        [(.grammar, 2), (.list, 5), (.list, 6), (.grammar, 7), (.list, 9)]) ∧
    ∃ e children shape id e', page.tree 10 = .ok (.element 10 e children) ∧
      gatherEarlyErrors 10 e children = .error (.shape (complaintAt (.earlyErrors shape) id e')) ∧
      IsMisplaced 10 [(.grammar, 11), (.grammar, 14), (.list, 16)] shape id := by
  intro page
  have hpage : page.isElement 1 = true ∧ page.isElement 10 = true ∧
      marked page 1 = [(.grammar, 2), (.list, 5), (.list, 6), (.grammar, 7), (.list, 9)] ∧
      marked page 10 = [(.grammar, 11), (.grammar, 14), (.list, 16)] := by
    decide +kernel
  obtain ⟨hgood, hbad, hmarked, hmarked'⟩ := hpage
  obtain ⟨e, children, hgood⟩ := exists_tree_eq [] _ hgood
  obtain ⟨e', children', hbad⟩ := exists_tree_eq [] _ hbad
  have hgroups := groups_or_misplaced page 1 e children hgood
  have hdeparts := groups_or_misplaced page 10 e' children' hbad
  rw [hmarked] at hgroups
  rw [hmarked'] at hdeparts
  refine ⟨⟨e, children, ?_⟩, e', children', ?_⟩
  · cases hfound : gatherEarlyErrors 1 e children with
    | error stop =>
      refine absurd ?_ (hgroups.of_error hfound).1
      exact (RegularExpression.rmatch_iff_matches' _ _).mp (by decide)
    | ok found => exact ⟨found, hgood, rfl, (hgroups.of_ok hfound).2⟩
  · cases hfound : gatherEarlyErrors 10 e' children' with
    | error stop =>
      obtain ⟨-, shape, id, e'', -, hmisplaced, rfl⟩ := hdeparts.of_error hfound
      exact ⟨shape, id, e'', hbad, rfl, hmisplaced⟩
    | ok found =>
      have hmatch := (RegularExpression.rmatch_iff_matches' _ _).mpr (hdeparts.of_ok hfound).1
      exact absurd hmatch (by decide)

end Collection
end Errata
