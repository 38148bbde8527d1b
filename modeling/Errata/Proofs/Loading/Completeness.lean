import Errata.Proofs.Loading.Run
import Errata.Proofs.Markup.Graft
import Errata.Proofs.Path

/-!
# What a loaded document is put together from

Every import of a loaded document asks for the path of exactly one of its sources. What a file holds hangs
under the first import of its path, and nothing of another file hangs anywhere else. When loading fails,
this holds as far as it has come, and the file that is named is that of the next import.
-/

namespace Errata

/-! ## 1. Documents of one source -/

namespace Markup

theorem sources_read (filename : Path) (text : Text) : (read filename text).sources = [⟨filename, text⟩] := by
  have hgraft : read filename text = (Document.ofSource ⟨filename, text⟩).graft 0 0 (read filename text) :=
    readText_eq_graft _ text 0 Nat.one_pos filename
  rw [hgraft]
  rfl

theorem source?_read (filename : Path) (text : Text) {id : Nat} (hid : id < (read filename text).count) :
    (read filename text).source? id = some 0 := by
  obtain ⟨pos, hsound⟩ := sound_read filename text
  obtain ⟨node, hnode⟩ : ∃ node, (read filename text).node? id = some node := ⟨_, List.getElem?_eq_getElem hid⟩
  have hcontent := hsound.content id node hnode
  rw [Document.source?, hnode, Option.map_some]
  obtain ⟨parent, content⟩ := node
  cases content with
  | element e => exact congrArg some hcontent.1
  | text source span => exact congrArg some hcontent.1

end Markup

theorem Document.lt_count_of_source? {doc : Document} {id : Nat} {source : SourceId}
    (h : doc.source? id = some source) : id < doc.count := by
  obtain ⟨node, hnode, -⟩ := Option.map_eq_some_iff.mp h
  exact (List.getElem?_eq_some_iff.mp hnode).1

theorem Document.lt_count_iff_bare? {doc : Document} {id : Nat} :
    id < doc.count ↔ (doc.bare? id).isSome = true := by
  rw [bare?, Option.isSome_map, node?, isSome_getElem?]
  rfl

/-- Adds a file as a source and hangs what it holds under a node. -/
def Document.hang (doc : Document) (id : NodeId) (file : Source) : Document :=
  (doc.addSource file).graft id doc.sources.length (Markup.read file.filename file.text)

namespace Loading

theorem importPath?_eq_bare (doc : Document) (id : NodeId) :
    importPath? doc id = ((doc.bare? id).bind Node.element?).bind (importOf? doc) := by
  rw [importPath?, Document.bind_element?_bare, Option.bind_map]
  rfl

theorem source?_of_element? {doc : Document} {id : NodeId} {e : Element} (h : doc.element? id = some e) :
    doc.source? id = some e.source := by
  obtain ⟨node, hnode, hcontent⟩ := Option.bind_eq_some_iff.mp h
  rw [Document.source?, hnode, Option.map_some]
  obtain ⟨parent, content⟩ := node
  cases content with
  | element e' =>
    cases hcontent
    rfl
  | text s span => cases hcontent

/-! ## 2. Imports and what hangs under them -/

/-- The node imports the file under a path, and no node before it imports one under the same path. -/
structure IsFirstImport (doc : Document) (id : NodeId) (path : Path) : Prop where
  import_eq : importPath? doc id = some path
  first : ∀ earlier, earlier < id → ∀ other, importPath? doc earlier = some other → other.same path = false

/-- All nodes of a source are below the node, and they are those of the file when it is read alone. -/
structure Carries (doc : Document) (id : NodeId) (source : SourceId) (file : Source) : Prop where
  below : ∀ node, doc.source? node = some source → id ∈ doc.ancestors node
  whole : ∃ start : NodeId, ∀ k, k + 1 < (Markup.read file.filename file.text).count →
    doc.bare? (start + k) =
      ((Markup.read file.filename file.text).bare? (k + 1)).map (Node.moved start id source)

/-- The source was read for the first import of its path, and hangs there. -/
structure IsAttached (doc : Document) (id : NodeId) (source : SourceId) (file : Source) : Prop where
  file_eq : doc.sources[source]? = some file
  pos : 0 < source
  first : IsFirstImport doc id file.filename
  carries : Carries doc id source file

/-- The document is the main file with what other files hold hung under the first imports of their paths, all
of them before `next`, in the order of these imports. -/
structure IsAssembled (main : Path) (text : Text) (attached : List (NodeId × Source)) (next : NodeId)
    (doc : Document) : Prop where
  eq_foldl : doc = attached.foldl (fun doc a => doc.hang a.1 a.2) (Markup.read main text)
  ordered : attached.Pairwise fun a b => a.1 < b.1
  lt_next : ∀ a ∈ attached, a.1 < next
  first : ∀ a ∈ attached, IsFirstImport doc a.1 a.2.filename

/-- What is kept from state to state. -/
structure IsKept (read : Path → Except ReadFailure Text) (main : Path) (loading : Loading) : Prop where
  isTree : loading.doc.IsTree
  visited : loading.visited = (loading.doc.sources.map Source.filename).reverse
  distinct : loading.doc.sources.Pairwise fun a b => a.filename.same b.filename = false
  begins : ∃ text others, loading.doc.sources = ⟨main, text⟩ :: others ∧
    ∀ k, k < (Markup.read main text).count → loading.doc.bare? k = (Markup.read main text).bare? k
  wasRead : ∀ file ∈ loading.doc.sources, read file.filename = .ok file.text
  source_lt : ∀ node source, loading.doc.source? node = some source → source < loading.doc.sources.length
  seen : ∀ node, node < loading.next → ∀ path, importPath? loading.doc node = some path →
    loading.isVisited path = true
  hangs : ∀ source file, 0 < source → loading.doc.sources[source]? = some file →
    ∃ id < loading.next, IsAttached loading.doc id source file
  assembled : ∃ text attached, read main = .ok text ∧
    IsAssembled main text attached loading.next loading.doc
  /-- Where a node is of another source than its parent, its source hangs. -/
  edges : ∀ child parent source, loading.doc.parent? child = some parent →
    loading.doc.source? child = some source → loading.doc.source? parent ≠ some source →
      ∃ file, IsAttached loading.doc parent source file

/-! ## 3. The first state -/

variable {read : Path → Except ReadFailure Text} {main : Path} {text : Text}

theorem isKept_start (hread : read main = .ok text) : IsKept read main (.start main text) := by
  have hsources := Markup.sources_read main text
  refine ⟨Markup.isTree_read main text, ?_, ?_, ?_, ?_, ?_, ?_, ?_, ?_, ?_⟩
  · show [main] = ((Markup.read main text).sources.map _).reverse
    rw [hsources]
    rfl
  · show (Markup.read main text).sources.Pairwise _
    rw [hsources]
    exact List.pairwise_singleton _ _
  · exact ⟨text, [], hsources, fun _ _ => rfl⟩
  · intro file hfile
    have hmem : file ∈ (Markup.read main text).sources := hfile
    rw [hsources] at hmem
    rw [List.mem_singleton.mp hmem]
    exact hread
  · intro node source hsource
    have hzero := Markup.source?_read main text (Document.lt_count_of_source? hsource)
    rw [← Option.some.inj (hzero.symm.trans hsource)]
    show 0 < (Markup.read main text).sources.length
    rw [hsources]
    exact Nat.one_pos
  · intro node hnode
    exact absurd hnode (Nat.not_lt_zero node)
  · intro source file hpos hfile
    have hlt := (List.getElem?_eq_some_iff.mp hfile).1
    have hone : source < (Markup.read main text).sources.length := hlt
    rw [hsources] at hone
    exact absurd hone (Nat.not_lt_of_le hpos)
  · exact ⟨text, [], hread, rfl, .nil, List.forall_mem_nil _, List.forall_mem_nil _⟩
  · intro child parent source hparent hsource hne
    -- all nodes are of the one source
    have hchild := Document.lt_count_of_source? hsource
    have hlt := (Markup.isTree_read main text).parent_lt hparent
    rw [← hsource] at hne
    exact absurd ((Markup.source?_read main text (Nat.lt_trans hlt hchild)).trans
      (Markup.source?_read main text hchild).symm) hne

/-! ## 4. One more file -/

section Attach

variable {loading : Loading} {id : Nat} {path : Path} (hid : id < loading.doc.count) (text : Text)
include hid

theorem doc_attach : (loading.attach id path text).doc = loading.doc.hang id ⟨path, text⟩ :=
  Markup.readText_eq_graft (loading.doc.addSource ⟨path, text⟩) text _ hid path

theorem sources_attach :
    (loading.attach id path text).doc.sources = loading.doc.sources ++ [⟨path, text⟩] := by
  rw [doc_attach hid]
  rfl

theorem isTree_attach (htree : loading.doc.IsTree) : (loading.attach id path text).doc.IsTree :=
  Markup.isTree_readText (htree.addSource ⟨path, text⟩) text _ hid

/-! ### Old nodes -/

variable {node : Nat} (hnode : node < loading.doc.count)
include hnode

theorem bare?_attach_of_lt : (loading.attach id path text).doc.bare? node = loading.doc.bare? node := by
  rw [doc_attach hid]
  exact @Document.bare?_graft_of_lt (loading.doc.addSource ⟨path, text⟩) _ _ _ node hnode

theorem parent?_attach_of_lt : (loading.attach id path text).doc.parent? node = loading.doc.parent? node := by
  rw [Document.parent?_eq_bare, bare?_attach_of_lt hid text hnode, ← Document.parent?_eq_bare]

theorem source?_attach_of_lt : (loading.attach id path text).doc.source? node = loading.doc.source? node := by
  rw [Document.source?_eq_bare, bare?_attach_of_lt hid text hnode, ← Document.source?_eq_bare]

theorem ancestors_attach_of_lt (htree : loading.doc.IsTree) :
    (loading.attach id path text).doc.ancestors node = loading.doc.ancestors node :=
  htree.ancestors_congr (isTree_attach hid text htree) (fun _ => parent?_attach_of_lt hid text) hnode

theorem importPath?_attach_of_lt
    (hsource : ∀ source, loading.doc.source? node = some source → source < loading.doc.sources.length) :
    importPath? (loading.attach id path text).doc node = importPath? loading.doc node := by
  rw [importPath?_eq_bare, importPath?_eq_bare, bare?_attach_of_lt hid text hnode]
  cases he : (loading.doc.bare? node).bind Node.element? with
  | none => rfl
  | some e =>
    have hlt : e.source < loading.doc.sources.length := by
      rw [Document.bind_element?_bare] at he
      obtain ⟨e', he', rfl⟩ := Option.map_eq_some_iff.mp he
      exact hsource e'.source (source?_of_element? he')
    rw [Option.bind_some, Option.bind_some, importOf?, importOf?, sources_attach hid,
      List.getElem?_append_left hlt]

omit hnode

/-! ### New nodes -/

theorem exists_of_count_le (hle : loading.doc.count ≤ node)
    (hlt : node < (loading.attach id path text).doc.count) :
    ∃ k, node = loading.doc.count + k ∧ k + 1 < (Markup.read path text).count := by
  obtain ⟨k, rfl⟩ := Nat.exists_eq_add_of_le hle
  have hcount : (loading.attach id path text).doc.count =
      loading.doc.count + ((Markup.read path text).count - 1) := by
    rw [doc_attach hid]
    exact Document.count_graft _ _ _ _
  exact ⟨k, rfl, by omega⟩

theorem source?_attach_of_count_le (hle : loading.doc.count ≤ node)
    (hlt : node < (loading.attach id path text).doc.count) :
    (loading.attach id path text).doc.source? node = some loading.doc.sources.length := by
  obtain ⟨k, rfl, hk⟩ := exists_of_count_le hid text hle hlt
  rw [doc_attach hid]
  exact @Document.source?_graft_add (loading.doc.addSource ⟨path, text⟩) _ _ _ k hk

theorem mem_ancestors_attach (htree : loading.doc.IsTree) (hle : loading.doc.count ≤ node)
    (hlt : node < (loading.attach id path text).doc.count) :
    id ∈ (loading.attach id path text).doc.ancestors node := by
  obtain ⟨k, rfl, hk⟩ := exists_of_count_le hid text hle hlt
  have hgraft : (loading.attach id path text).doc.IsTree := isTree_attach hid text htree
  rw [doc_attach hid] at hgraft ⊢
  exact @Markup.base_mem_ancestors_graft (loading.doc.addSource ⟨path, text⟩) _ _ _ hgraft
    (Markup.isTree_read path text) (fun _ => Markup.exists_parent?_read path text) k hk

/-- The parent of a new node is the import or new as well. -/
theorem parent?_attach_of_count_le (hle : loading.doc.count ≤ node) {parent : Nat}
    (hparent : (loading.attach id path text).doc.parent? node = some parent) :
    parent = id ∨ loading.doc.count ≤ parent := by
  obtain ⟨k, rfl⟩ := Nat.exists_eq_add_of_le hle
  have hmoved : (loading.attach id path text).doc.parent? (loading.doc.count + k) =
      ((Markup.read path text).parent? (k + 1)).map (NodeId.moved loading.doc.count id) := by
    rw [doc_attach hid]
    exact @Document.parent?_graft_add (loading.doc.addSource ⟨path, text⟩) _ _ _ k
  rw [hmoved] at hparent
  obtain ⟨original, -, rfl⟩ := Option.map_eq_some_iff.mp hparent
  cases original with
  | zero => exact .inl rfl
  | succ j => exact .inr (Nat.le_add_right _ j)

end Attach

/-! ### What is kept -/

section Kept

variable {loading : Loading} {id : Nat} {path : Path}

theorem IsKept.isVisited_iff (h : IsKept read main loading) {other : Path} :
    loading.isVisited other = true ↔ ∃ file ∈ loading.doc.sources, other.same file.filename = true := by
  rw [isVisited, h.visited, List.any_reverse, List.any_map, List.any_eq_true]
  rfl

theorem IsKept.same_eq_false (h : IsKept read main loading) (hvisited : loading.isVisited path = false)
    {file : Source} (hfile : file ∈ loading.doc.sources) : path.same file.filename = false := by
  by_contra hnot
  rw [Bool.not_eq_false] at hnot
  rw [h.isVisited_iff.mpr ⟨file, hfile, hnot⟩] at hvisited
  cases hvisited

theorem lt_count_of_importPath? {doc : Document} {node : Nat} {other : Path}
    (h : importPath? doc node = some other) : node < doc.count := by
  obtain ⟨e, he, -⟩ := Option.bind_eq_some_iff.mp h
  exact Document.lt_count_of_source? (source?_of_element? he)

theorem IsKept.importPath?_attach (h : IsKept read main loading) (hid : id < loading.doc.count) (text : Text)
    {node : Nat} (hnode : node < loading.doc.count) :
    importPath? (loading.attach id path text).doc node = importPath? loading.doc node :=
  importPath?_attach_of_lt hid text hnode (h.source_lt node)

theorem IsKept.isFirstImport_attach (h : IsKept read main loading) (hid : id < loading.doc.count) (text : Text)
    {carrier : Nat} {other : Path} (hfirst : IsFirstImport loading.doc carrier other) :
    IsFirstImport (loading.attach id path text).doc carrier other := by
  have hcarrier := lt_count_of_importPath? hfirst.import_eq
  refine ⟨?_, fun earlier hearlier path' hpath' => ?_⟩
  · rw [h.importPath?_attach hid text hcarrier]
    exact hfirst.import_eq
  · rw [h.importPath?_attach hid text (Nat.lt_trans hearlier hcarrier)] at hpath'
    exact hfirst.first earlier hearlier path' hpath'

/-- A source keeps the place where it hangs. -/
theorem IsKept.isAttached_attach (h : IsKept read main loading) (hid : id < loading.doc.count) (text : Text)
    {carrier : Nat} {source : SourceId} {file : Source} (hattached : IsAttached loading.doc carrier source file) :
    IsAttached (loading.attach id path text).doc carrier source file := by
  have hlt := (List.getElem?_eq_some_iff.mp hattached.file_eq).1
  refine ⟨?_, hattached.pos, h.isFirstImport_attach hid text hattached.first, ⟨fun node hnode => ?_, ?_⟩⟩
  · rw [sources_attach hid, List.getElem?_append_left hlt]
    exact hattached.file_eq
  · -- the new nodes are of the new source
    rcases Nat.lt_or_ge node loading.doc.count with hold | hnew
    · rw [source?_attach_of_lt hid text hold] at hnode
      rw [ancestors_attach_of_lt hid text hold h.isTree]
      exact hattached.carries.below node hnode
    · rw [source?_attach_of_count_le hid text hnew (Document.lt_count_of_source? hnode)] at hnode
      cases hnode
      exact absurd hlt (Nat.lt_irrefl _)
  · obtain ⟨start, hstart⟩ := hattached.carries.whole
    refine ⟨start, fun k hk => ?_⟩
    have hbare := hstart k hk
    have hold : start + k < loading.doc.count := by
      rw [Document.lt_count_iff_bare?, hbare, Option.isSome_map]
      exact Document.lt_count_iff_bare?.mp hk
    rw [bare?_attach_of_lt hid text hold]
    exact hbare

theorem IsKept.isVisited_of_lt (h : IsKept read main loading) (hnext : loading.IsNext id path) {node : Nat}
    (hnode : node < id) {other : Path} (hother : importPath? loading.doc node = some other) :
    loading.isVisited other = true := by
  rcases Nat.lt_or_ge node loading.next with hseen | hunseen
  · exact h.seen node hseen other hother
  · exact hnext.earlier node hunseen hnode other hother

/-- The new source hangs under the import that it was read for. -/
theorem IsKept.isAttached_new (h : IsKept read main loading) (hnext : loading.IsNext id path) (text : Text) :
    IsAttached (loading.attach id path text).doc id loading.doc.sources.length ⟨path, text⟩ := by
  have hid := hnext.lt_count
  refine ⟨?_, ?_, ⟨?_, fun earlier hearlier other hother => ?_⟩, ⟨fun node hnode => ?_, ?_⟩⟩
  · rw [sources_attach hid, List.getElem?_append_right (Nat.le_refl _), Nat.sub_self]
    rfl
  · obtain ⟨text, others, hsources, -⟩ := h.begins
    rw [hsources]
    exact Nat.succ_pos _
  · rw [h.importPath?_attach hid text hid]
    exact hnext.import_eq
  · -- an earlier import of the same path would have asked for it
    rw [h.importPath?_attach hid text (Nat.lt_trans hearlier hid)] at hother
    obtain ⟨file, hfile, hotherSame⟩ := h.isVisited_iff.mp (h.isVisited_of_lt hnext hearlier hother)
    by_contra hnot
    rw [Bool.not_eq_false, Path.same_comm] at hnot
    have hpath := Path.same_trans hnot hotherSame
    rw [h.same_eq_false hnext.not_visited hfile] at hpath
    cases hpath
  · rcases Nat.lt_or_ge node loading.doc.count with hold | hnew
    · rw [source?_attach_of_lt hid text hold] at hnode
      exact absurd (h.source_lt node _ hnode) (Nat.lt_irrefl _)
    · exact mem_ancestors_attach hid text h.isTree hnew (Document.lt_count_of_source? hnode)
  · refine ⟨loading.doc.count, fun k _ => ?_⟩
    rw [doc_attach hid]
    exact @Document.bare?_graft_add (loading.doc.addSource ⟨path, text⟩) _ _ _ k

theorem IsKept.distinct_attach (h : IsKept read main loading) (hnext : loading.IsNext id path) (text : Text) :
    (loading.attach id path text).doc.sources.Pairwise fun a b => a.filename.same b.filename = false := by
  rw [sources_attach hnext.lt_count]
  refine List.pairwise_append.mpr ⟨h.distinct, List.pairwise_singleton _ _, fun file hfile new hnew => ?_⟩
  rw [List.mem_singleton.mp hnew, Path.same_comm]
  exact h.same_eq_false hnext.not_visited hfile

theorem IsKept.source_lt_attach (h : IsKept read main loading) (hid : id < loading.doc.count) (text : Text)
    {node source : Nat} (hsource : (loading.attach id path text).doc.source? node = some source) :
    source < (loading.attach id path text).doc.sources.length := by
  rw [sources_attach hid, List.length_append]
  rcases Nat.lt_or_ge node loading.doc.count with hold | hnew
  · rw [source?_attach_of_lt hid text hold] at hsource
    exact Nat.lt_add_right _ (h.source_lt node source hsource)
  · rw [source?_attach_of_count_le hid text hnew (Document.lt_count_of_source? hsource)] at hsource
    cases hsource
    exact Nat.lt_succ_self _

theorem IsKept.seen_attach (h : IsKept read main loading) (hnext : loading.IsNext id path) (text : Text)
    {node : Nat} (hnode : node < id + 1) {other : Path}
    (hother : importPath? (loading.attach id path text).doc node = some other) :
    (loading.attach id path text).isVisited other = true := by
  have hle : node ≤ id := Nat.le_of_lt_succ hnode
  rw [h.importPath?_attach hnext.lt_count text (Nat.lt_of_le_of_lt hle hnext.lt_count)] at hother
  rw [isVisited_attach]
  rcases Nat.lt_or_eq_of_le hle with hlt | rfl
  · rw [h.isVisited_of_lt hnext hlt hother, Bool.or_true]
  · rw [hnext.import_eq] at hother
    cases hother
    rw [Path.same_self, Bool.true_or]

theorem IsKept.hangs_attach (h : IsKept read main loading) (hnext : loading.IsNext id path) (text : Text)
    {source : Nat} {file : Source} (hpos : 0 < source)
    (hfile : (loading.attach id path text).doc.sources[source]? = some file) :
    ∃ carrier < id + 1, IsAttached (loading.attach id path text).doc carrier source file := by
  rw [sources_attach hnext.lt_count] at hfile
  rcases Nat.lt_or_ge source loading.doc.sources.length with hold | hnew
  · rw [List.getElem?_append_left hold] at hfile
    obtain ⟨carrier, hcarrier, hattached⟩ := h.hangs source file hpos hfile
    have hlt : carrier < id := Nat.lt_of_lt_of_le hcarrier hnext.next_le
    exact ⟨carrier, Nat.lt_succ_of_lt hlt, h.isAttached_attach hnext.lt_count text hattached⟩
  · -- only the new source is left
    have hlast : source = loading.doc.sources.length := by
      have hlt := (List.getElem?_eq_some_iff.mp hfile).1
      rw [List.length_append, List.length_singleton] at hlt
      omega
    rw [hlast, List.getElem?_append_right (Nat.le_refl _), Nat.sub_self] at hfile
    cases hfile
    rw [hlast]
    exact ⟨id, Nat.lt_succ_self id, h.isAttached_new hnext text⟩

theorem IsKept.edges_attach (h : IsKept read main loading) (hnext : loading.IsNext id path) (text : Text)
    {child parent source : Nat} (hparent : (loading.attach id path text).doc.parent? child = some parent)
    (hsource : (loading.attach id path text).doc.source? child = some source)
    (hne : (loading.attach id path text).doc.source? parent ≠ some source) :
    ∃ file, IsAttached (loading.attach id path text).doc parent source file := by
  have hid := hnext.lt_count
  have hlt := (isTree_attach hid text h.isTree).parent_lt hparent
  rcases Nat.lt_or_ge child loading.doc.count with hold | hnew
  · rw [parent?_attach_of_lt hid text hold] at hparent
    rw [source?_attach_of_lt hid text hold] at hsource
    rw [source?_attach_of_lt hid text (Nat.lt_trans hlt hold)] at hne
    obtain ⟨file, hattached⟩ := h.edges child parent source hparent hsource hne
    exact ⟨file, h.isAttached_attach hid text hattached⟩
  · have hchild := Document.lt_count_of_source? hsource
    rw [source?_attach_of_count_le hid text hnew hchild] at hsource
    cases hsource
    rcases parent?_attach_of_count_le hid text hnew hparent with rfl | hparentNew
    · exact ⟨_, h.isAttached_new hnext text⟩
    · exact absurd (source?_attach_of_count_le hid text hparentNew (Nat.lt_trans hlt hchild)) hne

theorem IsKept.assembled_attach (h : IsKept read main loading) (hnext : loading.IsNext id path) (text : Text) :
    ∃ first attached, read main = .ok first ∧
      IsAssembled main first attached (id + 1) (loading.attach id path text).doc := by
  obtain ⟨first, attached, hread, hassembled⟩ := h.assembled
  have hbefore : ∀ a ∈ attached, a.1 < id :=
    fun a ha => Nat.lt_of_lt_of_le (hassembled.lt_next a ha) hnext.next_le
  refine ⟨first, attached ++ [(id, ⟨path, text⟩)], hread, ?_, ?_, ?_, ?_⟩
  · rw [doc_attach hnext.lt_count, hassembled.eq_foldl, List.foldl_append]
    rfl
  · refine List.pairwise_append.mpr ⟨hassembled.ordered, List.pairwise_singleton _ _, fun a ha b hb => ?_⟩
    rw [List.mem_singleton.mp hb]
    exact hbefore a ha
  · refine List.forall_mem_append.mpr ⟨fun a ha => Nat.lt_succ_of_lt (hbefore a ha), ?_⟩
    exact List.forall_mem_singleton.mpr (Nat.lt_succ_self id)
  · refine List.forall_mem_append.mpr ⟨fun a ha => ?_, ?_⟩
    · exact h.isFirstImport_attach hnext.lt_count text (hassembled.first a ha)
    · exact List.forall_mem_singleton.mpr (h.isAttached_new hnext text).first

theorem IsKept.attach (h : IsKept read main loading) (hnext : loading.IsNext id path)
    (hread : read path = .ok text) : IsKept read main (loading.attach id path text) := by
  have hid := hnext.lt_count
  have hsources : (loading.attach id path text).doc.sources = loading.doc.sources ++ [⟨path, text⟩] :=
    sources_attach hid text
  refine ⟨isTree_attach hid text h.isTree, ?_, h.distinct_attach hnext text, ?_, ?_,
    fun _ _ => h.source_lt_attach hid text, fun _ hnode _ => h.seen_attach hnext text hnode,
    fun _ _ => h.hangs_attach hnext text, h.assembled_attach hnext text, fun _ _ _ => h.edges_attach hnext text⟩
  · show path :: loading.visited = _
    rw [hsources, h.visited]
    simp
  · obtain ⟨first, others, hbegins, hbare⟩ := h.begins
    refine ⟨first, others ++ [⟨path, text⟩], by rw [hsources, hbegins]; rfl, fun k hk => ?_⟩
    have hold : k < loading.doc.count := by
      rw [Document.lt_count_iff_bare?, hbare k hk]
      exact Document.lt_count_iff_bare?.mp hk
    rw [bare?_attach_of_lt hid text hold]
    exact hbare k hk
  · intro file hfile
    rw [hsources] at hfile
    rcases List.mem_append.mp hfile with hold | hnew
    · exact h.wasRead file hold
    · rw [List.mem_singleton.mp hnew]
      exact hread

theorem Reached.isKept (h : Reached read main loading) : IsKept read main loading := by
  induction h with
  | start hread => exact isKept_start hread
  | attach _ hpending hread ih => exact ih.attach (isNext_of_pending? hpending) hread

end Kept

/-! ## 5. Settled imports -/

/-- What has become of an import: its path is that of exactly one source. Under the first import of a path
other than that of the main file hangs what the file holds, and nothing else of another source. Nothing was
hung under any other import. -/
structure IsSettled (main : Path) (doc : Document) (id : NodeId) (path : Path) : Prop where
  source : ∃! source : SourceId, ∃ file, doc.sources[source]? = some file ∧ path.same file.filename = true
  attached : IsFirstImport doc id path → path.same main = false →
    ∀ source file, doc.sources[source]? = some file → path.same file.filename = true →
      Carries doc id source file ∧
        ∀ child ∈ doc.children id, doc.source? child = doc.source? id ∨ doc.source? child = some source
  passed : (IsFirstImport doc id path → path.same main = true) →
    ∀ child ∈ doc.children id, doc.source? child = doc.source? id

/-- The document holds the main file and all that the nodes before `next` import, each path once, and nothing
else. -/
structure IsLoadedTo (read : Path → Except ReadFailure Text) (main : Path) (next : NodeId)
    (doc : Document) : Prop where
  /-- Parents have smaller numbers, and the children of an element are the nodes whose parent it is, in their
  order. -/
  isTree : doc.IsTree
  assembled : ∃ text attached, read main = .ok text ∧ IsAssembled main text attached next doc
  begins : ∃ text others, doc.sources = ⟨main, text⟩ :: others ∧
    ∀ k, k < (Markup.read main text).count → doc.bare? k = (Markup.read main text).bare? k
  distinct : doc.sources.Pairwise fun a b => a.filename.same b.filename = false
  wasRead : ∀ file ∈ doc.sources, read file.filename = .ok file.text
  hangs : ∀ source file, 0 < source → doc.sources[source]? = some file →
    ∃ id < next, IsAttached doc id source file
  settled : ∀ id e href, id < next → doc.element? id = some e → e.name = importName →
    e.attribute? "href".toList = some href → ∃ importer, doc.sources[e.source]? = some importer ∧
      IsSettled main doc id (Path.join (importer.filename.parent?.getD []) href)

section Settled

variable {loading : Loading} {id : Nat} {path : Path}

theorem IsKept.source_unique (h : IsKept read main loading) {s t : SourceId} {f g : Source}
    (hf : loading.doc.sources[s]? = some f) (hg : loading.doc.sources[t]? = some g)
    (hsf : path.same f.filename = true) (hsg : path.same g.filename = true) : s = t := by
  have hsame : f.filename.same g.filename = true := by
    rw [Path.same_comm] at hsf
    exact Path.same_trans hsf hsg
  obtain ⟨hs, rfl⟩ := List.getElem?_eq_some_iff.mp hf
  obtain ⟨ht, rfl⟩ := List.getElem?_eq_some_iff.mp hg
  have hdistinct := List.pairwise_iff_getElem.mp h.distinct
  rcases Nat.lt_trichotomy s t with hlt | heq | hgt
  · rw [hdistinct s t hs ht hlt] at hsame
    cases hsame
  · exact heq
  · rw [Path.same_comm, hdistinct t s ht hs hgt] at hsame
    cases hsame

/-- The path of the main file is that of no other source. -/
theorem IsKept.main_ne (h : IsKept read main loading) {source : SourceId} {file : Source} (hpos : 0 < source)
    (hfile : loading.doc.sources[source]? = some file) : file.filename.same main = false := by
  obtain ⟨text, others, hsources, -⟩ := h.begins
  cases hsame : file.filename.same main with
  | false => rfl
  | true =>
    have hfirst : loading.doc.sources[0]? = some ⟨main, text⟩ := by
      rw [hsources]
      rfl
    rw [h.source_unique hfile hfirst (Path.same_self _) hsame] at hpos
    exact absurd hpos (Nat.lt_irrefl 0)

theorem IsKept.exists_source (h : IsKept read main loading) (hvisited : loading.isVisited path = true) :
    ∃ (source : SourceId) (file : Source), loading.doc.sources[source]? = some file ∧
      path.same file.filename = true := by
  obtain ⟨file, hfile, hsame⟩ := h.isVisited_iff.mp hvisited
  obtain ⟨source, hlt, rfl⟩ := List.getElem_of_mem hfile
  exact ⟨source, _, List.getElem?_eq_getElem hlt, hsame⟩

/-- A source hangs under the first import of its path and nowhere else. -/
theorem IsAttached.eq_of_isFirstImport {doc : Document} {carrier : Nat} {source : SourceId} {file : Source}
    (hattached : IsAttached doc carrier source file) (hfirst : IsFirstImport doc id path)
    (hsame : path.same file.filename = true) : carrier = id := by
  rcases Nat.lt_trichotomy carrier id with hlt | heq | hgt
  · have hne := hfirst.first carrier hlt _ hattached.first.import_eq
    rw [Path.same_comm, hsame] at hne
    cases hne
  · exact heq
  · have hne := hattached.first.first id hgt _ hfirst.import_eq
    rw [hsame] at hne
    cases hne

/-- What hangs under an import and is of another source is of the source that was read for the import. -/
theorem IsKept.child_cases (h : IsKept read main loading) (himport : importPath? loading.doc id = some path)
    {child : NodeId} (hchild : child ∈ loading.doc.children id) :
    loading.doc.source? child = loading.doc.source? id ∨
      ∃ source file, loading.doc.source? child = some source ∧ file.filename = path ∧
        IsAttached loading.doc id source file := by
  obtain ⟨e, he, -⟩ := Option.bind_eq_some_iff.mp himport
  have hparent := (h.isTree.mem_children (Option.isSome_of_eq_some he) child).mp hchild
  obtain ⟨node, hnode⟩ : ∃ node, loading.doc.node? child = some node :=
    ⟨_, List.getElem?_eq_getElem (Document.lt_count_of_parent? hparent)⟩
  have hsource : loading.doc.source? child = some node.content.source := by
    rw [Document.source?, hnode]
    rfl
  by_cases hsame : loading.doc.source? id = some node.content.source
  · exact .inl (hsource.trans hsame.symm)
  · obtain ⟨file, hattached⟩ := h.edges child id _ hparent hsource hsame
    refine .inr ⟨_, file, hsource, ?_, hattached⟩
    have hpath := hattached.first.import_eq
    rw [himport] at hpath
    exact (Option.some.inj hpath).symm

theorem IsKept.isSettled (h : IsKept read main loading) (himport : importPath? loading.doc id = some path)
    (hvisited : loading.isVisited path = true) : IsSettled main loading.doc id path := by
  refine ⟨?_, fun hfirst hmain source file hfile hsame => ⟨?_, fun child hchild => ?_⟩,
    fun hnot child hchild => ?_⟩
  · obtain ⟨source, file, hfile, hsame⟩ := h.exists_source hvisited
    refine ⟨source, ⟨file, hfile, hsame⟩, ?_⟩
    rintro other ⟨otherFile, hother, hotherSame⟩
    exact h.source_unique hother hfile hotherSame hsame
  · -- a source other than the main file hangs somewhere, so it hangs here
    have hpos : 0 < source := by
      refine Nat.pos_of_ne_zero fun hzero => ?_
      obtain ⟨text, others, hsources, -⟩ := h.begins
      rw [hzero, hsources] at hfile
      cases hfile
      rw [hmain] at hsame
      cases hsame
    obtain ⟨carrier, -, hattached⟩ := h.hangs source file hpos hfile
    rw [← hattached.eq_of_isFirstImport hfirst hsame]
    exact hattached.carries
  · rcases h.child_cases himport hchild with hown | ⟨other, otherFile, hother, rfl, hattached⟩
    · exact .inl hown
    · rw [h.source_unique hfile hattached.file_eq hsame (Path.same_self _)]
      exact .inr hother
  · rcases h.child_cases himport hchild with hown | ⟨other, otherFile, hother, rfl, hattached⟩
    · exact hown
    · have hmain := hnot hattached.first
      rw [h.main_ne hattached.pos hattached.file_eq] at hmain
      cases hmain

theorem IsKept.isLoadedTo (h : IsKept read main loading) {next : Nat}
    (hnext : min loading.next loading.doc.count ≤ next)
    (hvisited : ∀ node, node < next → ∀ path, importPath? loading.doc node = some path →
      loading.isVisited path = true) : IsLoadedTo read main next loading.doc := by
  have hcarrier : ∀ {carrier : Nat} {path : Path}, carrier < loading.next →
      IsFirstImport loading.doc carrier path → carrier < next := by
    intro carrier path hcarrier hfirst
    have hlt := lt_count_of_importPath? hfirst.import_eq
    exact Nat.lt_of_lt_of_le (Nat.lt_min.mpr ⟨hcarrier, hlt⟩) hnext
  refine ⟨h.isTree, ?_, h.begins, h.distinct, h.wasRead, fun source file hpos hfile => ?_,
    fun id e href hid he hname hhref => ?_⟩
  · obtain ⟨text, attached, hread, hassembled⟩ := h.assembled
    refine ⟨text, attached, hread, hassembled.eq_foldl, hassembled.ordered, fun a ha => ?_, hassembled.first⟩
    exact hcarrier (hassembled.lt_next a ha) (hassembled.first a ha)
  · obtain ⟨carrier, hlt, hattached⟩ := h.hangs source file hpos hfile
    exact ⟨carrier, hcarrier hlt hattached.first, hattached⟩
  have hlt := h.source_lt id e.source (source?_of_element? he)
  have himporter : loading.doc.sources[e.source]? = some _ := List.getElem?_eq_getElem hlt
  have himport : importPath? loading.doc id =
      some (Path.join (loading.doc.sources[e.source].filename.parent?.getD []) href) := by
    rw [importPath?, he, Option.bind_some, importOf?, himporter, hhref]
    simp [hname, guard]
  exact ⟨_, himporter, h.isSettled himport (hvisited id hid _ himport)⟩

end Settled

/-- What loading comes to. It succeeds with every import settled, those inside imported files as well. It
fails at the main file or, in the document that it has come to, at the first import in the order of the nodes
whose file cannot be read, when all imports before have been settled. -/
def IsOutcome (read : Path → Except ReadFailure Text) (main : Path) : Except Failure Document → Prop :=
  Ends
    (fun failure =>
      (failure.file = main ∧ read main = .error failure.cause) ∨
        ∃ loading id, Reached read main loading ∧ loading.next ≤ id ∧
          IsLoadedTo read main id loading.doc ∧
          importPath? loading.doc id = some failure.file ∧
          (∀ file ∈ loading.doc.sources, failure.file.same file.filename = false) ∧
          read failure.file = .error failure.cause)
    fun doc => IsLoadedTo read main doc.count doc

theorem isOutcome_of_ends {read : Path → Except ReadFailure Text} {main : Path}
    {result : Except Failure Document} (h : Ends (FailsAt read main) (Completes read main) result) :
    IsOutcome read main result := by
  refine h.imp (fun failure hfailure => ?_) fun doc hdoc => ?_
  · cases hfailure with
    | main hread => exact .inl ⟨rfl, hread⟩
    | @next loading id path cause hreached hpending hread =>
      have hkept := hreached.isKept
      have hnext := isNext_of_pending? hpending
      have hloaded : IsLoadedTo read main id loading.doc :=
        hkept.isLoadedTo (Nat.le_trans (Nat.min_le_left _ _) hnext.next_le)
          fun node hnode path himport => hkept.isVisited_of_lt hnext hnode himport
      exact .inr ⟨loading, id, hreached, hnext.next_le, hloaded, hnext.import_eq,
        fun file hfile => hkept.same_eq_false hnext.not_visited hfile, hread⟩
  · obtain ⟨loading, hreached, hpending, rfl⟩ := hdoc
    have hkept := hreached.isKept
    refine hkept.isLoadedTo (Nat.min_le_right _ _) fun node hnode path himport => ?_
    rcases Nat.lt_or_ge node loading.next with hseen | hunseen
    · exact hkept.seen node hseen path himport
    · exact isVisited_of_pending?_eq_none hpending hunseen hnode himport

/-- Loading ends so from any files, and so from those of a tree. -/
theorem isOutcome_load (main : Path) :
    (∀ files : FileSystem, IsOutcome files.read main (files.load main)) ∧
      ∀ tree : FileTree, IsOutcome tree.read main (tree.load main) :=
  ⟨fun files => isOutcome_of_ends (files.ends_load main),
    fun tree => isOutcome_of_ends (tree.system.ends_load main)⟩

end Loading

end Errata
