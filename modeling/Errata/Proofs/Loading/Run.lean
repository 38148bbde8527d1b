import Errata.Loading
import Errata.Proofs.Except
import Mathlib.Data.List.Basic

/-!
# The states of loading

Loading goes from state to state, one file at a time, until no import asks for a file or one cannot be read.
What holds at the start and is kept by each file holds of every state.
-/

namespace Errata

/-! ## 1. Reading files -/

namespace FileTree

/-- Nothing is read under a path that is too long. -/
theorem size_lt_of_read {tree : FileTree} {path : Path} {text : Text} (h : tree.read path = .ok text) :
    path.size < pathLimit := by
  obtain ⟨place, hfind, -⟩ := bind_eq_ok_iff.mp h
  unfold find at hfind
  split at hfind
  · cases hfind
  split at hfind
  · cases hfind
  split at hfind
  · cases hfind
  · rename_i hsize
    exact Nat.lt_of_not_le hsize

end FileTree

namespace Loading

variable {loading : Loading} {id : NodeId} {path : Path} {text : Text}

/-! ## 2. The next import -/

theorem request?_eq_none_iff {node : NodeId} :
    loading.request? node = none ↔
      ∀ other, importPath? loading.doc node = some other → loading.isVisited other = true := by
  rw [request?, Option.map_eq_none_iff, Option.filter_eq_none_iff]
  simp

/-- The import at node `id` asks for a file, and all imports from `next` on and before it ask for files
that were asked for before. -/
structure IsNext (loading : Loading) (id : NodeId) (path : Path) : Prop where
  next_le : loading.next ≤ id
  lt_count : id < loading.doc.count
  import_eq : importPath? loading.doc id = some path
  not_visited : loading.isVisited path = false
  earlier : ∀ node, loading.next ≤ node → node < id → ∀ other,
    importPath? loading.doc node = some other → loading.isVisited other = true

theorem mem_range'_sub {first stop n : Nat} : n ∈ List.range' first (stop - first) ↔ first ≤ n ∧ n < stop := by
  rw [List.mem_range'_1]
  omega

theorem isNext_of_pending? (h : loading.pending? = some (id, path)) : loading.IsNext id path := by
  obtain ⟨before, node, after, hrange, hrequest, hbefore⟩ := List.findSome?_eq_some_iff.mp h
  obtain ⟨rfl, himport, hvisited⟩ := request?_eq_some_iff.mp hrequest
  have hmem : node ∈ List.range' loading.next (loading.doc.count - loading.next) := by
    rw [hrange]
    exact List.mem_append_right _ List.mem_cons_self
  obtain ⟨hnext, hcount⟩ := mem_range'_sub.mp hmem
  refine ⟨hnext, hcount, himport, hvisited, fun earlier hle hlt => ?_⟩
  -- the numbers go up, so a smaller one stands before
  have hsorted : (List.range' loading.next (loading.doc.count - loading.next)).Pairwise (· < ·) :=
    List.pairwise_lt_range'
  have hearlier := mem_range'_sub.mpr ⟨hle, Nat.lt_trans hlt hcount⟩
  rw [hrange] at hsorted hearlier
  obtain ⟨-, hafter, -⟩ := List.pairwise_append.mp hsorted
  rcases List.mem_append.mp hearlier with hin | hin
  · exact request?_eq_none_iff.mp (hbefore earlier hin)
  · rcases List.mem_cons.mp hin with rfl | hin
    · exact absurd hlt (Nat.lt_irrefl _)
    · exact absurd hlt (Nat.lt_asymm (List.rel_of_pairwise_cons hafter hin))

theorem isVisited_of_pending?_eq_none (h : loading.pending? = none) {node : NodeId}
    (hle : loading.next ≤ node) (hlt : node < loading.doc.count) {other : Path}
    (himport : importPath? loading.doc node = some other) : loading.isVisited other = true := by
  have hnone := List.findSome?_eq_none_iff.mp h node (mem_range'_sub.mpr ⟨hle, hlt⟩)
  exact request?_eq_none_iff.mp hnone other himport

/-! ## 3. From state to state -/

/-- The states that loading passes through. -/
inductive Reached (read : Path → Except ReadFailure Text) (main : Path) : Loading → Prop
  | start {text : Text} (hread : read main = .ok text) : Reached read main (.start main text)
  | attach {loading : Loading} {id : NodeId} {path : Path} {text : Text}
      (hreached : Reached read main loading) (hpending : loading.pending? = some (id, path))
      (hread : read path = .ok text) : Reached read main (loading.attach id path text)

/-- The file that could not be read is the main file or that of the next import. -/
inductive FailsAt (read : Path → Except ReadFailure Text) (main : Path) : Failure → Prop
  | main {cause : ReadFailure} (hread : read main = .error cause) : FailsAt read main ⟨cause, main⟩
  | next {loading : Loading} {id : NodeId} {path : Path} {cause : ReadFailure}
      (hreached : Reached read main loading) (hpending : loading.pending? = some (id, path))
      (hread : read path = .error cause) : FailsAt read main ⟨cause, path⟩

/-- The document is that of a state in which no import asks for a file. -/
def Completes (read : Path → Except ReadFailure Text) (main : Path) (doc : Document) : Prop :=
  ∃ loading, Reached read main loading ∧ loading.pending? = none ∧ loading.doc = doc

/-- What is left to do from a state on, for files that are read without effects. -/
def rest (read : Path → Except ReadFailure Text) (loading : Loading) : Except Failure Document :=
  Id.run (loading.finish fun path => pure (read path))

variable {read : Path → Except ReadFailure Text} {main : Path}

theorem rest_of_pending?_eq_none (h : loading.pending? = none) : loading.rest read = .ok loading.doc := by
  rw [rest, finish]
  split
  · rfl
  · rename_i hpending
    rw [h] at hpending
    cases hpending

theorem rest_of_error {cause : ReadFailure} (h : loading.pending? = some (id, path))
    (hread : read path = .error cause) : loading.rest read = .error ⟨cause, path⟩ := by
  rw [rest, finish]
  split
  · rename_i hpending
    rw [h] at hpending
    cases hpending
  · rename_i hpending
    rw [h] at hpending
    cases hpending
    simp only [hread]
    rfl

theorem rest_of_ok (h : loading.pending? = some (id, path)) (hread : read path = .ok text)
    (hsize : path.size < FileTree.pathLimit) :
    loading.rest read = (loading.attach id path text).rest read := by
  rw [rest, finish]
  split
  · rename_i hpending
    rw [h] at hpending
    cases hpending
  · rename_i hpending
    rw [h] at hpending
    cases hpending
    simp only [hread, dif_pos hsize]
    rfl

theorem ends_rest (hlong : ∀ path text, read path = .ok text → path.size < FileTree.pathLimit)
    (hreached : Reached read main loading) :
    Ends (FailsAt read main) (Completes read main) (loading.rest read) := by
  -- the room for further paths shrinks with every file
  induction hroom : loading.room using Nat.strongRecOn generalizing loading with
  | _ n ih =>
    cases hpending : loading.pending? with
    | none =>
      rw [rest_of_pending?_eq_none hpending]
      exact ⟨loading, hreached, hpending, rfl⟩
    | some found =>
      obtain ⟨id, path⟩ := found
      cases hread : read path with
      | error cause =>
        rw [rest_of_error hpending hread]
        exact .next hreached hpending hread
      | ok text =>
        have hsize := hlong path text hread
        rw [rest_of_ok hpending hread hsize]
        refine ih _ ?_ (hreached.attach hpending hread) rfl
        rw [← hroom]
        exact room_attach_lt text hpending hsize

end Loading

/-! ## 4. Loading from files -/

/-- Files that can be read by their paths, wherever they are kept. Nothing is read under a path that is too
long. -/
structure FileSystem where
  read : Path → Except ReadFailure Text
  size_lt : ∀ path text, read path = .ok text → path.size < FileTree.pathLimit

/-- The files of a tree. -/
def FileTree.system (tree : FileTree) : FileSystem := ⟨tree.read, fun _ _ => size_lt_of_read⟩

namespace FileSystem

open Loading

/-- Loads a document with all its imports. -/
def load (files : FileSystem) (main : Path) : Except Failure Document :=
  Id.run (Errata.load (fun path => pure (files.read path)) main)

variable {files : FileSystem} {main : Path}

theorem load_of_error {cause : ReadFailure} (h : files.read main = .error cause) :
    files.load main = .error ⟨cause, main⟩ := by
  simp only [load, Errata.load, h]
  rfl

theorem load_of_ok {text : Text} (h : files.read main = .ok text) :
    files.load main = (Loading.start main text).rest files.read := by
  simp only [load, Errata.load, h]
  rfl

/-- Loading fails at a file that cannot be read, or gives the document of a state without open imports. -/
theorem ends_load (files : FileSystem) (main : Path) :
    Ends (FailsAt files.read main) (Completes files.read main) (files.load main) := by
  cases hread : files.read main with
  | error cause =>
    rw [load_of_error hread]
    exact .main hread
  | ok text =>
    rw [load_of_ok hread]
    exact ends_rest files.size_lt (.start hread)

theorem exists_reached_of_load {doc : Document} (h : files.load main = .ok doc) :
    ∃ loading, Reached files.read main loading ∧ loading.doc = doc := by
  have hends := files.ends_load main
  rw [h] at hends
  obtain ⟨loading, hreached, -, hdoc⟩ := hends
  exact ⟨loading, hreached, hdoc⟩

/-- Whatever state has been reached, the document is what is left to do from there on. -/
theorem load_eq_rest {loading : Loading} (h : Reached files.read main loading) :
    files.load main = loading.rest files.read := by
  induction h with
  | start hread => exact load_of_ok hread
  | attach hreached hpending hread ih =>
    rw [ih, rest_of_ok hpending hread (files.size_lt _ _ hread)]

theorem load_of_reached {loading : Loading} (h : Reached files.read main loading)
    (hpending : loading.pending? = none) : files.load main = .ok loading.doc :=
  (load_eq_rest h).trans (rest_of_pending?_eq_none hpending)

end FileSystem

namespace FileTree

theorem load_eq (tree : FileTree) (main : Path) : tree.load main = tree.system.load main := rfl

theorem load_of_reached {tree : FileTree} {main : Path} {loading : Loading}
    (h : Loading.Reached tree.read main loading) (hpending : loading.pending? = none) :
    tree.load main = .ok loading.doc :=
  @FileSystem.load_of_reached tree.system main loading h hpending

end FileTree

end Errata
