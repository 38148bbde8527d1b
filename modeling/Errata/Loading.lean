import Errata.FileTree
import Errata.Markup.Reader
import Errata.Report.Palette
import Errata.Text.Bounded

/-!
Loading a document with the files that it imports. The nodes are looked at in the order of their numbers,
those of imported files among them. A file is read at its first import, and what it holds is put below
the element that imports it.
-/

namespace Errata

/-- A document of which the nodes before `next` have been looked at. -/
structure Loading where
  doc : Document
  /-- The paths that were asked for, the latest first. -/
  visited : List Path
  next : NodeId

namespace Loading

structure Failure where
  cause : ReadFailure
  file : Path
deriving DecidableEq, Repr

def Failure.message (failure : Failure) : String := failure.cause.message

/-- The failure in one line. -/
def Failure.concise (palette : Report.Palette) (failure : Failure) : String :=
  palette .error "error" ++ ": " ++ palette .filename (String.ofList failure.file) ++ ": " ++
    palette .problem failure.message

def importName : Text := "emu-import".toList

/-- The path of the file that an element imports, if it imports one. -/
def importOf? (doc : Document) (e : Element) : Option Path := do
  guard (e.name = importName)
  let href ← e.attribute? "href".toList
  let source ← doc.sources[e.source]?
  return Path.join (source.filename.parent?.getD []) href

def importPath? (doc : Document) (id : NodeId) : Option Path := (doc.element? id).bind (importOf? doc)

def isVisited (loading : Loading) (path : Path) : Bool := loading.visited.any (Path.same path)

/-- The import at a node, if it asks for a file that was not asked for before. -/
def request? (loading : Loading) (id : NodeId) : Option (NodeId × Path) :=
  ((importPath? loading.doc id).filter fun path => !loading.isVisited path).map fun path => (id, path)

/-- The next import that asks for a file. -/
def pending? (loading : Loading) : Option (NodeId × Path) :=
  (List.range' loading.next (loading.doc.count - loading.next)).findSome? loading.request?

/-- The state after the main file has been read. -/
def start (path : Path) (text : Text) : Loading where
  doc := Markup.read path text
  visited := [path]
  next := 0

/-- The state after the file of an import has been read. -/
def attach (loading : Loading) (id : NodeId) (path : Path) (text : Text) : Loading where
  doc := Markup.readText (loading.doc.addSource ⟨path, text⟩) text loading.doc.sources.length id
  visited := path :: loading.visited
  next := id + 1

/-! ## The end of loading

Each file is read under a path that was not asked for before, and paths are bounded. -/

/-- The number of paths that may still be asked for. -/
noncomputable def room (loading : Loading) : Nat :=
  (Text.upTo FileTree.pathLimit).countP fun path => !loading.isVisited path

theorem request?_eq_some_iff {loading : Loading} {node id : NodeId} {path : Path} :
    loading.request? node = some (id, path) ↔
      node = id ∧ importPath? loading.doc node = some path ∧ loading.isVisited path = false := by
  simp only [request?, Option.map_eq_some_iff, Option.filter_eq_some_iff, Prod.mk.injEq,
    Bool.not_eq_true']
  constructor
  · rintro ⟨_, ⟨hpath, hvisited⟩, rfl, rfl⟩
    exact ⟨rfl, hpath, hvisited⟩
  · rintro ⟨rfl, hpath, hvisited⟩
    exact ⟨path, ⟨hpath, hvisited⟩, rfl, rfl⟩

theorem isVisited_of_pending? {loading : Loading} {id : NodeId} {path : Path}
    (h : loading.pending? = some (id, path)) : loading.isVisited path = false := by
  obtain ⟨node, -, hrequest⟩ := List.exists_of_findSome?_eq_some h
  exact (request?_eq_some_iff.mp hrequest).2.2

theorem isVisited_attach (loading : Loading) (id : NodeId) (path : Path) (text : Text) (other : Path) :
    (loading.attach id path text).isVisited other = (other.same path || loading.isVisited other) :=
  List.any_cons

theorem room_attach_lt {loading : Loading} {id : NodeId} {path : Path} (text : Text)
    (h : loading.pending? = some (id, path)) (hsize : path.size < FileTree.pathLimit) :
    (loading.attach id path text).room < loading.room := by
  refine Text.countP_upTo_lt (fun other hother => ?_) (Nat.le_of_lt hsize) ?_ ?_
  · rw [isVisited_attach, Bool.not_eq_true', Bool.or_eq_false_iff] at hother
    rw [hother.2]
    rfl
  · rw [isVisited_attach, Path.same_self]
    rfl
  · rw [isVisited_of_pending? h]
    rfl

/-- Reads the files that are still asked for. -/
def finish {m : Type → Type} [Monad m] (read : Path → m (Except ReadFailure Text)) (loading : Loading) :
    m (Except Failure Document) :=
  match hpending : loading.pending? with
  | none => return .ok loading.doc
  | some (id, path) => do
    match ← read path with
    | .error cause => return .error ⟨cause, path⟩
    | .ok text =>
      if hsize : path.size < FileTree.pathLimit then
        have := room_attach_lt text hpending hsize
        finish read (loading.attach id path text)
      -- nothing is read under such a path
      else return .error ⟨.invalidName, path⟩
termination_by loading.room

end Loading

/-- Loads a document with all its imports. -/
def load {m : Type → Type} [Monad m] (read : Path → m (Except ReadFailure Text)) (main : Path) :
    m (Except Loading.Failure Document) := do
  match ← read main with
  | .error cause => return .error ⟨cause, main⟩
  | .ok text => Loading.finish read (.start main text)

/-- Loads a document from a tree of files. -/
def FileTree.load (tree : FileTree) (main : Path) : Except Loading.Failure Document :=
  Id.run (Errata.load (fun path => pure (tree.read path)) main)

end Errata
