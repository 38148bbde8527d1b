import Errata.Proofs.Loading.Completeness

/-!
# The files of a loaded document

Each source of a loaded document is a file of the tree, and a path that was asked for is not read again.
What is compared are the components of paths, not the places that they lead to. So the same file can be read
twice, but only if one of its two paths goes up, or one begins with `.` and the other does not.
-/

namespace Errata

namespace FileTree

/-! ## 1. The place that a walk has come to -/

/-- The walk stands at the place. -/
inductive Stands (tree : FileTree) : Option (List Text) → Place → Prop
  | directory (place : List Text) : Stands tree (some place) (.directory place)
  | file {place : List Text} {content : ByteArray} (h : tree.file? place.reverse = some content) :
      Stands tree (some place) (.file content)
  | above : Stands tree none .above

variable {tree : FileTree}

theorem stands_enter {components : List Text} {name : Text} {place : Place}
    (h : tree.enter components name = .ok place) : tree.Stands (some (name :: components)) place := by
  unfold enter at h
  split at h
  · cases h
  cases hfile : tree.file? (name :: components).reverse with
  | some content =>
    simp only [hfile] at h
    cases h
    exact .file hfile
  | none =>
    simp only [hfile] at h
    split at h
    · cases h
      exact .directory _
    · cases h

theorem stands_step {at? : Option (List Text)} {place next : Place} {piece : Text}
    (hstands : tree.Stands at? place) (h : tree.step place piece = .ok next) :
    tree.Stands (Path.follow at? piece) next := by
  cases hstands with
  | file => cases h
  | above =>
    rw [step] at h
    split at h
    · cases h
      exact .above
    · split at h <;> cases h
  | directory components =>
    have hname : Path.isNamePiece piece = !(piece.isEmpty || piece = ['.']) := by
      simp [Path.isNamePiece]
    rw [Path.follow, hname, Bool.not_not]
    rw [step.eq_def] at h
    dsimp only at h
    -- a piece leaves the walk where it is, takes it up, or takes it to an entry of the directory
    split at h
    · rename_i hskip
      rw [if_pos hskip]
      cases h
      exact .directory components
    · rename_i hskip
      rw [if_neg hskip]
      split at h
      · rename_i hup
        rw [if_pos hup]
        cases components with
        | nil =>
          -- from the working directory there is no way back
          cases h
          exact .above
        | cons name components =>
          cases h
          exact .directory components
      · rename_i hup
        rw [if_neg hup]
        exact stands_enter h

theorem stands_foldlM {at? : Option (List Text)} {place next : Place} {pieces : List Text}
    (hstands : tree.Stands at? place) (h : pieces.foldlM tree.step place = .ok next) :
    tree.Stands (pieces.foldl Path.follow at?) next := by
  induction pieces generalizing at? place with
  | nil =>
    cases h
    exact hstands
  | cons piece pieces ih =>
    rw [List.foldlM_cons] at h
    obtain ⟨middle, hstep, hrest⟩ := bind_eq_ok_iff.mp h
    exact ih (stands_step hstands hstep) hrest

/-- There is no way back from above the working directory. -/
theorem foldl_follow_none (pieces : List Text) : pieces.foldl Path.follow none = none := by
  induction pieces with
  | nil => rfl
  | cons piece pieces ih => exact ih

theorem stands_find {path : Path} {place : Place} (h : tree.find path = .ok place) :
    tree.Stands path.place? place := by
  unfold find at h
  split at h
  · cases h
  split at h
  · cases h
  split at h
  · cases h
  rw [Path.place?]
  cases habsolute : path.isAbsolute with
  | true =>
    rw [habsolute] at h
    have hstands := stands_foldlM .above h
    rw [foldl_follow_none] at hstands
    exact hstands
  | false =>
    rw [habsolute] at h
    exact stands_foldlM (.directory []) h

/-- The path leads to a file of the tree, and the text is what the file holds. -/
def LeadsTo (tree : FileTree) (path : Path) (place : List Text) (text : Text) : Prop :=
  path.place? = some place ∧ ∃ content, tree.file? place.reverse = some content ∧ decode content = .ok text

theorem leadsTo_of_read {path : Path} {text : Text} (h : tree.read path = .ok text) :
    ∃ place, tree.LeadsTo path place text := by
  obtain ⟨found, hfind, hdecode⟩ := bind_eq_ok_iff.mp h
  cases found with
  | directory components => cases hdecode
  | above => cases hdecode
  | file content =>
    have hstands := stands_find hfind
    cases hplace : path.place? with
    | none =>
      rw [hplace] at hstands
      cases hstands
    | some place =>
      rw [hplace] at hstands
      cases hstands with
      | file hfile => exact ⟨place, hplace, content, hfile, hdecode⟩

end FileTree

/-! ## 2. Spellings of one place -/

namespace Path

theorem isAbsolute_of_place? {p : Path} {place : List Text} (h : p.place? = some place) :
    p.isAbsolute = false := by
  rw [place?] at h
  cases habsolute : p.isAbsolute with
  | false => rfl
  | true =>
    rw [habsolute] at h
    cases h

/-- Paths that lead to one place are the same, unless one goes up or only one begins with `.`. -/
theorem spelled_apart {p q : Path} {place : List Text} (hp : p.place? = some place)
    (hq : q.place? = some place) (hsame : p.same q = false) :
    p.goesUp = true ∨ q.goesUp = true ∨ p.isDotted ≠ q.isDotted := by
  by_contra hnot
  rw [not_or, not_or, Bool.not_eq_true, Bool.not_eq_true, not_not] at hnot
  obtain ⟨hpup, hqup, hdotted⟩ := hnot
  have hequal := same_of_place?_eq (isAbsolute_of_place? hp) (isAbsolute_of_place? hq) hpup hqup hdotted
    (hp.trans hq.symm)
  rw [hsame] at hequal
  cases hequal

end Path

/-! ## 3. Sources -/

namespace FileTree

open Loading

variable {tree : FileTree} {main : Path} {doc : Document}

/-- Every source of a loaded document is a file of the tree, no path is read twice, and two sources are the
same file only under two spellings of which one goes up or exactly one begins with `.`. -/
theorem sources_load_distinct (h : tree.load main = .ok doc) :
    (∀ source ∈ doc.sources, ∃ place, tree.LeadsTo source.filename place source.text) ∧
      doc.sources.Pairwise fun a b =>
        a.filename.same b.filename = false ∧
          (a.filename.place? = b.filename.place? →
            a.filename.goesUp = true ∨ b.filename.goesUp = true ∨
              a.filename.isDotted ≠ b.filename.isDotted) := by
  rw [load_eq] at h
  obtain ⟨loading, hreached, rfl⟩ := FileSystem.exists_reached_of_load h
  have hkept := hreached.isKept
  have hfiles : ∀ source ∈ loading.doc.sources, ∃ place, tree.LeadsTo source.filename place source.text :=
    fun source hsource => leadsTo_of_read (hkept.wasRead source hsource)
  refine ⟨hfiles, hkept.distinct.imp_of_mem fun {a b} ha _ hsame => ⟨hsame, fun hplace => ?_⟩⟩
  obtain ⟨place, ha, -⟩ := hfiles a ha
  exact Path.spelled_apart ha (hplace ▸ ha) hsame

def importsTwice : String := "<emu-import href=a.html></emu-import><emu-import href=./a.html></emu-import>"

/-- The main file imports the same file under two paths. -/
def importedTwice : FileTree where
  files := [⟨["main.html".toList], importsTwice.toUTF8⟩, ⟨["a.html".toList], "x".toUTF8⟩]

theorem exists_load_importedTwice :
    ∃ doc, importedTwice.load "main.html".toList = .ok doc ∧
      doc.sources.map Source.filename = ["main.html".toList, "a.html".toList, "./a.html".toList] := by
  have hmain : importedTwice.read "main.html".toList = .ok importsTwice.toList := by decide +kernel
  have hfirst : importedTwice.read "a.html".toList = .ok "x".toList := by decide +kernel
  have hsecond : importedTwice.read "./a.html".toList = .ok "x".toList := by decide +kernel
  have hreached := ((Reached.start hmain).attach (by decide +kernel : _ = some (1, _)) hfirst).attach
    (by decide +kernel : _ = some (2, _)) hsecond
  exact ⟨_, load_of_reached hreached (by decide +kernel), by decide +kernel⟩

theorem sources_load_distinct_importedTwice :
    ∃ doc, importedTwice.load "main.html".toList = .ok doc ∧
      (∀ source ∈ doc.sources, ∃ place, importedTwice.LeadsTo source.filename place source.text) ∧
        doc.sources.Pairwise fun a b =>
          a.filename.same b.filename = false ∧
            (a.filename.place? = b.filename.place? →
              a.filename.goesUp = true ∨ b.filename.goesUp = true ∨
                a.filename.isDotted ≠ b.filename.isDotted) := by
  obtain ⟨doc, hload, -⟩ := exists_load_importedTwice
  exact ⟨doc, hload, sources_load_distinct hload⟩

/-- A file is read again under another spelling of its path. -/
theorem load_same_file_twice :
    ∃ doc, importedTwice.load "main.html".toList = .ok doc ∧
      doc.sources.map Source.filename = ["main.html".toList, "a.html".toList, "./a.html".toList] ∧
        Path.place? "./a.html".toList = Path.place? "a.html".toList := by
  obtain ⟨doc, hload, hsources⟩ := exists_load_importedTwice
  exact ⟨doc, hload, hsources, by decide +kernel⟩

end FileTree

end Errata
