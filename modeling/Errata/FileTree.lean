import Errata.Path

/-!
A tree of files below a working directory. A path is walked piece by piece: `..` goes to the directory
above, and nothing but directories can be walked through. Above the working directory there are only
directories without other entries.
-/

namespace Errata

/-- Why a file could not be read. -/
inductive ReadFailure where
  | notFound
  | isDirectory
  | notDirectory
  /-- The content is not UTF-8. -/
  | invalidData
  | invalidName
  | invalidInput
deriving DecidableEq, Repr

namespace ReadFailure

def message : ReadFailure → String
  | notFound => "File not found"
  | isDirectory => "Failed reading: is a directory"
  | notDirectory => "Failed reading: not a directory"
  | invalidData => "Failed reading: invalid data"
  | invalidName => "Failed reading: invalid filename"
  | invalidInput => "Failed reading: invalid input parameter"

end ReadFailure

/-- The text that the bytes of a file are. -/
def decode (content : ByteArray) : Except ReadFailure Text :=
  match String.fromUTF8? content with
  | none => .error .invalidData
  | some text => .ok text.toList

/-- A file, named by its components below the working directory. -/
structure File where
  place : List Text
  content : ByteArray

structure FileTree where
  files : List File

namespace FileTree

/-- Where a walk stands. -/
inductive Place where
  /-- A directory below the working directory, its last component first. -/
  | directory (components : List Text)
  | file (content : ByteArray)
  /-- A directory above the working directory. -/
  | above

/-- The greatest size of one component. -/
def nameLimit : Nat := 255

/-- No path is as long as this. -/
def pathLimit : Nat := 4096

def file? (tree : FileTree) (place : List Text) : Option ByteArray :=
  (tree.files.find? (·.place = place)).map File.content

/-- Whether a file stands somewhere below the place. -/
def isDirectory (tree : FileTree) (place : List Text) : Bool :=
  tree.files.any fun file => place.isPrefixOf file.place && place.length < file.place.length

/-- The place with the given name in a directory. -/
def enter (tree : FileTree) (components : List Text) (name : Text) : Except ReadFailure Place :=
  let place := (name :: components).reverse
  if nameLimit < name.size then .error .invalidName
  else match tree.file? place with
    | some content => .ok (.file content)
    | none =>
      if tree.isDirectory place then .ok (.directory (name :: components)) else .error .notFound

/-- The place that one piece of a path leads to. -/
def step (tree : FileTree) (place : Place) (piece : Text) : Except ReadFailure Place :=
  match place with
  -- also after a trailing separator
  | .file _ => .error .notDirectory
  | .directory components =>
    if piece.isEmpty || piece = ['.'] then .ok place
    else if piece = ['.', '.'] then
      match components with
      | [] => .ok .above
      | _ :: rest => .ok (.directory rest)
    else tree.enter components piece
  | .above =>
    if piece.isEmpty || piece = ['.'] || piece = ['.', '.'] then .ok .above
    else if nameLimit < piece.size then .error .invalidName
    else .error .notFound

/-- The place that a path leads to. -/
def find (tree : FileTree) (path : Path) : Except ReadFailure Place :=
  if path.contains '\x00' then .error .invalidInput
  else if path.isEmpty then .error .notFound
  else if pathLimit ≤ path.size then .error .invalidName
  else
    let start := if path.isAbsolute then .above else .directory []
    (path.pieces Path.separator).foldlM tree.step start

/-- The text of the file that a path leads to. -/
def read (tree : FileTree) (path : Path) : Except ReadFailure Text := do
  match ← tree.find path with
  | .directory _ => throw .isDirectory
  | .above => throw .isDirectory
  | .file content => decode content

end FileTree
end Errata
