import Errata.Text.Basic

/-!
Paths of files, as they are written. Two spellings of a path are the same path when they have the same
components: repeated and trailing separators do not count, nor does a `.` that is not the first
component.
-/

namespace Errata

abbrev Path := Text

namespace Path

def separator : Char := '/'

def isAbsolute (p : Path) : Bool := p.head? = some separator

/-- Whether a piece between separators is a component; `.` is one only at the start of a relative
path. -/
def isComponent (absolute : Bool) (index : Nat) (piece : Text) : Bool :=
  if piece.isEmpty then false
  else if piece = ['.'] then index = 0 && !absolute
  else true

/-- The components of a path, the root being told apart by `isAbsolute`. -/
def components (p : Path) : List Text :=
  ((p.pieces separator).zipIdx.filter fun (piece, i) => isComponent p.isAbsolute i piece).map
    Prod.fst

/-- Whether two spellings name the same path. -/
def same (p q : Path) : Bool :=
  p.isAbsolute == q.isAbsolute && p.components == q.components

@[simp] theorem same_self (p : Path) : p.same p = true := by simp [same]

/-- Drops the separators and the `.` pieces that a path ends with, down to its root or to the `.` it
begins with. The path is given from its last character on. -/
def trimReversed : Text → Text
  | [] => []
  | ['/'] => ['/']
  | ['.'] => ['.']
  | '/' :: rest => trimReversed rest
  | '.' :: '/' :: rest => trimReversed ('/' :: rest)
  | rest => rest

/-- The path without its last component; the root and the empty path have no parent. -/
def parent? (p : Path) : Option Path :=
  if p.components.isEmpty then none
  else
    let rest := (trimReversed p.reverse).dropWhile (· ≠ separator)
    some (trimReversed rest).reverse

/-- `relative` taken from the directory `base`. An absolute path is taken as it is. -/
def join (base relative : Path) : Path :=
  if relative.isAbsolute then relative
  else if base.isEmpty || base.getLast? = some separator then base ++ relative
  else base ++ separator :: relative

end Path
end Errata
