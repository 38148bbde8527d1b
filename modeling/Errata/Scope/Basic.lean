import Errata.Text.Basic

/-!
The variables of an algorithm. A name that has been declared is visible from then on, at whatever level
it was declared. Each level of steps also keeps the names declared strictly at that level, since a strict
declaration may not be repeated there.
-/

namespace Errata

namespace Scope

/-- How a name came to be declared. -/
inductive Kind where
  /-- Named in the prose before the algorithm. -/
  | parameter
  | ordinary
  | loop
  | closureParameter
  | capture
  /-- Named by an attribute of a step. -/
  | annotated
deriving DecidableEq, Repr

structure Declaration where
  kind : Kind
  used : Bool
  /-- Where the name was declared; prose has no place in the algorithm. -/
  offset : Option Nat
deriving DecidableEq, Repr

/-- What a declaration did. -/
inductive Declared where
  | new
  | existing
  | conflict
deriving DecidableEq, Repr

end Scope

structure Scope where
  /-- The names declared strictly at the current level. -/
  level : List Text
  /-- The same for the levels around it, from the inside out. -/
  outer : List (List Text)
  /-- All declared names, in the order in which they were declared. -/
  entries : List (Text × Scope.Declaration)
deriving DecidableEq, Repr

namespace Scope

def empty : Scope := ⟨[], [], []⟩

def get? (s : Scope) (name : Text) : Option Declaration := s.entries.lookup name

def isDeclared (s : Scope) (name : Text) : Bool := (s.get? name).isSome

/-- Begins a level. -/
def push (s : Scope) : Scope := { s with level := [], outer := s.level :: s.outer }

/-- Ends the current level. The outermost level has no end. -/
def pop (s : Scope) : Scope :=
  match s.outer with
  | [] => s
  | level :: outer => { s with level, outer }

/-- Declares a name. A declaration that shadows never conflicts and is not kept as a strict one. -/
def declare (s : Scope) (name : Text) (kind : Kind) (offset : Option Nat) (shadow : Bool) :
    Scope × Declared :=
  let strict := if shadow || s.level.contains name then s.level else name :: s.level
  if s.isDeclared name then
    if !shadow && s.level.contains name then (s, .conflict)
    else ({ s with level := strict }, .existing)
  else
    let declaration : Declaration := { kind, used := false, offset }
    ({ s with level := strict, entries := s.entries ++ [(name, declaration)] }, .new)

/-- A scope in which the given names have been declared as parameters. -/
def seeded (names : List Text) : Scope :=
  names.foldl (fun s name => (s.declare name .parameter none true).1) empty

/-- Marks a name as used. -/
def use (s : Scope) (name : Text) : Scope :=
  let mark (entry : Text × Declaration) : Text × Declaration :=
    if entry.1 = name then (entry.1, { entry.2 with used := true }) else entry
  { s with entries := s.entries.map mark }

/-- Forgets a name at all levels. -/
def remove (s : Scope) (name : Text) : Scope where
  level := s.level.filter (· ≠ name)
  outer := s.outer.map (·.filter (· ≠ name))
  entries := s.entries.filter (·.1 ≠ name)

/-- Whether an entry stands before another: by its place, names without a place first, and then by the
name. -/
def entryLe (a b : Text × Declaration) : Bool :=
  match a.2.offset, b.2.offset with
  | none, some _ => true
  | some _, none => false
  | some m, some n => if m = n then !decide (b.1 < a.1) else m < n
  | none, none => !decide (b.1 < a.1)

/-- The declared names that were never used, in the order in which they are written. -/
def unused (s : Scope) : List (Text × Declaration) :=
  (s.entries.filter (!·.2.used)).mergeSort entryLe

end Scope
end Errata
