import Errata.Document.Basic

/-!
A finding is a problem at a position of the text that was looked at. A complaint is a problem at a
position of the source that an element was read from.
-/

namespace Errata

structure Finding (α : Type) where
  problem : α
  offset : Nat
deriving DecidableEq, Repr

structure Complaint (α : Type) where
  problem : α
  element : NodeId
  offset : Nat
deriving DecidableEq, Repr

namespace Complaint

def map {α β : Type} (f : α → β) (c : Complaint α) : Complaint β :=
  { problem := f c.problem, element := c.element, offset := c.offset }

end Complaint

/-- The complaint for a finding in a text that begins at `base` in the source of an element. -/
def Finding.complaint {α : Type} (element : NodeId) (base : Nat) (f : Finding α) : Complaint α :=
  { problem := f.problem, element, offset := base + f.offset }

end Errata
