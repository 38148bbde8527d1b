import Errata.Expression.Reader

/-!
Positions are kept in words of 64 bits. Content may be placed so far out that a position which reading it
keeps does not fit, and then there is no answer, not even that of an error in it. Reading keeps where
tokens and texts start and where brackets open and close, in the order of the text.
-/

namespace Errata

/-- The last position that was kept when the item had been read. -/
def Item.lastKept : Item → Nat
  | .leaf _ fragment => fragment.offset
  | .paren span _ => span.stop
  | .record span _ => span.stop

namespace Expression

/-- The last position that was kept when something had been opened. -/
def Frame.lastKept : Frame → Nat
  | .paren start _ => start
  | .record _ _ _ name => name.offset

namespace Reading

/-- The last position kept before the end of the sequence that is being read, with the start of its
pending text. -/
def lastKept (r : Reading) : Nat :=
  match r.allItems with
  | item :: _ => item.lastKept
  | [] => (r.frames.head?.map Frame.lastKept).getD 0

/-- Where reading stops: at the end of the text, or before the character that it fails at. -/
def last (r : Reading) : Reading :=
  match hrest : r.cursor.rest with
  | [] => r
  | c :: _ =>
    match h : r.step c with
    | .error _ => r
    | .ok s =>
      have := step_length_lt hrest h
      s.last
termination_by r.cursor.rest.length

end Reading

/-- Positions from here on cannot be kept. -/
def positionLimit : Nat := UInt64.size

/-- The last position of an answer or of the way to it. An expression ends where its last item does. -/
def lastPosition (content : Fragment) : Nat :=
  match parse content with
  | .ok items => (items.getLast?.map Item.stop).getD 0
  | .error e => max e.offset (Reading.start content).last.lastKept

/-- The items of a step's content, if all positions can be kept. -/
def parsePlaced (content : Fragment) : Except Fault (Except StepError Expression) :=
  if lastPosition content < positionLimit then .ok (parse content)
  else .error (.tooFar (lastPosition content))

end Expression
end Errata
