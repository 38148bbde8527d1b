import Errata.Document.Basic
import Errata.Text.Cursor

/-!
The content of a step is a sequence of items: pieces of text, names and other tokens, and parentheses and
records with sequences in them. All positions are positions in the text of the algorithm.
-/

namespace Errata

/-- Kinds of items that hold no other items. -/
inductive Leaf where
  | text
  /-- A name between underscores. -/
  | var
  /-- An enum value between tildes. -/
  | enumValue
  /-- A figure from its start tag through its end tag. -/
  | figure
  /-- A nonterminal between bars. -/
  | nonterminal
  /-- Markup without meaning here: other tags, values between stars, code. -/
  | inert
deriving DecidableEq, Repr

mutual

inductive Item where
  | leaf (kind : Leaf) (fragment : Fragment)
  | paren (span : Span) (inner : List Item)
  | record (span : Span) (fields : List Field)

/-- A field of a record, such as `[[Name]]: value`. -/
structure Field where
  name : Fragment
  value : List Item

end

/-- The content of a step. -/
abbrev Expression := List Item

namespace Item

def start : Item → Nat
  | .leaf _ fragment => fragment.offset
  | .paren span _ => span.start
  | .record span _ => span.start

def stop : Item → Nat
  | .leaf _ fragment => fragment.stop
  | .paren span _ => span.stop
  | .record span _ => span.stop

/-- The text of an item that is plain text. -/
def text? : Item → Option Text
  | .leaf .text fragment => some fragment.text
  | _ => none

/-- The token of an item that names a variable. -/
def var? : Item → Option Fragment
  | .leaf .var fragment => some fragment
  | _ => none

def isVar (item : Item) : Bool := item.var?.isSome

end Item

/-- The name in a variable token. -/
def Fragment.name (token : Fragment) : Text := token.text.undelimited

mutual

/-- The tokens of one kind in an item, from left to right. -/
def Item.leaves (kind : Leaf) : Item → List Fragment
  | .leaf k fragment => if k = kind then [fragment] else []
  | .paren _ inner => Expression.leaves kind inner
  | .record _ fields => Field.leavesAll kind fields

/-- The tokens of one kind in a sequence, from left to right, those in parentheses and records among
them. -/
def Expression.leaves (kind : Leaf) : List Item → List Fragment
  | [] => []
  | item :: items => item.leaves kind ++ Expression.leaves kind items

def Field.leaves (kind : Leaf) : Field → List Fragment
  | ⟨_, value⟩ => Expression.leaves kind value

def Field.leavesAll (kind : Leaf) : List Field → List Fragment
  | [] => []
  | field :: fields => field.leaves kind ++ Field.leavesAll kind fields

end

namespace Expression

/-- The tokens that name variables. -/
def vars (e : Expression) : List Fragment := Expression.leaves .var e

/-- The text that a sequence begins with. -/
def firstText (e : Expression) : Text := (e.head?.bind Item.text?).getD []

end Expression

mutual

/-- The text that an item ends with. A parenthesis ends with what its inside ends with and the closing
parenthesis. -/
def Item.lastText : Item → Text
  | .leaf .text fragment => fragment.text
  | .paren _ inner => Expression.lastText inner ++ [')']
  | _ => []

/-- The text that a sequence ends with. -/
def Expression.lastText : List Item → Text
  | [] => []
  | [item] => item.lastText
  | _ :: items => Expression.lastText items

end

end Errata
