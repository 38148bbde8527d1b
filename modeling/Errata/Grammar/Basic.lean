import Errata.Text.Cursor
import Errata.Text.Quoted

/-!
Grammar notation. A production gives a name right-hand sides, each a sequence of symbols. All positions
are positions in the text that the production was read from.
-/

namespace Errata.Grammar

inductive Operator where
  | plus
  | tilde
  | question
deriving DecidableEq, Repr

/-- An argument of a nonterminal or a condition of a guard, such as `+In`. -/
structure Argument where
  operator : Operator
  name : Text
deriving DecidableEq, Repr

inductive Restriction where
  | noLineTerminator
  | lookahead (text : Text)
  | prose (text : Text)
deriving DecidableEq, Repr

/-- What every symbol has: whether it may be left out, and where it stands. -/
structure Mark where
  optional : Bool
  offset : Nat
deriving DecidableEq, Repr

inductive Symbol where
  | terminal (mark : Mark) (text : Text)
  | nonterminal (mark : Mark) (name : Text) (arguments : Option (List Argument))
  | butNot (mark : Mark) (left right : Symbol)
  | oneOf (mark : Mark) (alternatives : List Symbol)
  | empty (mark : Mark)
  | restriction (mark : Mark) (kind : Restriction)

namespace Symbol

def mark : Symbol → Mark
  | .terminal mark _ => mark
  | .nonterminal mark .. => mark
  | .butNot mark .. => mark
  | .oneOf mark _ => mark
  | .empty mark => mark
  | .restriction mark _ => mark

def optional (s : Symbol) : Bool := s.mark.optional

def offset (s : Symbol) : Nat := s.mark.offset

end Symbol

/-- The conditions under which a right-hand side applies. -/
structure Guard where
  conditions : List Argument
  offset : Nat
deriving DecidableEq, Repr

structure RightHandSide where
  guard : Option Guard
  symbols : List Symbol
  offset : Nat

structure Parameter where
  name : Text
  offset : Nat
deriving DecidableEq, Repr

structure Production where
  name : Text
  offset : Nat
  /-- Number of the text that the production was read from. -/
  source : Nat
  parameters : List Parameter
  rightHandSides : List RightHandSide

/-- What a reader looked for and did not find. -/
inductive Expected where
  | production
  | parameterName
  | rightHandSide
  | symbol
  | symbolBeforeButNot
  | closingBackquote
  | closingBracket
  | argumentList
  | restriction
deriving DecidableEq, Repr

def Expected.description : Expected → String
  | production => "a production"
  | parameterName => "a parameter name"
  | rightHandSide => "a right-hand side"
  | symbol => "a symbol"
  | symbolBeforeButNot => "a symbol before 'but not'"
  | closingBackquote => "a closing '`'"
  | closingBracket => "a closing ']'"
  | argumentList => "an argument list"
  | restriction => "a restriction"

structure SyntaxError where
  offset : Nat
  expected : Expected
deriving DecidableEq, Repr

inductive Problem where
  | missing (expected : Expected)
  | unusedParameter (production parameter : Text)
  | duplicateProduction (name : Text)
deriving DecidableEq, Repr

namespace Problem

def code : Problem → String
  | missing _ => "syntax"
  | unusedParameter .. => "unused-parameter"
  | duplicateProduction _ => "duplicate-production"

def message : Problem → String
  | missing expected => "expected " ++ expected.description
  | unusedParameter _ parameter => "Parameter " ++ parameter.quoted ++ " is unused"
  | duplicateProduction name => "Production " ++ name.quoted ++ " is defined more than once"

end Problem

/-- A problem at a position of one of the texts read. -/
structure Diagnostic where
  source : Nat
  offset : Nat
  problem : Problem
deriving DecidableEq, Repr

/-- What was read from some texts of grammar. -/
structure Compilation where
  productions : List Production
  diagnostics : List Diagnostic

end Errata.Grammar
