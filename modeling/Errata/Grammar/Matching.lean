import Errata.Grammar.Basic

/-!
When the symbols of a fragment fit the symbols of a definition. The definition may have optional symbols
and restrictions that the fragment leaves out.
-/

namespace Errata.Grammar

/-- A fragment marks nothing as optional that is not so in the definition. -/
def Mark.fits (m n : Mark) : Bool := !m.optional || n.optional

namespace Restriction

/-- Whether two restrictions are of one kind; what they say does not count. -/
def sameKind : Restriction → Restriction → Bool
  | .noLineTerminator, .noLineTerminator => true
  | .lookahead _, .lookahead _ => true
  | .prose _, .prose _ => true
  | _, _ => false

end Restriction

mutual

/-- Whether a symbol of a fragment fits a symbol of a definition. Arguments count only if the fragment
gives them. -/
def Symbol.fits : Symbol → Symbol → Bool
  | .terminal m a, .terminal n b => m.fits n && a = b
  | .nonterminal m a given, .nonterminal n b expected =>
    m.fits n && a = b && (given.isNone || given = expected)
  | .butNot m left right, .butNot n otherLeft otherRight =>
    m.fits n && left.fits otherLeft && right.fits otherRight
  | .oneOf m as, .oneOf n bs => m.fits n && Symbol.eachFits as bs
  | .empty m, .empty n => m.fits n
  | .restriction m a, .restriction n b => m.fits n && a.sameKind b
  | _, _ => false

/-- Whether two lists are of one length and the symbols at the same places fit. -/
def Symbol.eachFits : List Symbol → List Symbol → Bool
  | [], [] => true
  | a :: as, b :: bs => a.fits b && Symbol.eachFits as bs
  | _, _ => false

end

/-- Whether a fragment may leave out the symbol of a definition. -/
def Symbol.skippable : Symbol → Bool
  | .restriction .. => true
  | s => s.optional

/-- Whether a sequence of symbols of a fragment fits one of a definition. -/
def sequenceFits : List Symbol → List Symbol → Bool
  | [], definition => definition.all Symbol.skippable
  | _ :: _, [] => false
  | s :: fragment, d :: definition =>
    (s.fits d && sequenceFits fragment definition) ||
      (d.skippable && sequenceFits (s :: fragment) definition)

end Errata.Grammar
