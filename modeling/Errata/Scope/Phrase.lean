import Errata.Text.Scan

/-!
Phrases of English that declare the variable after them.
-/

namespace Errata.Scope

def existentialPhrases : List String :=
  ["for any", "for some", "there exists", "there is", "there does not exist"]

def articles : List String := [" a", " an", " some", " any"]

def isNounChar (c : Char) : Bool := Text.isWord c || c == '-'

/-- A space, or a word with a space before and after it. -/
def isNounPhrase : Text → Bool
  | [' '] => true
  | ' ' :: t =>
    t.getLast? = some ' ' && !t.dropLast.isEmpty && t.dropLast.all isNounChar
  | _ => false

/-- What may follow an existential phrase: maybe an article, maybe a noun, and a space. -/
def isQuantified (t : Text) : Bool :=
  isNounPhrase t ||
    articles.any fun article => t.startsWith article && isNounPhrase (t.drop article.toList.length)

/-- Whether a text whose last character was `previous` ends with a phrase such as
`there exists an integer`. -/
def endsExistentially (previous : Option Char) : Text → Bool
  | [] => false
  | c :: t =>
    (Text.isBoundary previous (some c) &&
        existentialPhrases.any fun phrase =>
          Text.startsWith (c :: t) phrase &&
            isQuantified ((c :: t).drop phrase.toList.length)) ||
      endsExistentially (some c) t

/-- Whether the text before a variable says that something exists. -/
def isExistential (t : Text) : Bool := endsExistentially none t

/-- Whether a text ends with the given words, and these begin a word. -/
def endsWithWords (t : Text) (words : String) : Bool :=
  match t.beforeEnding? words with
  | none => false
  | some before => !before.getLast?.any Text.isWord

/-- Whether the text before a variable is about to give it a value. -/
def isLet (t : Text) : Bool :=
  ["let ", "Let ", "let each of ", "Let each of "].any (endsWithWords t)

def isSeparator (t : Text) : Bool :=
  [", ", ", and ", " and "].any fun s => t = s.toList

/-- Whether a step introduces the steps of a closure. -/
def introducesClosure (last : Text) : Bool :=
  last.endsWith " performs the following steps when called:" ||
    last.endsWith " performs the following steps atomically when called:"

def conditionalScan : Scan :=
  .seq [.first [.literal "If", .literal "Else", .literal "Otherwise"], .notBefore Text.isWord]

end Errata.Scope
