import Errata.Finding
import Errata.Rule
import Errata.Scope.Basic
import Errata.Text.Quoted

/-!
What a step does to the scope is a tree of actions, which does not depend on the scope. Running the
actions finds the names that are used without a declaration, declared twice, or never used.
-/

namespace Errata.Scope

/-- What was expected in the words that introduce a closure. -/
inductive ClosurePart where
  | parameterList
  | parameterName
  | comma
  | captureName
  | captureSeparator
deriving DecidableEq, Repr

inductive Problem where
  | useBeforeDeclaration (name : Text)
  | redeclaration (name : Text)
  | unusedDeclaration (name : Text)
  | unusedCapture (name : Text)
  | needlessAttribute (name : Text)
  | badClosure (expected : ClosurePart)
deriving DecidableEq, Repr

def ClosurePart.message : ClosurePart → String
  | parameterList => "expected to find a parenthesized list of parameter names here"
  | parameterName => "expected to find a parameter name here"
  | comma => "expected to find \", \" here"
  | captureName => "expected to find a capture name here"
  | captureSeparator => "expected to find \", \" or \" and \" here"

namespace Problem

def rule : Problem → Rule
  | useBeforeDeclaration _ => .useBeforeDeclaration
  | redeclaration _ => .redeclaration
  | unusedDeclaration _ => .unusedDeclaration
  | unusedCapture _ => .unusedCapture
  | needlessAttribute _ => .needlessAttribute
  | badClosure _ => .badClosure

def message : Problem → String
  | useBeforeDeclaration name => "could not find a preceding declaration for " ++ name.quoted
  | redeclaration name => name.quoted ++ " is already declared"
  | unusedDeclaration name => name.quoted ++ " is declared here, but never referred to"
  | unusedCapture name => "closure captures " ++ name.quoted ++ ", but never uses it"
  | needlessAttribute name =>
    name.quoted ++ " is already declared and does not need an explicit annotation"
  | badClosure expected => expected.message

end Problem

/-- A name that a closure has from its introduction. -/
inductive Binding where
  | parameter (name : Text) (offset : Nat)
  | capture (name : Text) (offset : Nat)
deriving DecidableEq, Repr

inductive Action where
  /-- An attribute says that the name is declared. -/
  | annotate (name : Text) (offset : Nat)
  | declare (name : Text) (kind : Kind) (offset : Nat) (shadow : Bool)
  | use (name : Text) (offset : Nat)
  /-- A level of steps. -/
  | level (body : List Action)
  /-- A loop. Its variable lasts until the body is done. -/
  | loop (name : Text) (offset : Nat) (body : List Action)
  /-- A closure, whose body has a scope of its own. -/
  | closure (bindings : List Binding) (body : List Action)
  /-- A closure that is not introduced well; its body does not count. -/
  | brokenClosure (bindings : List Binding) (expected : ClosurePart) (offset : Nat)

/-- Declares a name where it is written. -/
def declareAt (s : Scope) (name : Text) (kind : Kind) (offset : Nat) (shadow : Bool) :
    Scope × List (Finding Problem) :=
  match s.declare name kind (some offset) shadow with
  | (s, .conflict) => (s, [⟨.redeclaration name, offset⟩])
  | (s, _) => (s, [])

/-- Uses a name where it is written. -/
def useAt (s : Scope) (name : Text) (offset : Nat) : Scope × List (Finding Problem) :=
  if s.isDeclared name then (s.use name, [])
  else (s, [⟨.useBeforeDeclaration name, offset⟩])

/-- The complaint about an entry that was never used. Prose and the parameters of closures may name more
than is used. -/
def unusedProblem? (name : Text) : Kind → Option Problem
  | .parameter => none
  | .closureParameter => none
  | .capture => some (.unusedCapture name)
  | .ordinary => some (.unusedDeclaration name)
  | .loop => some (.unusedDeclaration name)
  | .annotated => some (.unusedDeclaration name)

/-- The complaints about the entries that were never used. -/
def reportUnused (s : Scope) : List (Finding Problem) :=
  s.unused.filterMap fun (name, declaration) => do
    let offset ← declaration.offset
    let problem ← unusedProblem? name declaration.kind
    return ⟨problem, offset⟩

/-- Gives a closure its names. A capture is a use in the scope around the closure. -/
def bind (s inner : Scope) : List Binding → Scope × Scope × List (Finding Problem)
  | [] => (s, inner, [])
  | .parameter name offset :: bindings =>
    let (inner, declared) := inner.declareAt name .closureParameter offset false
    let (s, inner, others) := bind s inner bindings
    (s, inner, declared ++ others)
  | .capture name offset :: bindings =>
    let (s, used) := s.useAt name offset
    let (inner, declared) := inner.declareAt name .capture offset false
    let (s, inner, others) := bind s inner bindings
    (s, inner, used ++ declared ++ others)

/-- Ends the loop that introduced a name. -/
def endLoop (s : Scope) (name : Text) : Scope × List (Finding Problem) :=
  match s.get? name with
  | none => (s, [])
  | some declaration =>
    let found := match declaration.offset with
      | some offset => if declaration.used then [] else [⟨.unusedDeclaration name, offset⟩]
      | none => []
    (s.remove name, found)

mutual

/-- Runs one action. -/
def run : Action → Scope → Scope × List (Finding Problem)
  | .annotate name offset, s =>
    if s.isDeclared name then (s, [⟨.needlessAttribute name, offset⟩])
    else s.declareAt name .annotated offset true
  | .declare name kind offset shadow, s => s.declareAt name kind offset shadow
  | .use name offset, s => s.useAt name offset
  | .level body, s =>
    let (s, found) := runAll body s.push
    (s.pop, found)
  | .loop name offset body, s =>
    let (begun, declared) := s.declareAt name .loop offset true
    let (done, found) := runAll body begun
    -- a loop over a name that was there before leaves it there
    if s.isDeclared name then (done, declared ++ found)
    else
      let (ended, unused) := done.endLoop name
      (ended, declared ++ found ++ unused)
  | .closure bindings body, s =>
    let (s, inner, bound) := bind s .empty bindings
    let (inner, found) := runAll body inner
    (s, bound ++ found ++ inner.reportUnused)
  | .brokenClosure bindings expected offset, s =>
    let (s, _, bound) := bind s .empty bindings
    (s, bound ++ [⟨.badClosure expected, offset⟩])

/-- Runs actions one after another. -/
def runAll : List Action → Scope → Scope × List (Finding Problem)
  | [], s => (s, [])
  | action :: actions, s =>
    let (s, found) := run action s
    let (s, others) := runAll actions s
    (s, found ++ others)

end

/-- All findings of an algorithm that does the given actions after some names have been mentioned. -/
def findings (seeds : List Text) (actions : List Action) : List (Finding Problem) :=
  let (s, found) := runAll actions (seeded seeds)
  found ++ s.reportUnused

end Errata.Scope
