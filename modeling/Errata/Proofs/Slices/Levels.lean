import Errata.Scope.Action

/-!
# Levels that may be missing

The levels of a scope are here a stack that could be empty, and a name is added to the level on top of it.
Where there is no level there is no result. A walk ends only the levels that it began, so a level is always
there, and the findings are the same.
-/

namespace Errata.Scope

/-! ## 1. Running actions -/

/-- Declared names with a stack of levels. -/
structure Levels where
  /-- The names declared strictly at each level, from the inside out. -/
  stack : List (List Text)
  entries : List (Text × Declaration)

namespace Levels

def start : Levels := ⟨[[]], []⟩

/-- The declared names without the levels. -/
def names (l : Levels) : Scope := ⟨[], [], l.entries⟩

def push (l : Levels) : Levels := { l with stack := [] :: l.stack }

def pop (l : Levels) : Levels := if 1 < l.stack.length then { l with stack := l.stack.tail } else l

/-- Adds a name to the current level, and says whether it is new there. -/
def insert? (l : Levels) (name : Text) : Option (Levels × Bool) := do
  let level ← l.stack.head?
  return if level.contains name then (l, false) else ({ l with stack := (name :: level) :: l.stack.tail }, true)

def declare? (l : Levels) (name : Text) (kind : Kind) (offset : Option Nat) (shadow : Bool) :
    Option (Levels × Declared) :=
  if l.names.isDeclared name then
    if shadow then some (l, .existing)
    else do
      let (l, isNew) ← l.insert? name
      return (l, if isNew then .existing else .conflict)
  else
    let l := { l with entries := l.entries ++ [(name, { kind, used := false, offset })] }
    if shadow then some (l, .new)
    else do
      let (l, _) ← l.insert? name
      return (l, .new)

def declareAt? (l : Levels) (name : Text) (kind : Kind) (offset : Nat) (shadow : Bool) :
    Option (Levels × List (Finding Problem)) := do
  match ← l.declare? name kind (some offset) shadow with
  | (l, .conflict) => return (l, [⟨.redeclaration name, offset⟩])
  | (l, _) => return (l, [])

def seeded? (names : List Text) : Option Levels :=
  names.foldlM (fun l name => (l.declare? name .parameter none true).map Prod.fst) start

def useAt (l : Levels) (name : Text) (offset : Nat) : Levels × List (Finding Problem) :=
  let (names, found) := l.names.useAt name offset
  ({ l with entries := names.entries }, found)

def endLoop (l : Levels) (name : Text) : Levels × List (Finding Problem) :=
  let (names, found) := l.names.endLoop name
  -- a name that is not there is not removed
  if l.names.isDeclared name then
    ({ stack := l.stack.map (·.filter (· ≠ name)), entries := names.entries }, found)
  else (l, found)

def bind? (l inner : Levels) : List Binding → Option (Levels × Levels × List (Finding Problem))
  | [] => some (l, inner, [])
  | .parameter name offset :: bindings => do
    let (inner, declared) ← inner.declareAt? name .closureParameter offset false
    let (l, inner, others) ← bind? l inner bindings
    return (l, inner, declared ++ others)
  | .capture name offset :: bindings => do
    let (l, used) := l.useAt name offset
    let (inner, declared) ← inner.declareAt? name .capture offset false
    let (l, inner, others) ← bind? l inner bindings
    return (l, inner, used ++ declared ++ others)

mutual

/-- Runs one action. -/
def run? : Action → Levels → Option (Levels × List (Finding Problem))
  | .annotate name offset, l =>
    if l.names.isDeclared name then some (l, [⟨.needlessAttribute name, offset⟩])
    else l.declareAt? name .annotated offset true
  | .declare name kind offset shadow, l => l.declareAt? name kind offset shadow
  | .use name offset, l => some (l.useAt name offset)
  | .level body, l => do
    let (l, found) ← runAll? body l.push
    return (l.pop, found)
  | .loop name offset body, l => do
    let (begun, declared) ← l.declareAt? name .loop offset true
    let (done, found) ← runAll? body begun
    if l.names.isDeclared name then return (done, declared ++ found)
    else
      let (ended, unused) := done.endLoop name
      return (ended, declared ++ found ++ unused)
  | .closure bindings body, l => do
    let (l, inner, bound) ← bind? l start bindings
    let (inner, found) ← runAll? body inner
    return (l, bound ++ found ++ inner.names.reportUnused)
  | .brokenClosure bindings expected offset, l => do
    let (l, _, bound) ← bind? l start bindings
    return (l, bound ++ [⟨.badClosure expected, offset⟩])

/-- Runs actions one after another. -/
def runAll? : List Action → Levels → Option (Levels × List (Finding Problem))
  | [], l => some (l, [])
  | action :: actions, l => do
    let (l, found) ← run? action l
    let (l, others) ← runAll? actions l
    return (l, found ++ others)

end

end Levels

/-- All findings of an algorithm that does the given actions after some names have been mentioned. -/
def findings? (seeds : List Text) (actions : List Action) : Option (List (Finding Problem)) := do
  let l ← Levels.seeded? seeds
  let (l, found) ← Levels.runAll? actions l
  return found ++ l.names.reportUnused

/-! ## 2. There is always a level -/

/-- The scope with its levels on a stack. -/
def levels (s : Scope) : Levels := ⟨s.level :: s.outer, s.entries⟩

namespace Levels

variable (s : Scope)

theorem isDeclared_names (name : Text) : s.levels.names.isDeclared name = s.isDeclared name := rfl

theorem levels_push : s.push.levels = s.levels.push := rfl

theorem levels_pop : s.pop.levels = s.levels.pop := by
  obtain ⟨level, outer, entries⟩ := s
  cases outer <;> rfl

/-- The current level is there, and a name that it holds is not added again. -/
theorem insert?_levels (name : Text) :
    s.levels.insert? name =
      some ({ s with level := if s.level.contains name then s.level else name :: s.level }.levels,
        !s.level.contains name) := by
  unfold insert?
  show some (if s.level.contains name then _ else _) = _
  cases s.level.contains name <;> rfl

theorem declare?_levels (name : Text) (kind : Kind) (offset : Option Nat) (shadow : Bool) :
    s.levels.declare? name kind offset shadow =
      some ((s.declare name kind offset shadow).1.levels, (s.declare name kind offset shadow).2) := by
  unfold declare? declare
  rw [isDeclared_names, insert?_levels]
  cases s.isDeclared name with
  | true => cases shadow <;> cases s.level.contains name <;> rfl
  | false =>
    -- a new name goes into the table first and then to the current level
    let added : Scope := { s with entries := s.entries ++ [(name, { kind, used := false, offset })] }
    cases shadow with
    | true => rfl
    | false =>
      show (added.levels.insert? name >>= fun found => some (found.1, Declared.new)) = _
      rw [insert?_levels added]
      cases s.level.contains name <;> rfl

theorem declareAt?_levels (name : Text) (kind : Kind) (offset : Nat) (shadow : Bool) :
    s.levels.declareAt? name kind offset shadow =
      some ((s.declareAt name kind offset shadow).1.levels, (s.declareAt name kind offset shadow).2) := by
  unfold declareAt? declareAt
  rw [declare?_levels]
  obtain ⟨next, declared⟩ := s.declare name kind (some offset) shadow
  cases declared <;> rfl

theorem seeded?_eq (names : List Text) : seeded? names = some (seeded names).levels := by
  suffices h : ∀ s : Scope,
      names.foldlM (fun l name => (l.declare? name .parameter none true).map Prod.fst) s.levels =
        some (names.foldl (fun s name => (s.declare name .parameter none true).1) s).levels from
    h .empty
  induction names with
  | nil => exact fun s => rfl
  | cons name names ih =>
    intro s
    rw [List.foldlM_cons, declare?_levels]
    exact ih _

theorem useAt_levels (name : Text) (offset : Nat) :
    s.levels.useAt name offset = ((s.useAt name offset).1.levels, (s.useAt name offset).2) := by
  unfold useAt Scope.useAt
  rw [isDeclared_names]
  cases s.isDeclared name <;> rfl

theorem endLoop_levels (name : Text) :
    s.levels.endLoop name = ((s.endLoop name).1.levels, (s.endLoop name).2) := by
  unfold endLoop Scope.endLoop
  rw [isDeclared_names, isDeclared, show s.levels.names.get? name = s.get? name from rfl]
  cases s.get? name <;> rfl

theorem bind?_levels (inner : Scope) (bindings : List Binding) :
    bind? s.levels inner.levels bindings =
      some ((bind s inner bindings).1.levels, (bind s inner bindings).2.1.levels, (bind s inner bindings).2.2) := by
  induction bindings generalizing s inner with
  | nil => rfl
  | cons binding bindings ih =>
    cases binding with
    | parameter name offset =>
      rw [bind?, declareAt?_levels]
      simp only [Option.bind_eq_bind, Option.bind_some, ih]
      rfl
    | capture name offset =>
      rw [bind?, useAt_levels, declareAt?_levels]
      simp only [Option.bind_eq_bind, Option.bind_some, ih]
      rfl

mutual

theorem run?_levels : ∀ (action : Action) (s : Scope),
    run? action s.levels = some ((run action s).1.levels, (run action s).2)
  | .annotate name offset, s => by
    rw [run?, run, isDeclared_names]
    split
    · rfl
    · exact declareAt?_levels s name .annotated offset true
  | .declare name kind offset shadow, s => declareAt?_levels s name kind offset shadow
  | .use name offset, s => congrArg some (useAt_levels s name offset)
  | .level body, s => by
    rw [run?, ← levels_push, runAll?_levels body s.push]
    simp only [Option.bind_eq_bind, Option.bind_some, ← levels_pop]
    rfl
  | .loop name offset body, s => by
    rw [run?, run, declareAt?_levels]
    simp only [Option.bind_eq_bind, Option.bind_some, runAll?_levels body, isDeclared_names, endLoop_levels]
    split
    · rfl
    · rfl
  | .closure bindings body, s => by
    rw [run?, show start = Scope.empty.levels from rfl, bind?_levels]
    simp only [Option.bind_eq_bind, Option.bind_some, runAll?_levels body]
    rfl
  | .brokenClosure bindings expected offset, s => by
    rw [run?, show start = Scope.empty.levels from rfl, bind?_levels]
    rfl

theorem runAll?_levels : ∀ (actions : List Action) (s : Scope),
    runAll? actions s.levels = some ((runAll actions s).1.levels, (runAll actions s).2)
  | [], s => rfl
  | action :: actions, s => by
    rw [runAll?, run?_levels action s]
    simp only [Option.bind_eq_bind, Option.bind_some, runAll?_levels actions]
    rfl

end

end Levels

/-- A walk never lacks a level. -/
theorem findings?_eq (seeds : List Text) (actions : List Action) :
    findings? seeds actions = some (findings seeds actions) := by
  rw [findings?, Levels.seeded?_eq]
  simp only [Option.bind_eq_bind, Option.bind_some, Levels.runAll?_levels]
  rfl

end Errata.Scope
