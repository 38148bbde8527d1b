import Errata.Proofs.Scope.Levels

/-!
# The moments of a run

A run annotates, declares and uses names, one after another. Each time is a moment of the run, with the scope
as it is by then. Moments in the body of a closure are moments in another scope.
-/

namespace Errata.Scope

/-! ## 1. Moments -/

/-- What is done to one name. -/
inductive Event where
  | annotate (name : Text) (offset : Nat)
  | declare (name : Text) (kind : Kind) (offset : Nat) (shadow : Bool)
  | use (name : Text) (offset : Nat)
deriving DecidableEq

def Event.action : Event → Action
  | annotate name offset => .annotate name offset
  | declare name kind offset shadow => .declare name kind offset shadow
  | use name offset => .use name offset

structure Moment where
  event : Event
  /-- The scope in which this is done, just before. -/
  scope : Scope
  /-- The number of closures around it that the run has come to. Without any it is in the scope of the run. -/
  depth : Nat

namespace Moment

/-- What is found at a moment. -/
def report (m : Moment) : List (Finding Problem) := (run m.event.action m.scope).2

/-- A moment of a closure's body as a moment of the run that comes to the closure. -/
def deeper (m : Moment) : Moment := { m with depth := m.depth + 1 }

/-- Whether the name is declared in the scope of the run. -/
def declares (m : Moment) (name : Text) : Bool :=
  m.depth == 0 && match m.event with
    | .annotate n _ => n == name
    | .declare n _ _ _ => n == name
    | .use _ _ => false

end Moment

/-- The moments in which a closure gets its names. Its parameters and captures are declared in its own scope. -/
def boundMoments (s inner : Scope) : List Binding → List Moment
  | [] => []
  | .parameter name offset :: bindings =>
    ⟨.declare name .closureParameter offset false, inner, 1⟩ ::
      boundMoments s (inner.declareAt name .closureParameter offset false).1 bindings
  | .capture name offset :: bindings =>
    ⟨.use name offset, s, 0⟩ :: ⟨.declare name .capture offset false, inner, 1⟩ ::
      boundMoments (s.useAt name offset).1 (inner.declareAt name .capture offset false).1 bindings

mutual

/-- The moments of one action in the order of time. -/
def moments : Action → Scope → List Moment
  | .annotate name offset, s => [⟨.annotate name offset, s, 0⟩]
  | .declare name kind offset shadow, s => [⟨.declare name kind offset shadow, s, 0⟩]
  | .use name offset, s => [⟨.use name offset, s, 0⟩]
  | .level body, s => momentsAll body s.push
  | .loop name offset body, s =>
    ⟨.declare name .loop offset true, s, 0⟩ ::
      momentsAll body (s.declareAt name .loop offset true).1
  | .closure bindings body, s =>
    boundMoments s .empty bindings ++
      (momentsAll body (bind s .empty bindings).2.1).map Moment.deeper
  | .brokenClosure bindings _ _, s => boundMoments s .empty bindings

def momentsAll : List Action → Scope → List Moment
  | [], _ => []
  | action :: actions, s => moments action s ++ momentsAll actions (run action s).1

end

theorem runAll_cons (action : Action) (actions : List Action) (s : Scope) :
    runAll (action :: actions) s =
      ((runAll actions (run action s).1).1, (run action s).2 ++ (runAll actions (run action s).1).2) :=
  rfl

theorem runAll_singleton (action : Action) (s : Scope) : runAll [action] s = run action s := by
  rw [runAll_cons]
  exact Prod.ext rfl (List.append_nil _)

theorem runAll_append (first second : List Action) (s : Scope) :
    runAll (first ++ second) s =
      ((runAll second (runAll first s).1).1,
        (runAll first s).2 ++ (runAll second (runAll first s).1).2) := by
  induction first generalizing s with
  | nil => rfl
  | cons action actions ih => rw [List.cons_append, runAll_cons, ih, runAll_cons, List.append_assoc]

theorem momentsAll_append (first second : List Action) (s : Scope) :
    momentsAll (first ++ second) s = momentsAll first s ++ momentsAll second (runAll first s).1 := by
  induction first generalizing s with
  | nil => rfl
  | cons action actions ih =>
    rw [List.cons_append, momentsAll, momentsAll, ih, List.append_assoc]
    rfl

theorem filter_runAll_eq_nil {p : Finding Problem → Bool} {actions : List Action}
    (h : ∀ a ∈ actions, ∀ s, (run a s).2.filter p = []) (s : Scope) :
    (runAll actions s).2.filter p = [] := by
  induction actions generalizing s with
  | nil => rfl
  | cons action actions ih =>
    obtain ⟨haction, hactions⟩ := List.forall_mem_cons.mp h
    rw [runAll_cons, List.filter_append, haction s, ih hactions]
    rfl

theorem eq_annotate_of_mem_annotations {offset : Nat} {pieces : List Text} {a : Action}
    (h : a ∈ annotations offset pieces) : ∃ name place, a = .annotate name place := by
  induction pieces generalizing offset with
  | nil => exact absurd h List.not_mem_nil
  | cons piece pieces ih =>
    rw [annotations] at h
    split at h
    · exact ih h
    · rcases List.mem_cons.mp h with rfl | h
      · exact ⟨_, _, rfl⟩
      · exact ih h

theorem eq_annotate_of_mem_attributeActions {step : Step} {a : Action} (h : a ∈ attributeActions step) :
    ∃ name place, a = .annotate name place := by
  unfold attributeActions at h
  split at h
  · exact absurd h List.not_mem_nil
  · exact eq_annotate_of_mem_annotations h

/-! ## 2. What is found -/

/-- Whether a finding is about the very moment in which it is made. The others are made when a loop, a closure
or the algorithm ends, or where a closure is not introduced well. -/
def isImmediate (f : Finding Problem) : Bool :=
  match f.problem with
  | .useBeforeDeclaration _ => true
  | .redeclaration _ => true
  | .needlessAttribute _ => true
  | _ => false

/-- Whether a finding says that a name is declared twice. -/
def isRedeclaration (f : Finding Problem) : Bool :=
  match f.problem with
  | .redeclaration _ => true
  | _ => false

theorem filter_declareAt_immediate (s : Scope) (name : Text) (kind : Kind) (offset : Nat)
    (shadow : Bool) :
    (s.declareAt name kind offset shadow).2.filter isImmediate =
      (s.declareAt name kind offset shadow).2 := by
  unfold declareAt
  split
  · rfl
  · rfl

theorem filter_useAt_immediate (s : Scope) (name : Text) (offset : Nat) :
    (s.useAt name offset).2.filter isImmediate = (s.useAt name offset).2 := by
  unfold useAt
  split
  · rfl
  · rfl

theorem flatMap_boundMoments (s inner : Scope) (bindings : List Binding) :
    (boundMoments s inner bindings).flatMap Moment.report = (bind s inner bindings).2.2 := by
  induction bindings generalizing s inner with
  | nil => rfl
  | cons binding bindings ih =>
    cases binding with
    | parameter name offset => rw [boundMoments, List.flatMap_cons, ih]; rfl
    | capture name offset =>
      rw [boundMoments, List.flatMap_cons, List.flatMap_cons, ih, ← List.append_assoc]
      rfl

theorem filter_bind_immediate (s inner : Scope) (bindings : List Binding) :
    (bind s inner bindings).2.2.filter isImmediate = (bind s inner bindings).2.2 := by
  induction bindings generalizing s inner with
  | nil => rfl
  | cons binding bindings ih =>
    cases binding with
    | parameter name offset =>
      rw [bind, List.filter_append, filter_declareAt_immediate, ih]
    | capture name offset =>
      rw [bind, List.filter_append, List.filter_append, filter_useAt_immediate,
        filter_declareAt_immediate, ih]

/-- Findings that are all of one kind have none of another. -/
theorem filter_eq_nil_of_filter_eq_self {p q : Finding Problem → Bool} {found : List (Finding Problem)}
    (hp : found.filter p = found) (h : ∀ f, p f = true → q f = false) : found.filter q = [] := by
  rw [List.filter_eq_nil_iff]
  intro f hf
  rw [h f (List.filter_eq_self.mp hp f hf)]
  exact Bool.false_ne_true

theorem not_isImmediate_of_isUnused (f : Finding Problem) (h : isUnused f = true) :
    isImmediate f = false := by
  unfold isUnused at h
  unfold isImmediate
  split at h <;> simp_all

theorem filter_endLoop_immediate (s : Scope) (name : Text) :
    (s.endLoop name).2.filter isImmediate = [] := by
  unfold endLoop
  split
  · rfl
  · rename_i d _
    dsimp only
    split
    · split
      · rfl
      · rfl
    · rfl

theorem flatMap_deeper (ms : List Moment) :
    (ms.map Moment.deeper).flatMap Moment.report = ms.flatMap Moment.report := by
  rw [List.flatMap_map]
  rfl

mutual

/-- What is found on the way is what is found at the moments. -/
theorem flatMap_moments : ∀ (action : Action) (s : Scope),
    (moments action s).flatMap Moment.report = (run action s).2.filter isImmediate
  | .annotate name offset, s => by
    rw [moments, List.flatMap_singleton, Moment.report, Event.action, run]
    split
    · rfl
    · rw [filter_declareAt_immediate]
  | .declare name kind offset shadow, s => by
    rw [moments, List.flatMap_singleton, run, filter_declareAt_immediate]
    rfl
  | .use name offset, s => by
    rw [moments, List.flatMap_singleton, run, filter_useAt_immediate]
    rfl
  | .level body, s => flatMap_momentsAll body s.push
  | .loop name offset body, s => by
    rw [moments, List.flatMap_cons, flatMap_momentsAll, run]
    dsimp only
    split
    · rw [List.filter_append, filter_declareAt_immediate]
      rfl
    · -- what the end of a loop complains about is not a matter of one moment
      rw [List.filter_append, List.filter_append, filter_declareAt_immediate,
        filter_endLoop_immediate, List.append_nil]
      rfl
  | .closure bindings body, s => by
    rw [moments, List.flatMap_append, flatMap_boundMoments, flatMap_deeper, flatMap_momentsAll, run,
      List.filter_append, List.filter_append, filter_bind_immediate,
      filter_eq_nil_of_filter_eq_self (filter_reportUnused _) not_isImmediate_of_isUnused, List.append_nil]
  | .brokenClosure bindings expected offset, s => by
    rw [moments, flatMap_boundMoments, run, List.filter_append, filter_bind_immediate]
    exact (List.append_nil _).symm

theorem flatMap_momentsAll : ∀ (actions : List Action) (s : Scope),
    (momentsAll actions s).flatMap Moment.report = (runAll actions s).2.filter isImmediate
  | [], _ => rfl
  | action :: actions, s => by
    rw [momentsAll, List.flatMap_append, flatMap_moments, flatMap_momentsAll, runAll,
      List.filter_append]

end

/-! ## 3. What is declared -/

theorem extends_boundMoments {s inner : Scope} {bindings : List Binding} {m : Moment}
    (hm : m ∈ boundMoments s inner bindings) (hdepth : m.depth = 0) : Extends s m.scope := by
  induction bindings generalizing s inner with
  | nil => exact absurd hm List.not_mem_nil
  | cons binding bindings ih =>
    cases binding with
    | parameter name offset =>
      rcases List.mem_cons.mp hm with rfl | hm
      · exact absurd hdepth Nat.one_ne_zero
      · exact ih hm
    | capture name offset =>
      rcases List.mem_cons.mp hm with rfl | hm
      · exact .refl s
      · rcases List.mem_cons.mp hm with rfl | hm
        · exact absurd hdepth Nat.one_ne_zero
        · exact (kept_useAt s name offset).entries.trans (ih hm)

theorem depth_ne_zero_of_deeper {ms : List Moment} {m : Moment} (h : m ∈ ms.map Moment.deeper) :
    m.depth ≠ 0 := by
  obtain ⟨inner, -, rfl⟩ := List.mem_map.mp h
  exact Nat.succ_ne_zero _

mutual

/-- A run has the entries it began with at all of its moments. A loop that ends on the way takes back only
what it has introduced. -/
theorem extends_moments : ∀ (action : Action) {s : Scope} {m : Moment},
    m ∈ moments action s → m.depth = 0 → Extends s m.scope
  | .annotate name offset, s, m, hm, _ => by
    rw [List.mem_singleton.mp hm]
    exact .refl s
  | .declare name kind offset shadow, s, m, hm, _ => by
    rw [List.mem_singleton.mp hm]
    exact .refl s
  | .use name offset, s, m, hm, _ => by
    rw [List.mem_singleton.mp hm]
    exact .refl s
  | .level body, s, m, hm, hdepth =>
    (Extends.of_entries_eq s.entries_push).trans (extends_momentsAll body hm hdepth)
  | .loop name offset body, s, m, hm, hdepth => by
    rcases List.mem_cons.mp hm with rfl | hm
    · exact .refl s
    · exact (kept_declareAt s name .loop offset true).entries.trans
        (extends_momentsAll body hm hdepth)
  | .closure bindings body, s, m, hm, hdepth => by
    rcases List.mem_append.mp hm with hm | hm
    · exact extends_boundMoments hm hdepth
    · exact absurd hdepth (depth_ne_zero_of_deeper hm)
  | .brokenClosure bindings expected offset, s, m, hm, hdepth => extends_boundMoments hm hdepth

theorem extends_momentsAll : ∀ (actions : List Action) {s : Scope} {m : Moment},
    m ∈ momentsAll actions s → m.depth = 0 → Extends s m.scope
  | [], _, _, hm, _ => absurd hm List.not_mem_nil
  | action :: actions, s, m, hm, hdepth => by
    rcases List.mem_append.mp hm with hm | hm
    · exact extends_moments action hm hdepth
    · exact (kept_run action s).entries.trans (extends_momentsAll actions hm hdepth)

end

/-! ## 4. What is not declared yet -/

/-- The name is declared at no moment up to and including the first one that declares it. -/
def Awaits (name : Text) : List Moment → Prop
  | [] => True
  | m :: ms => (m.depth = 0 → m.scope.isDeclared name = false) ∧
      (m.declares name = false → Awaits name ms)

namespace Awaits

variable {name : Text}

theorem append {first second : List Moment} (h : Awaits name first)
    (h' : (∀ m ∈ first, m.declares name = false) → Awaits name second) :
    Awaits name (first ++ second) := by
  induction first with
  | nil => exact h' (List.forall_mem_nil _)
  | cons m ms ih =>
    refine ⟨h.1, fun hm => ih (h.2 hm) fun hms => h' ?_⟩
    exact List.forall_mem_cons.mpr ⟨hm, hms⟩

theorem of_depth {ms : List Moment} (h : ∀ m ∈ ms, m.depth ≠ 0) : Awaits name ms := by
  induction ms with
  | nil => exact trivial
  | cons m ms ih =>
    obtain ⟨hm, hms⟩ := List.forall_mem_cons.mp h
    exact ⟨fun hdepth => absurd hdepth hm, fun _ => ih hms⟩

theorem not_isDeclared {before after : List Moment} {m : Moment}
    (h : Awaits name (before ++ m :: after)) (hbefore : ∀ m' ∈ before, m'.declares name = false)
    (hdepth : m.depth = 0) : m.scope.isDeclared name = false := by
  induction before with
  | nil => exact h.1 hdepth
  | cons m' ms ih =>
    obtain ⟨hm, hms⟩ := List.forall_mem_cons.mp hbefore
    exact ih (h.2 hm) hms

end Awaits

theorem get?_declare_of_ne {s : Scope} {name other : Text} (h : name ≠ other) (kind : Kind)
    (offset : Option Nat) (shadow : Bool) :
    (s.declare other kind offset shadow).1.get? name = s.get? name := by
  rcases s.declare_cases other kind offset shadow with ⟨-, -, hentries⟩ | ⟨-, -, hentries⟩
  · rw [get?, hentries, List.lookup_append, List.lookup_cons, beq_eq_false_iff_ne.mpr h]
    exact Option.or_none
  · rw [get?, hentries]
    rfl

theorem isDeclared_declareAt_self (s : Scope) (name : Text) (kind : Kind) (offset : Nat)
    (shadow : Bool) : (s.declareAt name kind offset shadow).1.isDeclared name = true := by
  rw [declareAt_fst]
  exact isDeclared_declare_self s name kind (some offset) shadow

theorem isDeclared_declareAt_of_ne {s : Scope} {name other : Text} (h : name ≠ other) (kind : Kind)
    (offset : Nat) (shadow : Bool) :
    (s.declareAt other kind offset shadow).1.isDeclared name = s.isDeclared name := by
  rw [declareAt_fst, isDeclared, get?_declare_of_ne h]
  rfl

theorem isDeclared_use (s : Scope) (used name : Text) :
    (s.use used).isDeclared name = s.isDeclared name := by
  rw [isDeclared, get?_use, Option.isSome_map]
  rfl

theorem isDeclared_useAt (s : Scope) (used : Text) (offset : Nat) (name : Text) :
    (s.useAt used offset).1.isDeclared name = s.isDeclared name := by
  unfold useAt
  split
  · exact isDeclared_use s used name
  · rfl

theorem isDeclared_bind (s inner : Scope) (bindings : List Binding) (name : Text) :
    (bind s inner bindings).1.isDeclared name = s.isDeclared name := by
  induction bindings generalizing s inner with
  | nil => rfl
  | cons binding bindings ih =>
    cases binding with
    | parameter other offset => exact ih s _
    | capture other offset => exact (ih _ _).trans (isDeclared_useAt s other offset name)

theorem not_isDeclared_endLoop {s : Scope} {name : Text} (hname : s.isDeclared name = false)
    (other : Text) : (s.endLoop other).1.isDeclared name = false := by
  unfold endLoop
  split
  · exact hname
  · rw [not_isDeclared_iff] at hname ⊢
    exact fun h => hname ((List.filter_sublist.map Prod.fst).subset h)

theorem awaits_boundMoments {s : Scope} {name : Text} (hname : s.isDeclared name = false)
    (inner : Scope) (bindings : List Binding) : Awaits name (boundMoments s inner bindings) := by
  induction bindings generalizing s inner with
  | nil => exact trivial
  | cons binding bindings ih =>
    cases binding with
    | parameter other offset => exact ⟨fun h => absurd h Nat.one_ne_zero, fun _ => ih hname _⟩
    | capture other offset =>
      have hused := (isDeclared_useAt s other offset name).trans hname
      exact ⟨fun _ => hname, fun _ => ⟨fun h => absurd h Nat.one_ne_zero, fun _ => ih hused _⟩⟩

theorem ne_of_declares_eq_false {name other : Text} (h : (other == name) = false) : name ≠ other :=
  Ne.symm (beq_eq_false_iff_ne.mp h)

mutual

/-- A name that is not declared when a run begins is declared only by a moment of the run. -/
theorem awaits_moments : ∀ (action : Action) {s : Scope} {name : Text}, s.isDeclared name = false →
    Awaits name (moments action s) ∧
      ((∀ m ∈ moments action s, m.declares name = false) → (run action s).1.isDeclared name = false)
  | .annotate other offset, s, name, hname => by
    refine ⟨⟨fun _ => hname, fun _ => trivial⟩, fun h => ?_⟩
    have hne := ne_of_declares_eq_false (h _ List.mem_cons_self)
    rw [run]
    split
    · exact hname
    · rw [isDeclared_declareAt_of_ne hne, hname]
  | .declare other kind offset shadow, s, name, hname => by
    refine ⟨⟨fun _ => hname, fun _ => trivial⟩, fun h => ?_⟩
    have hne := ne_of_declares_eq_false (h _ List.mem_cons_self)
    rw [run, isDeclared_declareAt_of_ne hne, hname]
  | .use other offset, s, name, hname =>
    ⟨⟨fun _ => hname, fun _ => trivial⟩, fun _ => (isDeclared_useAt s other offset name).trans hname⟩
  | .level body, s, name, hname => by
    have hbody := awaits_momentsAll body (s := s.push) hname
    refine ⟨hbody.1, fun h => ?_⟩
    have hdone := hbody.2 h
    rw [run, isDeclared, get?, entries_pop]
    exact hdone
  | .loop other offset body, s, name, hname => by
    have hbegun : other ≠ name → (s.declareAt other .loop offset true).1.isDeclared name = false := by
      intro hne
      rw [isDeclared_declareAt_of_ne hne.symm, hname]
    -- a loop over the name itself declares it at the first moment, and then there is nothing to show
    refine ⟨⟨fun _ => hname, fun h => ?_⟩, fun h => ?_⟩
    · exact (awaits_momentsAll body (hbegun (ne_of_declares_eq_false h).symm)).1
    · obtain ⟨hfirst, hbody⟩ := List.forall_mem_cons.mp h
      have hne := ne_of_declares_eq_false hfirst
      have hdone := (awaits_momentsAll body (hbegun hne.symm)).2 hbody
      rw [run]
      dsimp only
      split
      · exact hdone
      · exact not_isDeclared_endLoop hdone other
  | .closure bindings body, s, name, hname => by
    refine ⟨(awaits_boundMoments hname .empty bindings).append fun _ => ?_, fun _ => ?_⟩
    · -- the body is about another scope
      exact .of_depth fun m hm => depth_ne_zero_of_deeper hm
    · exact (isDeclared_bind s .empty bindings name).trans hname
  | .brokenClosure bindings expected offset, s, name, hname =>
    ⟨awaits_boundMoments hname .empty bindings,
      fun _ => (isDeclared_bind s .empty bindings name).trans hname⟩

theorem awaits_momentsAll : ∀ (actions : List Action) {s : Scope} {name : Text},
    s.isDeclared name = false →
    Awaits name (momentsAll actions s) ∧
      ((∀ m ∈ momentsAll actions s, m.declares name = false) →
        (runAll actions s).1.isDeclared name = false)
  | [], _, _, hname => ⟨trivial, fun _ => hname⟩
  | action :: actions, s, name, hname => by
    have hfirst := awaits_moments action hname
    refine ⟨hfirst.1.append fun h => (awaits_momentsAll actions (hfirst.2 h)).1, fun h => ?_⟩
    obtain ⟨hhere, hothers⟩ := List.forall_mem_append.mp h
    exact (awaits_momentsAll actions (hfirst.2 hhere)).2 hothers

end

end Errata.Scope
