import Errata.Expression.Reader
import Errata.Proofs.Scope.Lifetime

/-!
# The levels of a scope

Every name that is kept at some level has an entry. So the variable of a loop, which is removed from all
levels when the loop ends, was at none of them when the loop began, and a walk leaves the levels around the
current one as they were.
-/

namespace Errata.Scope

/-! ## 1. Scopes that a walk can come to -/

/-- The levels from the current one outwards. -/
def stack (s : Scope) : List (List Text) := s.level :: s.outer

/-- The scopes that the operations make of a new one or of one with names from prose. -/
inductive Reachable : Scope → Prop
  | empty : Reachable .empty
  | seeded (names : List Text) : Reachable (seeded names)
  | push {s : Scope} (h : Reachable s) : Reachable s.push
  | pop {s : Scope} (h : Reachable s) : Reachable s.pop
  | declare {s : Scope} (h : Reachable s) (name : Text) (kind : Kind) (offset : Option Nat)
      (shadow : Bool) : Reachable (s.declare name kind offset shadow).1
  | use {s : Scope} (h : Reachable s) (name : Text) : Reachable (s.use name)
  | remove {s : Scope} (h : Reachable s) (name : Text) : Reachable (s.remove name)

/-- Names that are kept at a level have entries. -/
def IsStrict (s : Scope) : Prop := ∀ level ∈ s.stack, ∀ name ∈ level, s.isDeclared name = true

theorem isDeclared_declare_self (s : Scope) (name : Text) (kind : Kind) (offset : Option Nat)
    (shadow : Bool) : (s.declare name kind offset shadow).1.isDeclared name = true := by
  rcases s.declare_cases name kind offset shadow with ⟨-, -, h⟩ | ⟨hold, -, h⟩
  · rw [isDeclared_iff, names, h, List.map_append]
    exact List.mem_append_right _ List.mem_cons_self
  · rw [isDeclared, get?, h]
    exact hold

theorem outer_declare (s : Scope) (name : Text) (kind : Kind) (offset : Option Nat) (shadow : Bool) :
    (s.declare name kind offset shadow).1.outer = s.outer := by
  unfold declare
  dsimp only
  split
  · split
    · rfl
    · rfl
  · rfl

/-- A declaration adds at most its own name to the current level, and none if it shadows. -/
theorem level_declare (s : Scope) (name : Text) (kind : Kind) (offset : Option Nat) (shadow : Bool) :
    (s.declare name kind offset shadow).1.level = s.level ∨
      shadow = false ∧ (s.declare name kind offset shadow).1.level = name :: s.level := by
  have hlevel : ∀ old : List Text, (if shadow || old.contains name then old else name :: old) = old ∨
      shadow = false ∧ (if shadow || old.contains name then old else name :: old) = name :: old := by
    intro old
    split
    · exact .inl rfl
    · rename_i hnot
      refine .inr ⟨?_, rfl⟩
      cases shadow with
      | false => rfl
      | true => exact absurd rfl hnot
  unfold declare
  dsimp only
  split
  · split
    · exact .inl rfl
    · exact hlevel s.level
  · exact hlevel s.level

/-- A declaration that does not shadow keeps its name at the current level. -/
theorem mem_level_declare (s : Scope) (name : Text) (kind : Kind) (offset : Option Nat) {n : Text} :
    n ∈ (s.declare name kind offset false).1.level ↔ n = name ∨ n ∈ s.level := by
  have hinsert : n ∈ (if s.level.contains name then s.level else name :: s.level) ↔
      n = name ∨ n ∈ s.level := by
    split
    · rename_i hold
      exact ⟨.inr, fun h => h.elim (fun h => h ▸ List.contains_iff_mem.mp hold) id⟩
    · exact List.mem_cons
  unfold declare
  dsimp only
  split
  · split
    · rename_i hold
      refine ⟨.inr, fun h => h.elim (fun h => h ▸ ?_) id⟩
      exact List.contains_iff_mem.mp (Bool.and_eq_true_iff.mp hold).2
    · exact hinsert
  · exact hinsert

theorem isStrict_declare {s : Scope} (h : s.IsStrict) (name : Text) (kind : Kind) (offset : Option Nat)
    (shadow : Bool) : (s.declare name kind offset shadow).1.IsStrict := by
  have hold : ∀ n, s.isDeclared n = true → (s.declare name kind offset shadow).1.isDeclared n = true :=
    fun n hn => (extends_declare s name kind offset shadow).isDeclared hn
  intro level hlevel n hn
  rw [stack, outer_declare] at hlevel
  rcases List.mem_cons.mp hlevel with rfl | hlevel
  · rcases s.level_declare name kind offset shadow with heq | ⟨-, heq⟩
    · rw [heq] at hn
      exact hold n (h s.level List.mem_cons_self n hn)
    · rw [heq] at hn
      rcases List.mem_cons.mp hn with rfl | hn
      · exact isDeclared_declare_self s n kind offset shadow
      · exact hold n (h s.level List.mem_cons_self n hn)
  · exact hold n (h level (List.mem_cons_of_mem _ hlevel) n hn)

theorem isStrict_seeded (names : List Text) : (seeded names).IsStrict := by
  suffices h : ∀ s : Scope, s.IsStrict →
      (names.foldl (fun s name => (s.declare name .parameter none true).1) s).IsStrict by
    refine h .empty fun level hlevel name hname => ?_
    rw [List.mem_singleton.mp hlevel] at hname
    exact absurd hname List.not_mem_nil
  induction names with
  | nil => exact fun s hs => hs
  | cons name names ih => exact fun s hs => ih _ (isStrict_declare hs name .parameter none true)

theorem isStrict_push {s : Scope} (h : s.IsStrict) : s.push.IsStrict := by
  intro level hlevel name hname
  rcases List.mem_cons.mp hlevel with rfl | hlevel
  · exact absurd hname List.not_mem_nil
  · exact h level hlevel name hname

theorem isStrict_pop {s : Scope} (h : s.IsStrict) : s.pop.IsStrict := by
  unfold pop
  split
  · exact h
  · rename_i level outer houter
    intro l hl
    refine h l (List.mem_cons_of_mem s.level ?_)
    rw [houter]
    exact hl

theorem isStrict_use {s : Scope} (h : s.IsStrict) (used : Text) : (s.use used).IsStrict :=
  fun level hlevel name hname => (extends_use s used).isDeclared (h level hlevel name hname)

/-- The name goes from the levels together with its entry. -/
theorem isStrict_remove {s : Scope} (h : s.IsStrict) (removed : Text) : (s.remove removed).IsStrict := by
  intro level hlevel name hname
  obtain ⟨old, hold, rfl⟩ : ∃ old ∈ s.stack, old.filter (· ≠ removed) = level := by
    rcases List.mem_cons.mp hlevel with rfl | hlevel
    · exact ⟨s.level, List.mem_cons_self, rfl⟩
    · obtain ⟨old, hold, rfl⟩ := List.mem_map.mp hlevel
      exact ⟨old, List.mem_cons_of_mem _ hold, rfl⟩
  obtain ⟨hmem, hne⟩ := List.mem_filter.mp hname
  rw [isDeclared, get?_remove (of_decide_eq_true hne)]
  exact h old hold name hmem

theorem Reachable.isStrict {s : Scope} (h : Reachable s) : s.IsStrict := by
  induction h with
  | empty => exact isStrict_seeded []
  | seeded names => exact isStrict_seeded names
  | push _ ih => exact isStrict_push ih
  | pop _ ih => exact isStrict_pop ih
  | declare _ name kind offset shadow ih => exact isStrict_declare ih name kind offset shadow
  | use _ name ih => exact isStrict_use ih name
  | remove _ name ih => exact isStrict_remove ih name

/-! ## 2. Runs come to such scopes -/

theorem Reachable.declareAt {s : Scope} (h : Reachable s) (name : Text) (kind : Kind) (offset : Nat)
    (shadow : Bool) : Reachable (s.declareAt name kind offset shadow).1 := by
  rw [declareAt_fst]
  exact h.declare name kind (some offset) shadow

theorem Reachable.useAt {s : Scope} (h : Reachable s) (name : Text) (offset : Nat) :
    Reachable (s.useAt name offset).1 := by
  unfold Scope.useAt
  split
  · exact h.use name
  · exact h

theorem Reachable.endLoop {s : Scope} (h : Reachable s) (name : Text) :
    Reachable (s.endLoop name).1 := by
  unfold Scope.endLoop
  split
  · exact h
  · exact h.remove name

theorem Reachable.bind {s inner : Scope} (h : Reachable s) (hinner : Reachable inner)
    (bindings : List Binding) :
    Reachable (bind s inner bindings).1 ∧ Reachable (bind s inner bindings).2.1 := by
  induction bindings generalizing s inner with
  | nil => exact ⟨h, hinner⟩
  | cons binding bindings ih =>
    cases binding with
    | parameter name offset => exact ih h (hinner.declareAt name .closureParameter offset false)
    | capture name offset =>
      exact ih (h.useAt name offset) (hinner.declareAt name .capture offset false)

mutual

theorem Reachable.run : ∀ (action : Action) {s : Scope}, Reachable s → Reachable (run action s).1
  | .annotate name offset, s, h => by
    rw [Scope.run]
    split
    · exact h
    · exact h.declareAt name .annotated offset true
  | .declare name kind offset shadow, s, h => h.declareAt name kind offset shadow
  | .use name offset, s, h => h.useAt name offset
  | .level body, s, h => (Reachable.runAll body h.push).pop
  | .loop name offset body, s, h => by
    have hdone := Reachable.runAll body (h.declareAt name .loop offset true)
    rw [Scope.run]
    dsimp only
    split
    · exact hdone
    · exact hdone.endLoop name
  | .closure bindings body, s, h => (h.bind .empty bindings).1
  | .brokenClosure bindings expected offset, s, h => (h.bind .empty bindings).1

theorem Reachable.runAll : ∀ (actions : List Action) {s : Scope}, Reachable s →
    Reachable (runAll actions s).1
  | [], _, h => h
  | action :: actions, _, h => Reachable.runAll actions (Reachable.run action h)

end

/-! ## 3. What a run does to the levels -/

/-- The levels around the current one are the same, and the current one has all its names. -/
structure SameAround (s s' : Scope) : Prop where
  outer : s'.outer = s.outer
  level : s.level ⊆ s'.level

theorem SameAround.refl (s : Scope) : SameAround s s := ⟨rfl, fun _ h => h⟩

theorem SameAround.trans {s t u : Scope} (h : SameAround s t) (h' : SameAround t u) : SameAround s u :=
  ⟨h'.outer.trans h.outer, fun _ hn => h'.level (h.level hn)⟩

theorem sameAround_declareAt (s : Scope) (name : Text) (kind : Kind) (offset : Nat) (shadow : Bool) :
    SameAround s (s.declareAt name kind offset shadow).1 := by
  rw [declareAt_fst]
  refine ⟨s.outer_declare name kind (some offset) shadow, ?_⟩
  rcases s.level_declare name kind (some offset) shadow with heq | ⟨-, heq⟩
  · rw [heq]
    exact fun _ h => h
  · rw [heq]
    exact List.subset_cons_self _ _

theorem sameAround_useAt (s : Scope) (name : Text) (offset : Nat) :
    SameAround s (s.useAt name offset).1 := by
  unfold Scope.useAt
  split
  · exact ⟨rfl, fun _ h => h⟩
  · exact .refl s

theorem sameAround_bind (s inner : Scope) (bindings : List Binding) :
    SameAround s (bind s inner bindings).1 := by
  induction bindings generalizing s inner with
  | nil => exact .refl s
  | cons binding bindings ih =>
    cases binding with
    | parameter name offset => exact ih s _
    | capture name offset => exact (sameAround_useAt s name offset).trans (ih _ _)

theorem filter_ne_of_not_isDeclared {s : Scope} (hs : s.IsStrict) {name : Text}
    (hname : ¬ s.isDeclared name = true) {level : List Text} (hlevel : level ∈ s.stack) :
    level.filter (· ≠ name) = level := by
  rw [List.filter_eq_self]
  intro n hn
  apply decide_eq_true
  rintro rfl
  exact hname (hs level hlevel n hn)

/-- The variable of a loop that is over was at no level before the loop. -/
theorem SameAround.endLoop {s done : Scope} (h : SameAround s done) (hs : s.IsStrict) {name : Text}
    (hname : ¬ s.isDeclared name = true) : SameAround s (done.endLoop name).1 := by
  unfold Scope.endLoop
  split
  · exact h
  · refine ⟨?_, fun n hn => ?_⟩
    · show done.outer.map (·.filter (· ≠ name)) = s.outer
      rw [h.outer]
      conv_rhs => rw [← List.map_id s.outer]
      apply List.map_congr_left
      intro level hlevel
      exact filter_ne_of_not_isDeclared hs hname (List.mem_cons_of_mem _ hlevel)
    · have hkept := filter_ne_of_not_isDeclared hs hname (List.mem_cons_self : s.level ∈ s.stack)
      rw [← hkept] at hn
      obtain ⟨hmem, hne⟩ := List.mem_filter.mp hn
      exact List.mem_filter.mpr ⟨h.level hmem, hne⟩

mutual

theorem Reachable.sameAround_run : ∀ (action : Action) {s : Scope}, Reachable s →
    SameAround s (Scope.run action s).1
  | .annotate name offset, s, _ => by
    rw [Scope.run]
    split
    · exact .refl s
    · exact sameAround_declareAt s name .annotated offset true
  | .declare name kind offset shadow, s, _ => sameAround_declareAt s name kind offset shadow
  | .use name offset, s, _ => sameAround_useAt s name offset
  | .level body, s, h => by
    -- the level of the body is the innermost, so the end of it uncovers the old levels
    have hbody := Reachable.sameAround_runAll body h.push
    rw [Scope.run]
    dsimp only
    unfold Scope.pop
    rw [hbody.outer]
    exact ⟨rfl, fun _ hn => hn⟩
  | .loop name offset body, s, h => by
    have hbegun := sameAround_declareAt s name .loop offset true
    have hdone := hbegun.trans (Reachable.sameAround_runAll body (h.declareAt name .loop offset true))
    rw [Scope.run]
    dsimp only
    split
    · exact hdone
    · rename_i hname
      exact hdone.endLoop h.isStrict hname
  | .closure bindings body, s, _ => sameAround_bind s .empty bindings
  | .brokenClosure bindings expected offset, s, _ => sameAround_bind s .empty bindings

theorem Reachable.sameAround_runAll : ∀ (actions : List Action) {s : Scope}, Reachable s →
    SameAround s (Scope.runAll actions s).1
  | [], s, _ => .refl s
  | action :: actions, _, h =>
    (Reachable.sameAround_run action h).trans (Reachable.sameAround_runAll actions (h.run action))

end

/-! ## 4. Walks over steps -/

/-- What a walk over steps may make of a scope. -/
structure Framed (s s' : Scope) : Prop where
  reachable : Reachable s'
  height : s'.stack.length = s.stack.length
  below : s'.stack.tail = s.stack.tail
  current : s.level ⊆ s'.level
  entries : ∀ name d, s.get? name = some d → ∃ e, s'.get? name = some e ∧
    e.kind = d.kind ∧ e.offset = d.offset ∧ (d.used = true → e.used = true)

theorem Reachable.framed_runAll {s : Scope} (h : Reachable s) (actions : List Action) :
    Framed s (Scope.runAll actions s).1 := by
  have haround := h.sameAround_runAll actions
  refine ⟨h.runAll actions, ?_, haround.outer, haround.level, (kept_runAll actions s).entries⟩
  rw [stack, stack, List.length_cons, List.length_cons, haround.outer]

/-- There is always a current level, every name at a level has an entry, and a walk over a step, over an
ordered list or over an unordered list keeps the levels below and all entries. -/
theorem walks_framed (s : Scope) (h : Reachable s) :
    0 < s.stack.length ∧ (∀ level ∈ s.stack, ∀ name ∈ level, s.isDeclared name = true) ∧
      ∀ cache : Cache,
        (∀ step, Framed s (runAll (stepActions cache step) s).1) ∧
        (∀ list : StepList, Framed s (runAll (orderedActions cache list.steps) s).1) ∧
        ∀ list : StepList, Framed s (runAll (unorderedActions cache list.steps) s).1 :=
  ⟨Nat.succ_pos _, h.isStrict, fun _ => ⟨fun _ => h.framed_runAll _, fun _ => h.framed_runAll _,
    fun _ => h.framed_runAll _⟩⟩

/-- A loop over a new name that its body declares once more, at a level inside another. -/
theorem walks_framed_loop :
    let s := ((seeded [['a']]).push.declare ['b'] .ordinary (some 3) false).1
    let below : Step := ⟨1, ⟨"1.".toList, 42⟩, [], ⟨"Let _x_ be _a_.".toList, 45⟩, none⟩
    let loop : Step := ⟨0, ⟨"1.".toList, 0⟩, [], ⟨"For each _x_ of _b_, let _y_ be _x_.".toList, 3⟩,
      some ⟨.ordered, [below]⟩⟩
    let cache := (Cache.ofStep (fun step => Expression.parse step.content) loop).1
    let s' := (runAll (stepActions cache loop) s).1
    Reachable s ∧ s'.stack = [[['y'], ['b']], []] ∧ s'.names = [['a'], ['b'], ['y']] ∧ Framed s s' := by
  intro s below loop cache s'
  have hs : Reachable s := (Reachable.seeded [['a']]).push.declare ['b'] .ordinary (some 3) false
  refine ⟨hs, ?_, ?_, ((walks_framed s hs).2.2 cache).1 loop⟩
  · decide +kernel
  · decide +kernel

end Errata.Scope
