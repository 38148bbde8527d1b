import Errata.Proofs.Scope.Closure
import Errata.Proofs.Scope.Loop
import Errata.Proofs.Scope.Strict

/-!
# Names that are declared twice

A strict declaration conflicts with an earlier one of the same name in the same list of steps, unless that one
stood in a loop over the name that is over. In the body of a closure it also conflicts with a name of the
closure. Nothing in other lists matters, and neither does any declaration that shadows.
-/

namespace Errata.Scope

/-! ## 1. Strict declarations -/

/-- A strict declaration that has been made in a list of steps. -/
structure Made where
  name : Text
  offset : Nat
  /-- The variables that the loops around the declaration have introduced, of those loops that are over. -/
  finished : List Text

namespace Made

/-- Whether a declaration of the name may not be repeated. -/
def stands (d : Made) (name : Text) : Bool := d.name == name && !d.finished.contains name

/-- The declaration after the end of a loop around it that has introduced the name. -/
def ended (name : Text) (d : Made) : Made := { d with finished := name :: d.finished }

end Made

/-- A strict declaration where it is made. -/
structure Site where
  name : Text
  offset : Nat
  /-- The names of the closure, if the list that it belongs to is the body of one. -/
  bound : List Text
  /-- The strict declarations before it in the same list. -/
  earlier : List Made

/-- Whether a list of steps has the name from the closure whose body it is or from a strict declaration. -/
def isTaken (bound : List Text) (earlier : List Made) (name : Text) : Bool :=
  bound.contains name || earlier.any (·.stands name)

namespace Site

def conflicts (site : Site) : Bool := isTaken site.bound site.earlier site.name

def finding (site : Site) : Finding Problem := ⟨.redeclaration site.name, site.offset⟩

end Site

mutual

/-- The strict declarations that an action makes in the list it belongs to, when the action is done. Those of
other lists, in levels and closures, are not among them. -/
def made : Action → Scope → List Made
  | .annotate _ _, _ => []
  | .declare name _ offset shadow, _ => if shadow then [] else [⟨name, offset, []⟩]
  | .use _ _, _ => []
  | .level _, _ => []
  | .loop name offset body, s =>
    let inside := madeAll body (s.declareAt name .loop offset true).1
    -- a loop introduces its variable if the name is not declared already
    if s.isDeclared name then inside else inside.map (Made.ended name)
  | .closure _ _, _ => []
  | .brokenClosure _ _ _, _ => []

def madeAll : List Action → Scope → List Made
  | [], _ => []
  | action :: actions, s => made action s ++ madeAll actions (run action s).1

end

/-- The names of a closure, which are strict declarations in its own scope before those of its body. -/
def boundSites (bound : List Text) : List Binding → List Site
  | [] => []
  | binding :: bindings =>
    ⟨binding.name, binding.offset, bound, []⟩ :: boundSites (binding.name :: bound) bindings

mutual

/-- The strict declarations of an action in the order in which they are made, those of the lists below it
included. The list that the action belongs to has the names `bound` and the declarations `earlier`. -/
def sites (bound : List Text) (earlier : List Made) : Action → Scope → List Site
  | .annotate _ _, _ => []
  | .declare name _ offset shadow, _ => if shadow then [] else [⟨name, offset, bound, earlier⟩]
  | .use _ _, _ => []
  | .level body, s => sitesAll [] [] body s.push
  | .loop name offset body, s => sitesAll bound earlier body (s.declareAt name .loop offset true).1
  | .closure bindings body, s =>
    boundSites [] bindings ++
      sitesAll (bindings.map Binding.name) [] body (bind s .empty bindings).2.1
  | .brokenClosure bindings _ _, _ => boundSites [] bindings

def sitesAll (bound : List Text) (earlier : List Made) : List Action → Scope → List Site
  | [], _ => []
  | action :: actions, s =>
    sites bound earlier action s ++
      sitesAll bound (earlier ++ made action s) actions (run action s).1

end

/-- What is said of the strict declarations that conflict. -/
def complaints (sites : List Site) : List (Finding Problem) := (sites.filter Site.conflicts).map Site.finding

theorem complaints_append (first second : List Site) :
    complaints (first ++ second) = complaints first ++ complaints second := by
  rw [complaints, List.filter_append, List.map_append]
  rfl

theorem complaints_singleton (site : Site) :
    complaints [site] = if site.conflicts then [site.finding] else [] := by
  rw [complaints, List.filter_singleton]
  cases site.conflicts with
  | true => rfl
  | false => rfl

theorem forall_mem_madeAll {p : Made → Prop} {actions : List Action}
    (h : ∀ a ∈ actions, ∀ s, ∀ d ∈ made a s, p d) (s : Scope) : ∀ d ∈ madeAll actions s, p d := by
  induction actions generalizing s with
  | nil => exact List.forall_mem_nil _
  | cons action actions ih =>
    obtain ⟨haction, hactions⟩ := List.forall_mem_cons.mp h
    exact List.forall_mem_append.mpr ⟨haction s, ih hactions _⟩

theorem Action.DeclaresOnly.forall_mem_made {p : Text → Nat → Prop} {action : Action}
    (h : action.DeclaresOnly p) : ∀ s, ∀ d ∈ made action s, p d.name d.offset := by
  induction h with
  | annotate => exact fun _ => List.forall_mem_nil _
  | @declare name kind offset shadow h =>
    intro s
    cases shadow with
    | true => exact List.forall_mem_nil _
    | false => exact List.forall_mem_singleton.mpr (h rfl)
  | use => exact fun _ => List.forall_mem_nil _
  | level => exact fun _ => List.forall_mem_nil _
  | @loop name offset body _ ih =>
    intro s d hd
    have hinside := forall_mem_madeAll ih (s.declareAt name .loop offset true).1
    rw [made] at hd
    split at hd
    · exact hinside d hd
    · obtain ⟨d', hd', rfl⟩ := List.mem_map.mp hd
      exact hinside d' hd'
  | closure => exact fun _ => List.forall_mem_nil _
  | brokenClosure => exact fun _ => List.forall_mem_nil _

/-! ## 2. The current level -/

/-- The current level has the names that are taken in the list of steps. -/
def Keeps (s : Scope) (bound : List Text) (earlier : List Made) : Prop :=
  ∀ name, name ∈ s.level ↔ isTaken bound earlier name = true

theorem isTaken_append (bound : List Text) (earlier later : List Made) (name : Text) :
    isTaken bound (earlier ++ later) name =
      (isTaken bound earlier name || later.any (·.stands name)) := by
  rw [isTaken, isTaken, List.any_append, Bool.or_assoc]

theorem Keeps.of_level {s s' : Scope} {bound : List Text} {earlier : List Made}
    (h : Keeps s bound earlier) (hlevel : s'.level = s.level) : Keeps s' bound earlier := by
  intro name
  rw [hlevel]
  exact h name

theorem keeps_of_level_nil {s : Scope} (h : s.level = []) : Keeps s [] [] := by
  intro name
  rw [h]
  exact iff_of_false List.not_mem_nil Bool.false_ne_true

theorem level_declare_shadow (s : Scope) (name : Text) (kind : Kind) (offset : Option Nat) :
    (s.declare name kind offset true).1.level = s.level := by
  rcases s.level_declare name kind offset true with h | ⟨h, -⟩
  · exact h
  · cases h

theorem level_declareAt_shadow (s : Scope) (name : Text) (kind : Kind) (offset : Nat) :
    (s.declareAt name kind offset true).1.level = s.level := by
  rw [declareAt_fst, level_declare_shadow]

theorem level_seeded (seeds : List Text) : (seeded seeds).level = [] := by
  suffices h : ∀ s : Scope,
      (seeds.foldl (fun s name => (s.declare name .parameter none true).1) s).level = s.level from
    h .empty
  induction seeds with
  | nil => exact fun _ => rfl
  | cons name seeds ih =>
    intro s
    rw [List.foldl_cons, ih, level_declare_shadow]

theorem level_useAt (s : Scope) (name : Text) (offset : Nat) : (s.useAt name offset).1.level = s.level := by
  rw [useAt_fst]
  rfl

theorem level_bind (s inner : Scope) (bindings : List Binding) :
    (bind s inner bindings).1.level = s.level := by
  rw [bind_fst]
  exact (levels_foldl_use s _).1

theorem mem_level_declareAt (s : Scope) (name : Text) (kind : Kind) (offset : Nat) {n : Text} :
    n ∈ (s.declareAt name kind offset false).1.level ↔ n = name ∨ n ∈ s.level := by
  rw [declareAt_fst, mem_level_declare]

theorem mem_level_bind_inner (s inner : Scope) (bindings : List Binding) {name : Text} :
    name ∈ (bind s inner bindings).2.1.level ↔
      name ∈ bindings.map Binding.name ∨ name ∈ inner.level := by
  induction bindings generalizing s inner with
  | nil => exact (or_iff_right List.not_mem_nil).symm
  | cons binding bindings ih =>
    rw [List.map_cons, List.mem_cons, or_comm (a := name = _), or_assoc]
    cases binding with
    | parameter other offset => exact (ih s _).trans (or_congr_right (mem_level_declareAt inner _ _ _))
    | capture other offset => exact (ih _ _).trans (or_congr_right (mem_level_declareAt inner _ _ _))

/-! ## 3. Declarations -/

theorem declareAt_snd (s : Scope) (name : Text) (kind : Kind) (offset : Nat) (shadow : Bool) :
    (s.declareAt name kind offset shadow).2 =
      if (s.declare name kind (some offset) shadow).2 = .conflict then [⟨.redeclaration name, offset⟩]
      else [] := by
  unfold declareAt
  split
  · rename_i h
    rw [h, if_pos rfl]
  · rename_i declared hnot h
    rw [h, if_neg hnot]

/-- A name that is kept at a level has an entry, so the current level alone decides. -/
theorem declare_eq_conflict_iff {s : Scope} (hs : s.IsStrict) (name : Text) (kind : Kind)
    (offset : Option Nat) (shadow : Bool) :
    (s.declare name kind offset shadow).2 = .conflict ↔ shadow = false ∧ name ∈ s.level := by
  unfold declare
  dsimp only
  split
  · split
    · rename_i hold
      simpa using hold
    · rename_i hnew
      refine iff_of_false (by simp) fun h => hnew ?_
      simpa using h
  · rename_i hnot
    exact iff_of_false (by simp) fun h => hnot (hs s.level List.mem_cons_self name h.2)

theorem filter_declareAt_isRedeclaration (s : Scope) (name : Text) (kind : Kind) (offset : Nat)
    (shadow : Bool) : (s.declareAt name kind offset shadow).2.filter isRedeclaration =
      (s.declareAt name kind offset shadow).2 := by
  unfold declareAt
  split
  · rfl
  · rfl

theorem filter_useAt_isRedeclaration (s : Scope) (name : Text) (offset : Nat) :
    (s.useAt name offset).2.filter isRedeclaration = [] := by
  unfold useAt
  split
  · rfl
  · rfl

theorem filter_isRedeclaration_eq_nil {found : List (Finding Problem)}
    (h : found.filter isImmediate = []) : found.filter isRedeclaration = [] := by
  rw [List.filter_eq_nil_iff] at h ⊢
  intro f hf hagain
  refine h f hf ?_
  unfold isRedeclaration at hagain
  unfold isImmediate
  split at hagain <;> simp_all

theorem filter_reportUnused_isRedeclaration (s : Scope) :
    s.reportUnused.filter isRedeclaration = [] :=
  filter_isRedeclaration_eq_nil
    (filter_eq_nil_of_filter_eq_self s.filter_reportUnused not_isImmediate_of_isUnused)

theorem declareAt_shadow_snd {s : Scope} (hs : s.IsStrict) (name : Text) (kind : Kind) (offset : Nat) :
    (s.declareAt name kind offset true).2 = [] := by
  rw [declareAt_snd, if_neg]
  exact fun h => Bool.false_ne_true ((declare_eq_conflict_iff hs name kind _ true).mp h).1.symm

theorem declareAt_strict_snd {s : Scope} (hs : s.IsStrict) {bound : List Text} {earlier : List Made}
    (h : Keeps s bound earlier) (name : Text) (kind : Kind) (offset : Nat) :
    (s.declareAt name kind offset false).2 = complaints [⟨name, offset, bound, earlier⟩] := by
  have hconflict : (s.declare name kind (some offset) false).2 = .conflict ↔
      Site.conflicts ⟨name, offset, bound, earlier⟩ = true :=
    (declare_eq_conflict_iff hs name kind _ false).trans ((and_iff_right rfl).trans (h name))
  rw [declareAt_snd, complaints_singleton]
  exact if_congr hconflict rfl rfl

/-- The names of a closure conflict among themselves. -/
theorem filter_bind_isRedeclaration (s : Scope) {inner : Scope} (hinner : Reachable inner)
    {bound : List Text} (h : Keeps inner bound []) (bindings : List Binding) :
    (bind s inner bindings).2.2.filter isRedeclaration = complaints (boundSites bound bindings) := by
  induction bindings generalizing s inner bound with
  | nil => rfl
  | cons binding bindings ih =>
    have hnext : ∀ kind, Keeps (inner.declareAt binding.name kind binding.offset false).1
        (binding.name :: bound) [] := by
      intro kind name
      rw [mem_level_declareAt, h name, isTaken, isTaken, List.contains_cons, Bool.or_assoc,
        Bool.or_eq_true (name == _), beq_iff_eq]
    have hfirst : ∀ kind, (inner.declareAt binding.name kind binding.offset false).2.filter
        isRedeclaration = complaints [⟨binding.name, binding.offset, bound, []⟩] := fun kind =>
      (filter_declareAt_isRedeclaration inner _ kind _ false).trans
        (declareAt_strict_snd hinner.isStrict h _ kind _)
    have hsplit : complaints (boundSites bound (binding :: bindings)) =
        complaints [⟨binding.name, binding.offset, bound, []⟩] ++
          complaints (boundSites (binding.name :: bound) bindings) := complaints_append [_] _
    rw [hsplit]
    cases binding with
    | parameter name offset =>
      rw [bind, List.filter_append]
      exact congrArg₂ (· ++ ·) (hfirst .closureParameter)
        (ih s (hinner.declareAt name .closureParameter offset false) (hnext .closureParameter))
    | capture name offset =>
      rw [bind, List.filter_append, List.filter_append, filter_useAt_isRedeclaration, List.nil_append]
      exact congrArg₂ (· ++ ·) (hfirst .capture)
        (ih _ (hinner.declareAt name .capture offset false) (hnext .capture))

/-! ## 4. Runs -/

/-- The outcome of actions that come after the declarations `earlier`: they complain about the conflicts among
the declarations `sites`, and the current level then also has the declarations `new`. -/
structure Tracks (bound : List Text) (earlier : List Made) (r : Scope × List (Finding Problem))
    (sites : List Site) (new : List Made) : Prop where
  found : r.2.filter isRedeclaration = complaints sites
  level : Keeps r.1 bound (earlier ++ new)

section

variable {s : Scope} {bound : List Text} {earlier : List Made}

theorem Keeps.tracks {r : Scope × List (Finding Problem)} {sites : List Site} (h : Keeps s bound earlier)
    (hlevel : r.1.level = s.level) (hfound : r.2.filter isRedeclaration = complaints sites) :
    Tracks bound earlier r sites [] :=
  ⟨hfound, (List.append_nil earlier).symm ▸ h.of_level hlevel⟩

theorem tracks_declareAt_shadow (hs : Reachable s) (h : Keeps s bound earlier) (name : Text) (kind : Kind)
    (offset : Nat) : Tracks bound earlier (s.declareAt name kind offset true) [] [] := by
  refine h.tracks (level_declareAt_shadow s name kind offset) ?_
  rw [declareAt_shadow_snd hs.isStrict]
  rfl

theorem tracks_declareAt_strict (hs : Reachable s) (h : Keeps s bound earlier) (name : Text) (kind : Kind)
    (offset : Nat) :
    Tracks bound earlier (s.declareAt name kind offset false) [⟨name, offset, bound, earlier⟩]
      [⟨name, offset, []⟩] := by
  constructor
  · rw [filter_declareAt_isRedeclaration, declareAt_strict_snd hs.isStrict h]
  · intro n
    have hnew : ([⟨name, offset, []⟩] : List Made).any (·.stands n) = true ↔ n = name := by
      simp only [List.any_cons, List.any_nil, Made.stands, List.contains_nil, Bool.not_false,
        Bool.and_true, Bool.or_false, beq_iff_eq]
      exact eq_comm
    rw [mem_level_declareAt, h n, isTaken_append, Bool.or_eq_true, hnew, or_comm]

theorem stands_ended (d : Made) (name other : Text) :
    (d.ended name).stands other = (d.stands other && other != name) := by
  simp only [Made.stands, Made.ended, List.contains_cons, Bool.not_or, bne]
  rw [Bool.and_assoc, Bool.and_comm (!(other == name))]

theorem any_stands_ended (inside : List Made) (name other : Text) :
    (inside.map (Made.ended name)).any (·.stands other) =
      (inside.any (·.stands other) && other != name) := by
  induction inside with
  | nil => rfl
  | cons d inside ih =>
    rw [List.map_cons, List.any_cons, List.any_cons, ih, stands_ended, Bool.and_or_distrib_right]

/-- What a loop has declared under the name of its variable can be declared again after the loop. -/
theorem Keeps.remove {done : Scope} {name : Text} {inside : List Made} (hs : s.IsStrict)
    (h : Keeps s bound earlier) (hname : s.isDeclared name = false)
    (hdone : Keeps done bound (earlier ++ inside)) :
    Keeps (done.remove name) bound (earlier ++ inside.map (Made.ended name)) := by
  -- the name was not declared before the loop, so what is removed from the level is from inside the loop
  have huntaken : isTaken bound earlier name = false := by
    rw [Bool.eq_false_iff, ne_eq, ← h name]
    intro hmem
    rw [hs s.level List.mem_cons_self name hmem] at hname
    cases hname
  intro other
  rw [isTaken_append, any_stands_ended]
  show other ∈ done.level.filter (· ≠ name) ↔ _
  rw [List.mem_filter, hdone other, isTaken_append]
  by_cases hother : other = name
  · simp [hother, huntaken]
  · simp [hother]

end

mutual

theorem tracks_run : ∀ (action : Action) {s : Scope} {bound : List Text} {earlier : List Made},
    Reachable s → Keeps s bound earlier →
      Tracks bound earlier (run action s) (sites bound earlier action s) (made action s)
  | .annotate name offset, s, bound, earlier, hs, h => by
    rw [run, sites, made]
    split
    · exact h.tracks rfl rfl
    · exact tracks_declareAt_shadow hs h name .annotated offset
  | .declare name kind offset true, s, bound, earlier, hs, h =>
    tracks_declareAt_shadow hs h name kind offset
  | .declare name kind offset false, s, bound, earlier, hs, h =>
    tracks_declareAt_strict hs h name kind offset
  | .use name offset, s, bound, earlier, hs, h =>
    h.tracks (level_useAt s name offset) (filter_useAt_isRedeclaration s name offset)
  | .level body, s, bound, earlier, hs, h => by
    have hbody := tracks_runAll body hs.push (keeps_of_level_nil rfl)
    refine h.tracks ?_ hbody.found
    -- the end of the level uncovers the one around it, which the body has left alone
    show (runAll body s.push).1.pop.level = s.level
    rw [pop, (hs.push.sameAround_runAll body).outer]
    rfl
  | .loop name offset body, s, bound, earlier, hs, h => by
    have hbegun := hs.declareAt name .loop offset true
    have hbody := tracks_runAll body hbegun (h.of_level (level_declareAt_shadow s name .loop offset))
    cases hname : s.isDeclared name with
    | true =>
      -- a loop over a name that was there takes nothing back
      rw [run, made, sites]
      dsimp only
      rw [if_pos hname, if_pos hname]
      refine ⟨?_, hbody.level⟩
      rw [declareAt_shadow_snd hs.isStrict]
      exact hbody.found
    | false =>
      constructor
      · rw [run]
        dsimp only
        rw [if_neg (Bool.eq_false_iff.mp hname), declareAt_shadow_snd hs.isStrict, List.nil_append,
          List.filter_append, hbody.found,
          filter_isRedeclaration_eq_nil (filter_endLoop_immediate _ name), List.append_nil, sites]
      · rw [run_loop_of_not_isDeclared hname, made, if_neg (Bool.eq_false_iff.mp hname)]
        exact h.remove hs.isStrict hname hbody.level
  | .closure bindings body, s, bound, earlier, hs, h => by
    -- the names of the closure are at the level that its body begins with
    have hinner : Keeps (bind s .empty bindings).2.1 (bindings.map Binding.name) [] := by
      intro name
      rw [mem_level_bind_inner, isTaken]
      simp [Scope.empty]
    have hbody := tracks_runAll body (hs.bind .empty bindings).2 hinner
    refine h.tracks (level_bind s .empty bindings) ?_
    rw [sites, complaints_append, ← hbody.found,
      ← filter_bind_isRedeclaration s .empty (keeps_of_level_nil rfl) bindings, run]
    dsimp only
    rw [List.filter_append, List.filter_append, filter_reportUnused_isRedeclaration, List.append_nil]
  | .brokenClosure bindings expected offset, s, bound, earlier, hs, h => by
    refine h.tracks (level_bind s .empty bindings) ?_
    rw [sites, ← filter_bind_isRedeclaration s .empty (keeps_of_level_nil rfl) bindings, run,
      List.filter_append]
    exact List.append_nil _

theorem tracks_runAll : ∀ (actions : List Action) {s : Scope} {bound : List Text} {earlier : List Made},
    Reachable s → Keeps s bound earlier →
      Tracks bound earlier (runAll actions s) (sitesAll bound earlier actions s) (madeAll actions s)
  | [], s, bound, earlier, hs, h => h.tracks rfl rfl
  | action :: actions, s, bound, earlier, hs, h => by
    have hfirst := tracks_run action hs h
    have hothers := tracks_runAll actions (hs.run action) hfirst.level
    constructor
    · rw [runAll_cons, List.filter_append, hfirst.found, hothers.found, sitesAll, complaints_append]
    · rw [madeAll, ← List.append_assoc]
      exact hothers.level

end

/-! ## 5. Algorithms -/

/-- The strict declarations of an algorithm, after some names have been mentioned. -/
def sitesOf (seeds : List Text) (cache : Cache) (list : StepList) : List Site :=
  sitesAll [] [] (actions cache list) (seeded seeds)

/-- The names that are declared twice are those of the strict declarations that conflict, in the order in which
these are made. The strict declarations of a step are variables of its own words, in a step without a condition,
that are neither said to exist nor the variable of a loop. -/
theorem redeclarations_eq_conflicts (seeds : List Text) (cache : Cache) (list : StepList) :
    (findings seeds (actions cache list)).filter isRedeclaration =
        ((sitesOf seeds cache list).filter Site.conflicts).map Site.finding ∧
      ∀ (step : Step) (s : Scope), ∀ d ∈ madeAll (stepActions cache step) s,
        ∃ items, cache.get? step.id = some items ∧ DeclaresStrictly items d.name d.offset := by
  constructor
  · have htracks := tracks_runAll (actions cache list) (.seeded seeds) (keeps_of_level_nil (level_seeded seeds))
    rw [findings, List.filter_append, filter_reportUnused_isRedeclaration, List.append_nil]
    exact htracks.found
  · intro step
    exact forall_mem_madeAll fun a ha => (declaresOnly_stepActions cache step a ha).forall_mem_made

/-- Of the declarations of one name in a loop over it, after the loop, under a condition and in a list below,
only the last one in the same list conflicts. -/
theorem redeclarations_eq_conflicts_loop :
    let step (id offset : Nat) (content : String) (below : Option StepList) : Step :=
      ⟨id, ⟨"1.".toList, offset⟩, [], ⟨content.toList, offset + 3⟩, below⟩
    let loop := step 0 0 "For each _y_ of _x_, let _y_ be _x_." none
    let list : StepList := ⟨.ordered, [loop, step 1 40 "Let _y_ be _x_." none,
      step 2 60 "If _x_ is 0, let _y_ be _x_." (some ⟨.ordered, [step 3 100 "Let _y_ be _x_." none]⟩),
      step 4 120 "Let _y_ be _x_." none]⟩
    let cache := (Cache.ofList (fun step => Expression.parse step.content) list).1
    (sitesOf [['x']] cache list).map Site.offset = [28, 47, 107, 127] ∧
      (findings [['x']] (actions cache list)).filter isRedeclaration = [⟨.redeclaration ['y'], 127⟩] ∧
      ∃ items, cache.get? 0 = some items ∧ DeclaresStrictly items ['y'] 28 := by
  intro step loop list cache
  have hagree := redeclarations_eq_conflicts [['x']] cache list
  have hmade : (madeAll (stepActions cache loop) (seeded [['x']])).map (fun d => (d.name, d.offset)) =
      [(['y'], 28)] := by decide +kernel
  obtain ⟨d, hd, heq⟩ := List.mem_map.mp (hmade ▸ List.mem_singleton_self (['y'], 28))
  refine ⟨by decide +kernel, hagree.1.trans (by decide +kernel), ?_⟩
  obtain ⟨hname, hoffset⟩ := Prod.mk.inj heq
  rw [← hname, ← hoffset]
  exact hagree.2 loop (seeded [['x']]) d hd

end Errata.Scope
