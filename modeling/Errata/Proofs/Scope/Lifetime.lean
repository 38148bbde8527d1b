import Errata.Proofs.Scope.Entries
import Errata.Scope.Reading

/-!
# Entries that are never used

An entry lasts from the action that enters it to the end of the loop that introduced it, or else to the end
of the algorithm or the closure. If nothing uses its name in that scope while it lasts, it is complained
about once; otherwise it is not complained about.
-/

namespace Errata.Scope

open scoped List

/-! ## 1. Uses and entries -/

/-- The names that a closure captures. -/
def captured : List Binding → List Text
  | [] => []
  | .parameter _ _ :: bindings => captured bindings
  | .capture name _ :: bindings => name :: captured bindings

mutual

/-- The names that an action uses in the scope it runs in. A capture is a use in the scope around the
closure, and what the body of a closure uses is not. -/
def usedBy : Action → List Text
  | .annotate _ _ => []
  | .declare _ _ _ _ => []
  | .use name _ => [name]
  | .level body => usedByAll body
  | .loop _ _ body => usedByAll body
  | .closure bindings _ => captured bindings
  | .brokenClosure bindings _ _ => captured bindings

def usedByAll : List Action → List Text
  | [] => []
  | action :: actions => usedBy action ++ usedByAll actions

end

/-- A name that was newly entered in a scope. -/
structure Entry where
  name : Text
  kind : Kind
  offset : Nat
  /-- The names that are used in that scope while the entry lasts. -/
  uses : List Text

/-- The complaint about an entry, if it is not used. -/
def Entry.complaint? (e : Entry) : Option (Finding Problem) :=
  if e.uses.contains e.name then none
  else match e.kind with
    | .ordinary => some ⟨.unusedDeclaration e.name, e.offset⟩
    | .loop => some ⟨.unusedDeclaration e.name, e.offset⟩
    | .annotated => some ⟨.unusedDeclaration e.name, e.offset⟩
    | .capture => some ⟨.unusedCapture e.name, e.offset⟩
    | .parameter => none
    | .closureParameter => none

/-- The entry that a declaration makes, if it makes one. -/
def newEntry (s : Scope) (name : Text) (kind : Kind) (offset : Nat) (shadow : Bool)
    (uses : List Text) : List Entry :=
  if (s.declare name kind (some offset) shadow).2 = .new then [⟨name, kind, offset, uses⟩] else []

/-- The entries of a closure's own scope that its introduction makes. They last until the end of the body,
which uses the names `uses`. -/
def boundEntries (inner : Scope) (uses : List Text) : List Binding → List Entry
  | [] => []
  | .parameter name offset :: bindings =>
    newEntry inner name .closureParameter offset false uses ++
      boundEntries (inner.declareAt name .closureParameter offset false).1 uses bindings
  | .capture name offset :: bindings =>
    newEntry inner name .capture offset false uses ++
      boundEntries (inner.declareAt name .capture offset false).1 uses bindings

mutual

/-- The entries that an action makes, in the scope it runs in and in the scopes of closures below it. The
names `later` are used after the action in the scope it runs in. -/
def entered : Action → Scope → List Text → List Entry
  | .annotate name offset, s, later => newEntry s name .annotated offset true later
  | .declare name kind offset shadow, s, later => newEntry s name kind offset shadow later
  | .use _ _, _, _ => []
  | .level body, s, later => enteredAll body s.push later
  | .loop name offset body, s, later =>
    -- the variable of the loop lasts only as long as the body
    newEntry s name .loop offset true (usedByAll body) ++
      enteredAll body (s.declareAt name .loop offset true).1 later
  | .closure bindings body, s, _ =>
    boundEntries .empty (usedByAll body) bindings ++ enteredAll body (bind s .empty bindings).2.1 []
  | .brokenClosure _ _ _, _, _ => []

def enteredAll : List Action → Scope → List Text → List Entry
  | [], _, _ => []
  | action :: actions, s, later =>
    entered action s (usedByAll actions ++ later) ++ enteredAll actions (run action s).1 later

end

/-- Whether a finding says that something is never used. -/
def isUnused (f : Finding Problem) : Bool :=
  match f.problem with
  | .unusedDeclaration _ => true
  | .unusedCapture _ => true
  | _ => false

/-! ## 2. Declarations and uses -/

/-- Entries and the distinctness of their names are kept. -/
structure Kept (s s' : Scope) : Prop where
  entries : Extends s s'
  nodup : s.names.Nodup → s'.names.Nodup

theorem Kept.refl (s : Scope) : Kept s s := ⟨.refl s, id⟩

theorem Kept.trans {s t u : Scope} (h : Kept s t) (h' : Kept t u) : Kept s u :=
  ⟨h.1.trans h'.1, fun hs => h'.2 (h.2 hs)⟩

theorem Kept.of_entries_eq {s s' : Scope} (h : s'.entries = s.entries) : Kept s s' := by
  refine ⟨.of_entries_eq h, fun hs => ?_⟩
  rw [names, h]
  exact hs

theorem declareAt_fst (s : Scope) (name : Text) (kind : Kind) (offset : Nat) (shadow : Bool) :
    (s.declareAt name kind offset shadow).1 = (s.declare name kind (some offset) shadow).1 := by
  unfold declareAt
  split
  · rename_i h; rw [h]
  · rename_i h; rw [h]

theorem filter_declareAt (s : Scope) (name : Text) (kind : Kind) (offset : Nat) (shadow : Bool) :
    (s.declareAt name kind offset shadow).2.filter isUnused = [] := by
  unfold declareAt
  split
  · rfl
  · rfl

theorem kept_declareAt (s : Scope) (name : Text) (kind : Kind) (offset : Nat) (shadow : Bool) :
    Kept s (s.declareAt name kind offset shadow).1 := by
  rw [declareAt_fst]
  exact ⟨extends_declare s name kind _ shadow, fun hs => nodup_declare hs name kind _ shadow⟩

theorem newEntry_complaint? (name : Text) (kind : Kind) (offset : Nat) (later : List Text) :
    Entry.complaint? ⟨name, kind, offset, later⟩ =
      Scope.complaint? later (name, ⟨kind, false, some offset⟩) := by
  unfold Entry.complaint? Scope.complaint?
  by_cases h : name ∈ later
  · simp [h]
  · cases kind <;> simp [h, unusedProblem?]

theorem pending_declareAt (s : Scope) (name : Text) (kind : Kind) (offset : Nat) (shadow : Bool)
    (later : List Text) :
    (s.declareAt name kind offset shadow).1.pending later =
      s.pending later ++ (newEntry s name kind offset shadow later).filterMap Entry.complaint? := by
  rw [declareAt_fst, newEntry]
  rcases s.declare_cases name kind (some offset) shadow with ⟨-, hnew, h⟩ | ⟨-, hnew, h⟩
  · rw [pending_append s h, if_pos hnew]
    simp only [List.filterMap_cons, newEntry_complaint?, List.filterMap_nil]
  · rw [if_neg hnew, pending, h, List.filterMap_nil, List.append_nil]
    rfl

theorem kept_useAt (s : Scope) (name : Text) (offset : Nat) : Kept s (s.useAt name offset).1 := by
  unfold useAt
  split
  · refine ⟨extends_use s name, fun hs => ?_⟩
    rwa [names_use]
  · exact .refl s

theorem filter_useAt (s : Scope) (name : Text) (offset : Nat) :
    (s.useAt name offset).2.filter isUnused = [] := by
  unfold useAt
  split
  · rfl
  · rfl

theorem pending_useAt (s : Scope) (name : Text) (offset : Nat) (later : List Text) :
    (s.useAt name offset).1.pending later = s.pending (name :: later) := by
  unfold useAt
  split
  · exact pending_use s name later
  · rename_i h
    apply pending_congr
    intro n hn
    have hne : n ≠ name := by
      rintro rfl
      exact h (isDeclared_iff.mpr hn)
    simp [hne]

/-! ## 3. Closures -/

theorem kept_bind (s inner : Scope) (bindings : List Binding) :
    Kept s (bind s inner bindings).1 ∧ Kept inner (bind s inner bindings).2.1 := by
  induction bindings generalizing s inner with
  | nil => exact ⟨.refl s, .refl inner⟩
  | cons binding bindings ih =>
    cases binding with
    | parameter name offset =>
      have hrest := ih s (inner.declareAt name .closureParameter offset false).1
      exact ⟨hrest.1, (kept_declareAt ..).trans hrest.2⟩
    | capture name offset =>
      have hrest := ih (s.useAt name offset).1 (inner.declareAt name .capture offset false).1
      exact ⟨(kept_useAt ..).trans hrest.1, (kept_declareAt ..).trans hrest.2⟩

theorem filter_bind (s inner : Scope) (bindings : List Binding) :
    (bind s inner bindings).2.2.filter isUnused = [] := by
  induction bindings generalizing s inner with
  | nil => rfl
  | cons binding bindings ih =>
    cases binding with
    | parameter name offset =>
      rw [bind, List.filter_append, filter_declareAt, ih]
      rfl
    | capture name offset =>
      rw [bind, List.filter_append, List.filter_append, filter_useAt, filter_declareAt, ih]
      rfl

theorem pending_bind (s inner : Scope) (bindings : List Binding) (later : List Text) :
    (bind s inner bindings).1.pending later = s.pending (captured bindings ++ later) := by
  induction bindings generalizing s inner with
  | nil => rfl
  | cons binding bindings ih =>
    cases binding with
    | parameter name offset => exact ih s _
    | capture name offset => exact (ih _ _).trans (pending_useAt s name offset _)

theorem pending_bind_inner (s inner : Scope) (bindings : List Binding) (later : List Text) :
    (bind s inner bindings).2.1.pending later =
      inner.pending later ++ (boundEntries inner later bindings).filterMap Entry.complaint? := by
  induction bindings generalizing s inner with
  | nil => exact (List.append_nil _).symm
  | cons binding bindings ih =>
    cases binding with
    | parameter name offset =>
      have hrest := ih s (inner.declareAt name .closureParameter offset false).1
      rw [pending_declareAt, List.append_assoc, ← List.filterMap_append] at hrest
      exact hrest
    | capture name offset =>
      have hrest := ih (s.useAt name offset).1 (inner.declareAt name .capture offset false).1
      rw [pending_declareAt, List.append_assoc, ← List.filterMap_append] at hrest
      exact hrest

/-! ## 4. What a run keeps -/

theorem not_isDeclared_of_ne {s : Scope} {name : Text} (h : ¬ s.isDeclared name = true) {n : Text}
    {d : Declaration} (hd : s.get? n = some d) : n ≠ name := by
  rintro rfl
  exact h (Option.isSome_of_eq_some hd)

theorem kept_endLoop {s done : Scope} {name : Text} (hname : ¬ s.isDeclared name = true)
    (h : Kept s done) : Kept s (done.endLoop name).1 := by
  unfold endLoop
  split
  · exact h
  · refine ⟨fun n d hd => ?_, fun hs => nodup_remove (h.nodup hs) name⟩
    rw [get?_remove (not_isDeclared_of_ne hname hd)]
    exact h.entries n d hd

mutual

theorem kept_run : ∀ (action : Action) (s : Scope), Kept s (run action s).1
  | .annotate name offset, s => by
    rw [run]
    split
    · exact .refl s
    · exact kept_declareAt ..
  | .declare name kind offset shadow, s => kept_declareAt ..
  | .use name offset, s => kept_useAt ..
  | .level body, s =>
    have hbody := (Kept.of_entries_eq s.entries_push).trans (kept_runAll body s.push)
    hbody.trans (.of_entries_eq (entries_pop _))
  | .loop name offset body, s => by
    have hbody := (kept_declareAt s name .loop offset true).trans (kept_runAll body _)
    rw [run]
    dsimp only
    split
    · exact hbody
    · rename_i hname
      exact kept_endLoop hname hbody
  | .closure bindings body, s => (kept_bind s .empty bindings).1
  | .brokenClosure bindings expected offset, s => (kept_bind s .empty bindings).1

theorem kept_runAll : ∀ (actions : List Action) (s : Scope), Kept s (runAll actions s).1
  | [], s => .refl s
  | action :: actions, s => (kept_run action s).trans (kept_runAll actions _)

end

theorem newEntry_congr {s : Scope} {name : Text} {later later' : List Text}
    (h : s.isDeclared name = false → (name ∈ later ↔ name ∈ later')) (kind : Kind) (offset : Nat)
    (shadow : Bool) :
    (newEntry s name kind offset shadow later).filterMap Entry.complaint? =
      (newEntry s name kind offset shadow later').filterMap Entry.complaint? := by
  unfold newEntry
  rcases s.declare_cases name kind (some offset) shadow with ⟨hname, hnew, -⟩ | ⟨-, hnew, -⟩
  · rw [if_pos hnew, if_pos hnew]
    simp only [List.filterMap_cons, Entry.complaint?, List.contains_iff_mem, h hname]
  · rw [if_neg hnew, if_neg hnew]

/-- What has no entry after a run had none before it. -/
theorem Kept.not_isDeclared {s s' : Scope} (h : Kept s s') {name : Text}
    (hname : s'.isDeclared name = false) : s.isDeclared name = false := by
  cases hs : s.isDeclared name with
  | false => rfl
  | true =>
    rw [h.entries.isDeclared hs] at hname
    cases hname

mutual

/-- Whether the entries are complained about depends only on the later uses of names that have no entry
yet. -/
theorem entered_congr : ∀ (action : Action) {s : Scope} {later later' : List Text},
    (∀ name, s.isDeclared name = false → (name ∈ later ↔ name ∈ later')) →
    (entered action s later).filterMap Entry.complaint? =
      (entered action s later').filterMap Entry.complaint?
  | .annotate name offset, _, _, _, h => newEntry_congr (h name) .annotated offset true
  | .declare name kind offset shadow, _, _, _, h => newEntry_congr (h name) kind offset shadow
  | .use _ _, _, _, _, _ => rfl
  | .level body, _, _, _, h => enteredAll_congr body h
  | .loop name offset body, s, later, later', h => by
    have hbody := enteredAll_congr body (s := (s.declareAt name .loop offset true).1)
      fun n hn => h n ((kept_declareAt s name .loop offset true).not_isDeclared hn)
    rw [entered, entered, List.filterMap_append, List.filterMap_append, hbody]
  | .closure _ _, _, _, _, _ => rfl
  | .brokenClosure _ _ _, _, _, _, _ => rfl

theorem enteredAll_congr : ∀ (actions : List Action) {s : Scope} {later later' : List Text},
    (∀ name, s.isDeclared name = false → (name ∈ later ↔ name ∈ later')) →
    (enteredAll actions s later).filterMap Entry.complaint? =
      (enteredAll actions s later').filterMap Entry.complaint?
  | [], _, _, _, _ => rfl
  | action :: actions, s, later, later', h => by
    have hfirst : ∀ name, s.isDeclared name = false →
        (name ∈ usedByAll actions ++ later ↔ name ∈ usedByAll actions ++ later') := by
      intro name hname
      rw [List.mem_append, List.mem_append, h name hname]
    have hrest := enteredAll_congr actions (s := (run action s).1)
      fun n hn => h n ((kept_run action s).not_isDeclared hn)
    rw [enteredAll, enteredAll, List.filterMap_append, List.filterMap_append,
      entered_congr action hfirst, hrest]

end

/-! ## 5. Complaints -/

theorem isUnused_of_complaint? {later : List Text} {entry : Text × Declaration} {f : Finding Problem}
    (h : complaint? later entry = some f) : isUnused f = true := by
  unfold complaint? at h
  split at h
  · cases h
  · obtain ⟨offset, -, h⟩ := Option.bind_eq_some_iff.mp h
    obtain ⟨problem, hproblem, rfl⟩ := Option.map_eq_some_iff.mp h
    cases hkind : entry.2.kind with
    | parameter => rw [hkind] at hproblem; cases hproblem
    | closureParameter => rw [hkind] at hproblem; cases hproblem
    | ordinary => rw [hkind] at hproblem; cases hproblem; rfl
    | loop => rw [hkind] at hproblem; cases hproblem; rfl
    | capture => rw [hkind] at hproblem; cases hproblem; rfl
    | annotated => rw [hkind] at hproblem; cases hproblem; rfl

theorem filter_reportUnused (s : Scope) : s.reportUnused.filter isUnused = s.reportUnused := by
  rw [List.filter_eq_self]
  intro f hf
  obtain ⟨entry, -, hentry⟩ := List.mem_filterMap.mp ((reportUnused_perm s).mem_iff.mp hf)
  exact isUnused_of_complaint? hentry

/-- The end of a loop removes the entry of its variable with the complaint about it. -/
theorem endLoop_eq {s : Scope} {name : Text} {d : Declaration} {later : List Text}
    (hd : s.get? name = some d) (hkind : d.kind = .loop) (hlater : name ∉ later) :
    s.endLoop name = (s.remove name, (complaint? later (name, d)).toList) := by
  unfold endLoop complaint?
  rw [hd]
  cases hoffset : d.offset with
  | none => simp [hoffset]
  | some offset =>
    cases hused : d.used with
    | true => simp [hused, hoffset]
    | false => simp [hused, hlater, hkind, hoffset, unusedProblem?]

theorem filter_toList_complaint? (later : List Text) (entry : Text × Declaration) :
    (complaint? later entry).toList.filter isUnused = (complaint? later entry).toList := by
  rw [List.filter_eq_self]
  intro f hf
  exact isUnused_of_complaint? (Option.mem_toList.mp hf)

theorem get?_declareAt_self {s : Scope} {name : Text} (hname : s.isDeclared name = false)
    (kind : Kind) (offset : Nat) (shadow : Bool) :
    (s.declareAt name kind offset shadow).1.get? name = some ⟨kind, false, some offset⟩ := by
  rw [declareAt_fst]
  rcases s.declare_cases name kind (some offset) shadow with ⟨-, -, h⟩ | ⟨hold, -, -⟩
  · have hnone : s.get? name = none := by
      rw [← Option.not_isSome_iff_eq_none]
      exact Bool.eq_false_iff.mp hname
    rw [get?, h, List.lookup_append]
    rw [get?] at hnone
    rw [hnone, List.lookup_cons_self]
    rfl
  · rw [hname] at hold
    cases hold

/-- A loop whose variable is new. The names used after the loop do not matter for its variable, so they are
left out while the body runs. -/
theorem loop_perm {s done : Scope} {name : Text} {offset : Nat} {found : List (Finding Problem)}
    {uses : List Text} {entries : List Text → List (Finding Problem)}
    (hname : s.isDeclared name = false) (hs : s.names.Nodup)
    (hkept : Kept (s.declareAt name .loop offset true).1 done)
    (hbody : ∀ later, (found.filter isUnused ++ done.pending later).Perm
      ((s.declareAt name .loop offset true).1.pending (uses ++ later) ++ entries later))
    (hentries : ∀ later, entries (later.filter (· ≠ name)) = entries later) (later : List Text) :
    ((found ++ (done.endLoop name).2).filter isUnused ++ (done.endLoop name).1.pending later).Perm
      (s.pending (uses ++ later) ++
        ((newEntry s name .loop offset true uses).filterMap Entry.complaint? ++ entries later)) := by
  let rest := later.filter (· ≠ name)
  have hrest : ∀ n, n ≠ name → (n ∈ rest ↔ n ∈ later) := by
    intro n hn
    simp [rest, hn]
  have hout : name ∉ rest := by simp [rest]
  obtain ⟨d, hd, hkind, -, -⟩ := hkept.entries name _ (get?_declareAt_self hname .loop offset true)
  have hdone := hkept.nodup ((kept_declareAt s name .loop offset true).nodup hs)
  have hremoved : (done.remove name).pending later = (done.remove name).pending rest := by
    apply pending_congr
    intro n hn
    refine (hrest n ?_).symm
    rintro rfl
    simp [names, remove] at hn
  have hbefore : s.pending (uses ++ rest) = s.pending (uses ++ later) := by
    apply pending_congr
    intro n hn
    have hne : n ≠ name := fun h => not_isDeclared_iff.mp hname (h ▸ hn)
    rw [List.mem_append, List.mem_append, hrest n hne]
  have hloop : s.isDeclared name = false → (name ∈ uses ++ rest ↔ name ∈ uses) := by
    intro _
    simp [hout]
  have hentry := newEntry_congr hloop .loop offset true
  rw [endLoop_eq hd hkind hout, hremoved, List.filter_append, filter_toList_complaint?,
    List.append_assoc]
  calc
    _ ~ found.filter isUnused ++ done.pending rest :=
      (List.perm_append_comm.trans (pending_remove hdone hd rest).symm).append_left _
    _ ~ _ := hbody rest
    _ = _ := by
      rw [pending_declareAt, hbefore, hentry, hentries, List.append_assoc]

/-- A closure complains about its own entries when its body is done. -/
theorem closure_perm {inner done : Scope} {bound found : List (Finding Problem)}
    {bindings : List Binding} {uses : List Text} {entries : List (Finding Problem)}
    (hbound : bound.filter isUnused = [])
    (hinner : inner.pending uses = (boundEntries .empty uses bindings).filterMap Entry.complaint?)
    (hbody : found.filter isUnused ++ done.pending [] ~ inner.pending uses ++ entries) :
    (bound ++ found ++ done.reportUnused).filter isUnused ~
      (boundEntries .empty uses bindings).filterMap Entry.complaint? ++ entries := by
  rw [List.filter_append, List.filter_append, hbound, List.nil_append, filter_reportUnused]
  calc
    _ ~ found.filter isUnused ++ done.pending [] := (reportUnused_perm done).append_left _
    _ ~ _ := hbody
    _ = _ := by rw [hinner]

mutual

/-- What an action complains about and what is still to come are what was to come before it, with the
entries that the action makes. -/
theorem run_perm : ∀ (action : Action) {s : Scope} (later : List Text), s.names.Nodup →
    (run action s).2.filter isUnused ++ (run action s).1.pending later ~
      s.pending (usedBy action ++ later) ++ (entered action s later).filterMap Entry.complaint?
  | .annotate name offset, s, later, _ => by
    rw [run]
    split
    · rename_i hname
      rcases s.declare_cases name .annotated (some offset) true with ⟨hnot, -, -⟩ | ⟨-, hold, -⟩
      · rw [hname] at hnot
        cases hnot
      · rw [entered, newEntry, if_neg hold, List.filterMap_nil, List.append_nil]
        exact .refl _
    · rw [filter_declareAt, pending_declareAt]
      exact .refl _
  | .declare name kind offset shadow, s, later, _ => by
    rw [run, filter_declareAt, pending_declareAt]
    exact .refl _
  | .use name offset, s, later, _ => by
    rw [run, filter_useAt, pending_useAt, entered, List.filterMap_nil, List.append_nil]
    exact .refl _
  | .level body, s, later, hs => by
    have hbody := runAll_perm body (s := s.push) later hs
    have hpop : (runAll body s.push).1.pop.pending later = (runAll body s.push).1.pending later := by
      rw [pending, entries_pop]
      rfl
    rw [run]
    dsimp only
    rw [hpop]
    exact hbody
  | .loop name offset body, s, later, hs => by
    have hbegun := (kept_declareAt s name .loop offset true).nodup hs
    have hbody := fun later => runAll_perm body later hbegun
    rw [run, entered, List.filterMap_append]
    dsimp only
    split
    · -- the name was there before, so nothing is entered and nothing ends with the loop
      rename_i hname
      rw [List.filter_append, filter_declareAt, List.nil_append]
      have hold : s.isDeclared name = false →
          (name ∈ usedByAll body ↔ name ∈ usedByAll body ++ later) := by
        rw [hname]
        exact fun h => nomatch h
      rw [newEntry_congr hold, ← List.append_assoc, usedBy, ← pending_declareAt]
      exact hbody later
    · -- the entry ends with the loop, so a later use of its name is not one of it
      rename_i hname
      rw [List.append_assoc, List.filter_append, filter_declareAt, List.nil_append]
      refine loop_perm (Bool.not_eq_true _ ▸ hname) hs (kept_runAll body _) hbody ?_ later
      intro later
      apply enteredAll_congr
      intro n hn
      have hne : n ≠ name := by
        rintro rfl
        have hself := get?_declareAt_self (Bool.not_eq_true _ ▸ hname) .loop offset true
        rw [isDeclared, hself] at hn
        cases hn
      simp [hne]
  | .closure bindings body, s, later, _ => by
    -- the body runs in a scope of its own, after which no name of that scope is used
    have hempty : empty.names.Nodup := List.nodup_nil
    have hbody := runAll_perm body [] ((kept_bind s .empty bindings).2.nodup hempty)
    rw [List.append_nil] at hbody
    have hinner := pending_bind_inner s .empty bindings (usedByAll body)
    have hperm := closure_perm (filter_bind s .empty bindings) hinner hbody
    rw [run, entered, List.filterMap_append, usedBy, ← pending_bind s .empty bindings later]
    exact (hperm.append_right _).trans List.perm_append_comm
  | .brokenClosure bindings expected offset, s, later, _ => by
    rw [run, entered, usedBy, ← pending_bind s .empty bindings later, List.filterMap_nil,
      List.append_nil, List.filter_append, filter_bind]
    exact .refl _

theorem runAll_perm : ∀ (actions : List Action) {s : Scope} (later : List Text), s.names.Nodup →
    (runAll actions s).2.filter isUnused ++ (runAll actions s).1.pending later ~
      s.pending (usedByAll actions ++ later) ++
        (enteredAll actions s later).filterMap Entry.complaint?
  | [], s, later, _ => by
    rw [runAll, enteredAll, List.filterMap_nil, List.append_nil]
    exact .refl _
  | action :: actions, s, later, hs => by
    have hfirst := run_perm action (usedByAll actions ++ later) hs
    have hrest := runAll_perm actions later ((kept_run action s).nodup hs)
    rw [runAll, enteredAll, usedByAll, List.filter_append, List.filterMap_append, List.append_assoc,
      List.append_assoc]
    calc
      _ ~ _ := hrest.append_left _
      _ = _ := (List.append_assoc _ _ _).symm
      _ ~ _ := hfirst.append_right _
      _ = _ := List.append_assoc _ _ _

end

/-! ## 6. Whole algorithms -/

-- the variable of a loop that uses it, and then a variable of the same name that nothing uses
example : (enteredAll [.loop ['x'] 3 [.use ['x'] 9], .declare ['x'] .ordinary 20 false] (seeded []) []
    ).filterMap Entry.complaint? = [⟨.unusedDeclaration ['x'], 20⟩] := by
  decide

end Errata.Scope
