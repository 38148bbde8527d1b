import Errata.Proofs.Finding
import Errata.Proofs.Scope.Entries
import Errata.Proofs.Step.Placement
import Errata.Scope.Reading

/-!
# Where problems of scope are found

The actions of an algorithm name positions of its text, so all that is found in running them is at
positions of the text.
-/

namespace Errata.Scope

open Text

/-! ## 1. Running actions -/

def Binding.offset : Binding → Nat
  | .parameter _ offset => offset
  | .capture _ offset => offset

/-- All positions that the action names are positions of the text. -/
inductive Action.Placed (t : Text) : Action → Prop
  | annotate {name : Text} {offset : Nat} (h : t.IsPosition offset) : Placed t (.annotate name offset)
  | declare {name : Text} {kind : Kind} {offset : Nat} {shadow : Bool} (h : t.IsPosition offset) :
      Placed t (.declare name kind offset shadow)
  | use {name : Text} {offset : Nat} (h : t.IsPosition offset) : Placed t (.use name offset)
  | level {body : List Action} (hbody : ∀ a ∈ body, Placed t a) : Placed t (.level body)
  | loop {name : Text} {offset : Nat} {body : List Action} (h : t.IsPosition offset)
      (hbody : ∀ a ∈ body, Placed t a) : Placed t (.loop name offset body)
  | closure {bindings : List Binding} {body : List Action}
      (hbindings : ∀ b ∈ bindings, t.IsPosition b.offset) (hbody : ∀ a ∈ body, Placed t a) :
      Placed t (.closure bindings body)
  | brokenClosure {bindings : List Binding} {expected : ClosurePart} {offset : Nat}
      (hbindings : ∀ b ∈ bindings, t.IsPosition b.offset) (h : t.IsPosition offset) :
      Placed t (.brokenClosure bindings expected offset)

/-- The entries of the scope were declared at positions of the text. -/
def EntriesIn (t : Text) (s : Scope) : Prop :=
  ∀ entry ∈ s.entries, ∀ offset, entry.2.offset = some offset → t.IsPosition offset

section Running

variable {t : Text} {s : Scope}

theorem entriesIn_declare (hs : s.EntriesIn t) (name : Text) (kind : Kind) {offset : Option Nat}
    (hoffset : ∀ n, offset = some n → t.IsPosition n) (shadow : Bool) :
    (s.declare name kind offset shadow).1.EntriesIn t := by
  unfold EntriesIn
  rcases s.declare_cases name kind offset shadow with ⟨-, -, h⟩ | ⟨-, -, h⟩
  · rw [h]
    refine List.forall_mem_append.mpr ⟨hs, fun entry hentry => ?_⟩
    rw [List.mem_singleton.mp hentry]
    exact hoffset
  · rw [h]
    exact hs

theorem entriesIn_seeded (t : Text) (names : List Text) : (seeded names).EntriesIn t := by
  unfold seeded
  suffices h : ∀ s : Scope, s.EntriesIn t →
      (names.foldl (fun s name => (s.declare name .parameter none true).1) s).EntriesIn t from
    h empty (List.forall_mem_nil _)
  induction names with
  | nil => exact fun _ hs => hs
  | cons name names ih =>
    intro s hs
    have hnone : ∀ n, none = some n → t.IsPosition n := fun _ hn => nomatch hn
    exact ih _ (entriesIn_declare hs name .parameter hnone true)

theorem entriesIn_use (hs : s.EntriesIn t) (name : Text) : (s.use name).EntriesIn t := by
  intro entry hentry
  obtain ⟨old, hold, rfl⟩ := List.mem_map.mp hentry
  split
  · exact hs old hold
  · exact hs old hold

theorem entriesIn_remove (hs : s.EntriesIn t) (name : Text) : (s.remove name).EntriesIn t :=
  fun entry hentry => hs entry (List.mem_filter.mp hentry).1

/-- Running keeps the entries at positions and finds problems there only. -/
def RunsIn (t : Text) (result : Scope × List (Finding Problem)) : Prop :=
  result.1.EntriesIn t ∧ FoundIn t result.2

theorem runsIn_declareAt (hs : s.EntriesIn t) (name : Text) (kind : Kind) {offset : Nat}
    (hoffset : t.IsPosition offset) (shadow : Bool) :
    RunsIn t (s.declareAt name kind offset shadow) := by
  have hsome : ∀ n, some offset = some n → t.IsPosition n := fun _ hn => Option.some.inj hn ▸ hoffset
  have hdeclare := entriesIn_declare hs name kind hsome shadow
  unfold declareAt
  split
  · rename_i s' heq
    rw [heq] at hdeclare
    exact ⟨hdeclare, foundIn_singleton hoffset⟩
  · rename_i s' declared _ heq
    rw [heq] at hdeclare
    exact ⟨hdeclare, foundIn_nil t⟩

theorem runsIn_useAt (hs : s.EntriesIn t) (name : Text) {offset : Nat}
    (hoffset : t.IsPosition offset) : RunsIn t (s.useAt name offset) := by
  unfold useAt
  split
  · exact ⟨entriesIn_use hs name, foundIn_nil t⟩
  · exact ⟨hs, foundIn_singleton hoffset⟩

theorem foundIn_reportUnused (hs : s.EntriesIn t) : FoundIn t s.reportUnused := by
  intro f hf
  obtain ⟨entry, hentry, hf⟩ := List.mem_filterMap.mp hf
  simp only [Option.bind_eq_bind, Option.bind_eq_some_iff] at hf
  obtain ⟨offset, hoffset, problem, -, heq⟩ := hf
  cases heq
  have hmem := (List.mem_filter.mp (List.mem_mergeSort.mp hentry)).1
  exact hs entry hmem offset hoffset

theorem runsIn_endLoop (hs : s.EntriesIn t) (name : Text) : RunsIn t (s.endLoop name) := by
  unfold endLoop
  split
  · exact ⟨hs, foundIn_nil t⟩
  · rename_i declaration hget
    refine ⟨entriesIn_remove hs name, ?_⟩
    obtain ⟨before, after, hentries, -⟩ := List.lookup_eq_some_iff.mp hget
    have hentry := hs (name, declaration) (by simp [hentries])
    dsimp only
    split
    · rename_i offset hoffset
      split
      · exact foundIn_nil t
      · exact foundIn_singleton (hentry offset hoffset)
    · exact foundIn_nil t

theorem bind_in {inner : Scope} (hs : s.EntriesIn t) (hinner : inner.EntriesIn t)
    {bindings : List Binding} (h : ∀ b ∈ bindings, t.IsPosition b.offset) :
    (bind s inner bindings).1.EntriesIn t ∧ (bind s inner bindings).2.1.EntriesIn t ∧
      FoundIn t (bind s inner bindings).2.2 := by
  induction bindings generalizing s inner with
  | nil => exact ⟨hs, hinner, foundIn_nil t⟩
  | cons b bindings ih =>
    obtain ⟨hb, hrest⟩ := List.forall_mem_cons.mp h
    cases b with
    | parameter name offset =>
      obtain ⟨hdeclared, hfound⟩ := runsIn_declareAt hinner name .closureParameter hb false
      obtain ⟨houter, hinside, hothers⟩ := ih hs hdeclared hrest
      exact ⟨houter, hinside, hfound.append hothers⟩
    | capture name offset =>
      obtain ⟨hused, hfoundUse⟩ := runsIn_useAt hs name hb
      obtain ⟨hdeclared, hfound⟩ := runsIn_declareAt hinner name .capture hb false
      obtain ⟨houter, hinside, hothers⟩ := ih hused hdeclared hrest
      exact ⟨houter, hinside, (hfoundUse.append hfound).append hothers⟩

theorem runsIn_runAll {actions : List Action}
    (h : ∀ a ∈ actions, ∀ s : Scope, s.EntriesIn t → RunsIn t (run a s)) (hs : s.EntriesIn t) :
    RunsIn t (runAll actions s) := by
  induction actions generalizing s with
  | nil => exact ⟨hs, foundIn_nil t⟩
  | cons a actions ih =>
    obtain ⟨ha, hactions⟩ := List.forall_mem_cons.mp h
    obtain ⟨hdone, hfound⟩ := ha s hs
    obtain ⟨hall, hothers⟩ := ih hactions hdone
    exact ⟨hall, hfound.append hothers⟩

theorem runsIn_run {a : Action} (ha : a.Placed t) : ∀ s : Scope, s.EntriesIn t → RunsIn t (run a s) := by
  have hempty : Scope.empty.EntriesIn t := List.forall_mem_nil _
  induction ha with
  | @annotate name offset h =>
    intro s hs
    rw [run]
    split
    · exact ⟨hs, foundIn_singleton h⟩
    · exact runsIn_declareAt hs name .annotated h true
  | @declare name kind offset shadow h => exact fun s hs => runsIn_declareAt hs name kind h shadow
  | @use name offset h => exact fun s hs => runsIn_useAt hs name h
  | @level body hbody ih =>
    intro s hs
    obtain ⟨hdone, hfound⟩ := runsIn_runAll ih (s := s.push) hs
    refine ⟨?_, hfound⟩
    unfold EntriesIn
    rw [run, entries_pop]
    exact hdone
  | @loop name offset body h hbody ih =>
    intro s hs
    obtain ⟨hbegun, hdeclared⟩ := runsIn_declareAt hs name .loop h true
    obtain ⟨hdone, hfound⟩ := runsIn_runAll ih hbegun
    obtain ⟨hended, hunused⟩ := runsIn_endLoop hdone name
    rw [run]
    dsimp only
    split
    · exact ⟨hdone, hdeclared.append hfound⟩
    · exact ⟨hended, (hdeclared.append hfound).append hunused⟩
  | @closure bindings body hbindings hbody ih =>
    intro s hs
    obtain ⟨houter, hinside, hbound⟩ := bind_in hs hempty hbindings
    obtain ⟨hdone, hfound⟩ := runsIn_runAll ih hinside
    exact ⟨houter, (hbound.append hfound).append (foundIn_reportUnused hdone)⟩
  | @brokenClosure bindings expected offset hbindings h =>
    intro s hs
    obtain ⟨houter, -, hbound⟩ := bind_in hs hempty hbindings
    exact ⟨houter, hbound.append (foundIn_singleton h)⟩

theorem foundIn_findings {actions : List Action} (h : ∀ a ∈ actions, a.Placed t)
    (seeds : List Text) : FoundIn t (findings seeds actions) := by
  obtain ⟨hdone, hfound⟩ := runsIn_runAll (fun a ha => runsIn_run (h a ha)) (entriesIn_seeded t seeds)
  exact hfound.append (foundIn_reportUnused hdone)

end Running

/-! ## 2. Words -/

section Words

variable {t : Text} {items : List Item}

theorem placed_annotations {offset : Nat} {pieces : List Text} (h : t.HoldsPieces offset pieces) :
    ∀ a ∈ annotations offset pieces, a.Placed t := by
  induction pieces generalizing offset with
  | nil => exact List.forall_mem_nil _
  | cons piece pieces ih =>
    rw [annotations]
    split
    · exact ih h.2
    · exact List.forall_mem_cons.mpr ⟨.annotate h.1.isPosition_trimStart, ih h.2⟩

theorem placed_attributeActions {step : Step} (h : step.Placed t) :
    ∀ a ∈ attributeActions step, a.Placed t := by
  unfold attributeActions
  split
  · exact List.forall_mem_nil _
  · rename_i a hfound
    have hvalue : t.Holds a.value.offset a.value.text :=
      (h.attributes a (List.mem_of_find?_eq_some hfound)).2
    exact placed_annotations (hvalue.pieces rfl)

/-- The variables that are listed before an item are among the items before it. -/
theorem listedBefore_in {before : List Item} (h : ∀ item ∈ before, item.Placed t) :
    ∀ token ∈ (listedBefore before).1, token.In t := by
  fun_induction listedBefore before with
  | case1 separator item before text token htoken htext hseparator tokens rest heq ih =>
    obtain ⟨-, hrest⟩ := List.forall_mem_cons.mp h
    obtain ⟨hitem, hbefore⟩ := List.forall_mem_cons.mp hrest
    rw [heq] at ih
    exact List.forall_mem_cons.mpr ⟨hitem.var htoken, ih hbefore⟩
  | case2 => exact List.forall_mem_nil _
  | case3 => exact List.forall_mem_nil _
  | case4 => exact List.forall_mem_nil _

theorem declaredWith_in {conditional : Bool} {before : List Item} {token : Fragment} {next : Text}
    {tokens : List Fragment} {shadow : Bool} (hbefore : ∀ item ∈ before, item.Placed t)
    (htoken : token.In t) (h : declaredWith conditional before token next = some (tokens, shadow)) :
    ∀ f ∈ tokens, f.In t := by
  have htogether : ∀ f ∈ (token :: (listedBefore before).1).reverse, f.In t := fun f hf =>
    List.forall_mem_cons.mpr ⟨htoken, listedBefore_in hbefore⟩ f (List.mem_reverse.mp hf)
  unfold declaredWith at h
  split at h
  · cases h
    exact List.forall_mem_singleton.mpr htoken
  dsimp only at h
  split at h
  · split at h
    · cases h
      exact htogether
    · cases h
  split at h
  · cases h
    exact htogether
  · cases h

theorem placed_declarations {conditional : Bool} {before : List Item} {declared : List Nat}
    (hbefore : ∀ item ∈ before, item.Placed t) (h : ∀ item ∈ items, item.Placed t) :
    ∀ a ∈ (declarations conditional before declared items).1, a.Placed t := by
  induction items generalizing before declared with
  | nil => exact List.forall_mem_nil _
  | cons item items ih =>
    obtain ⟨hitem, hitems⟩ := List.forall_mem_cons.mp h
    have hskip : ∀ declared, ∀ a ∈ (declarations conditional (item :: before) declared items).1,
        a.Placed t := fun declared =>
      ih (List.forall_mem_cons.mpr ⟨hitem, hbefore⟩) hitems
    rw [declarations]
    split
    · exact hskip declared
    · rename_i token hvar
      split
      · exact hskip declared
      · split
        · exact hskip declared
        · rename_i tokens shadow hdeclared
          refine List.forall_mem_append.mpr ⟨fun a ha => ?_, hskip _⟩
          obtain ⟨f, hf, rfl⟩ := List.mem_map.mp ha
          have hin := declaredWith_in hbefore (hitem.var hvar) hdeclared f (List.mem_filter.mp hf).1
          exact .declare hin.isPosition

theorem placed_uses {declared : List Nat} {tokens : List Fragment} (h : ∀ f ∈ tokens, f.In t) :
    ∀ a ∈ uses declared tokens, a.Placed t := by
  intro a ha
  obtain ⟨f, hf, rfl⟩ := List.mem_map.mp ha
  exact .use (h f (List.mem_filter.mp hf).1).isPosition

theorem placed_wordActions {items : Expression} (h : Expression.Placed t items) (declared : List Nat) :
    ∀ a ∈ wordActions items declared, a.Placed t :=
  List.forall_mem_append.mpr
    ⟨placed_declarations (List.forall_mem_nil _) h.mem, placed_uses h.leaves⟩

theorem loopVar?_in {items : Expression} (h : Expression.Placed t items) {token : Fragment}
    (hvar : loopVar? items = some token) : token.In t := by
  unfold loopVar? at hvar
  split at hvar
  · obtain ⟨item, hitem, hfound⟩ := List.exists_of_findSome?_eq_some hvar
    exact (h.mem item hitem).var hfound
  · cases hvar

/-! ## 3. Closures -/

/-- The bindings of an introduction, and what is wrong in it, are at positions of the text. -/
def IntroducedIn (t : Text) (found : Introduction) : Prop :=
  (∀ b ∈ found.1, t.IsPosition b.offset) ∧ ∀ part offset, found.2 = some (part, offset) →
    t.IsPosition offset

theorem introducedIn_nothing (t : Text) : IntroducedIn t ([], none) :=
  ⟨List.forall_mem_nil _, fun _ _ hwrong => nomatch hwrong⟩

theorem introducedIn_wrong {part : ClosurePart} {offset : Nat} (h : t.IsPosition offset) :
    IntroducedIn t ([], some (part, offset)) := by
  refine ⟨List.forall_mem_nil _, fun _ _ hwrong => ?_⟩
  cases hwrong
  exact h

/-- One more binding before those of an introduction. -/
theorem IntroducedIn.cons {found : Introduction} (h : IntroducedIn t found) {b : Binding}
    (hb : t.IsPosition b.offset) : IntroducedIn t (b :: found.1, found.2) :=
  ⟨List.forall_mem_cons.mpr ⟨hb, h.1⟩, h.2⟩

theorem introducedIn_parameterBindings (h : ∀ item ∈ items, item.Placed t) :
    IntroducedIn t (parameterBindings items) := by
  fun_induction parameterBindings items with
  | case1 => exact introducedIn_nothing t
  | case2 item hvar => exact introducedIn_wrong (h item List.mem_cons_self).start
  | case3 item token hvar =>
    exact (introducedIn_nothing t).cons ((h item List.mem_cons_self).var hvar).isPosition
  | case4 item comma items hvar => exact introducedIn_wrong (h item List.mem_cons_self).start
  | case5 item comma items token hvar first =>
    have hcomma := h comma (List.mem_cons_of_mem _ List.mem_cons_self)
    exact (introducedIn_wrong hcomma.start).cons ((h item List.mem_cons_self).var hvar).isPosition
  | case6 item comma items token hvar first =>
    have hcomma := h comma (List.mem_cons_of_mem _ List.mem_cons_self)
    exact (introducedIn_wrong hcomma.stop).cons ((h item List.mem_cons_self).var hvar).isPosition
  | case7 item comma items token hvar first _ _ others wrong heq ih =>
    obtain ⟨hitem, hrest⟩ := List.forall_mem_cons.mp h
    rw [heq] at ih
    exact (ih (List.forall_mem_cons.mp hrest).2).cons (hitem.var hvar).isPosition

theorem introducedIn_captureBindings {stop : Nat} (hstop : t.IsPosition stop)
    (h : ∀ item ∈ items, item.Placed t) : IntroducedIn t (captureBindings stop items) := by
  fun_induction captureBindings stop items with
  | case1 => exact introducedIn_wrong hstop
  | case2 stop item items hvar => exact introducedIn_wrong (h item List.mem_cons_self).start
  | case3 stop item token hvar first =>
    have hitem := h item List.mem_cons_self
    exact (introducedIn_wrong hitem.stop).cons (hitem.var hvar).isPosition
  | case4 stop item token hvar first separator rest htext =>
    have hseparator := h separator (List.mem_cons_of_mem _ List.mem_cons_self)
    exact (introducedIn_wrong hseparator.start).cons ((h item List.mem_cons_self).var hvar).isPosition
  | case5 stop item token hvar first separator rest text htext _ others wrong heq ih =>
    obtain ⟨hitem, hafter⟩ := List.forall_mem_cons.mp h
    obtain ⟨hseparator, hrest⟩ := List.forall_mem_cons.mp hafter
    rw [heq] at ih
    exact (ih hseparator.stop hrest).cons (hitem.var hvar).isPosition
  | case6 stop item token hvar first separator rest text htext =>
    exact (introducedIn_nothing t).cons ((h item List.mem_cons_self).var hvar).isPosition
  | case7 stop item token hvar first separator rest text htext =>
    have hseparator := h separator (List.mem_cons_of_mem _ List.mem_cons_self)
    exact (introducedIn_wrong hseparator.start).cons ((h item List.mem_cons_self).var hvar).isPosition

theorem afterWords_in {words : String} {stop : Nat} {rest : List Item}
    (h : ∀ item ∈ items, item.Placed t) (hfound : afterWords words items = some (stop, rest)) :
    t.IsPosition stop ∧ ∀ item ∈ rest, item.Placed t := by
  induction items with
  | nil => cases hfound
  | cons item items ih =>
    obtain ⟨hitem, hitems⟩ := List.forall_mem_cons.mp h
    rw [afterWords] at hfound
    split at hfound
    · cases hfound
      exact ⟨hitem.stop, hitems⟩
    · exact ih hitems hfound

theorem introducedIn_introduction (h : ∀ item ∈ items, item.Placed t) :
    IntroducedIn t (introduction items) := by
  have hparameters : IntroducedIn t (closureParameters items) := by
    unfold closureParameters
    split
    · exact introducedIn_nothing t
    · rename_i stop hfound
      exact introducedIn_wrong (afterWords_in h hfound).1
    · rename_i stop span inner rest hfound
      obtain ⟨hinside, hinner⟩ :=
        Expression.Placed.paren ((afterWords_in h hfound).2 _ List.mem_cons_self)
      split
      · exact introducedIn_wrong hinside
      · exact introducedIn_parameterBindings hinner.mem
    · rename_i stop item rest _ hfound
      exact introducedIn_wrong ((afterWords_in h hfound).2 item List.mem_cons_self).start
  have hcaptures : IntroducedIn t (closureCaptures items) := by
    unfold closureCaptures
    split
    · exact introducedIn_nothing t
    · rename_i stop rest hfound
      obtain ⟨hstop, hrest⟩ := afterWords_in h hfound
      exact introducedIn_captureBindings hstop hrest
  unfold introduction
  split
  · rename_i parameters wrong heq
    rw [heq] at hparameters
    exact hparameters
  · rename_i parameters heq
    rw [heq] at hparameters
    exact ⟨List.forall_mem_append.mpr ⟨hparameters.1, hcaptures.1⟩, hcaptures.2⟩

theorem placed_closureVar {items : Expression} (h : Expression.Placed t items) :
    ∀ a ∈ closureVar items, a.Placed t := by
  unfold closureVar
  split
  · rename_i first token after rest
    split
    · have hitem := h.mem (.leaf .var token) (by simp)
      exact fun a ha => List.mem_singleton.mp ha ▸ .declare (hitem.var rfl).isPosition
    · exact List.forall_mem_nil _
  · exact List.forall_mem_nil _

theorem placed_closureAction (h : ∀ item ∈ items, item.Placed t) {body : List Action}
    (hbody : ∀ a ∈ body, a.Placed t) : (closureAction items body).Placed t := by
  have hintroduced := introducedIn_introduction h
  unfold closureAction
  split
  · rename_i bindings heq
    rw [heq] at hintroduced
    exact .closure hintroduced.1 hbody
  · rename_i bindings expected offset heq
    rw [heq] at hintroduced
    exact .brokenClosure hintroduced.1 (hintroduced.2 expected offset rfl)

end Words

/-! ## 4. Steps -/

section Steps

variable {t : Text} {cache : Cache}

/-- Whether a step acts or only uses variables, its actions are at positions of the text. -/
def ActsIn (t : Text) (cache : Cache) (step : Step) : Prop :=
  (∀ a ∈ stepActions cache step, a.Placed t) ∧ ∀ a ∈ stepUses cache step, a.Placed t

theorem placed_orderedActions {steps : List Step} (h : ∀ step ∈ steps, ActsIn t cache step) :
    ∀ a ∈ orderedActions cache steps, a.Placed t := by
  induction steps with
  | nil => exact List.forall_mem_nil _
  | cons step steps ih =>
    obtain ⟨hstep, hsteps⟩ := List.forall_mem_cons.mp h
    exact List.forall_mem_append.mpr ⟨hstep.1, ih hsteps⟩

theorem placed_unorderedActions {steps : List Step} (h : ∀ step ∈ steps, ActsIn t cache step) :
    ∀ a ∈ unorderedActions cache steps, a.Placed t := by
  induction steps with
  | nil => exact List.forall_mem_nil _
  | cons step steps ih =>
    obtain ⟨hstep, hsteps⟩ := List.forall_mem_cons.mp h
    exact List.forall_mem_append.mpr ⟨hstep.2, ih hsteps⟩

/-- The substeps of a step act as a level, as uses, or as the body of a closure. -/
theorem placed_sublist {sublist : Option StepList}
    (h : ∀ list, sublist = some list → ∀ step ∈ list.steps, ActsIn t cache step) :
    (∀ a ∈ sublistActions cache sublist, a.Placed t) ∧
      (∀ a ∈ sublistUses cache sublist, a.Placed t) ∧
      ∀ a ∈ closureBody cache sublist, a.Placed t := by
  cases sublist with
  | none =>
    exact ⟨List.forall_mem_nil _, List.forall_mem_nil _, List.forall_mem_nil _⟩
  | some list =>
    obtain ⟨kind, steps⟩ := list
    have hordered := placed_orderedActions (h ⟨kind, steps⟩ rfl)
    have hunordered := placed_unorderedActions (h ⟨kind, steps⟩ rfl)
    cases kind with
    | ordered =>
      exact ⟨fun a ha => List.mem_singleton.mp ha ▸ .level hordered, hunordered, hordered⟩
    | unordered =>
      exact ⟨hunordered, hunordered, List.forall_mem_nil _⟩

theorem actsIn_of_placed (hcache : ∀ entry ∈ cache, Expression.Placed t entry.2) {step : Step}
    (h : step.Everywhere (Step.Placed t)) : ActsIn t cache step := by
  induction h with
  | @intro step here _ ih =>
    have hattribute := placed_attributeActions here
    obtain ⟨id, marker, attributes, content, sublist⟩ := step
    obtain ⟨hbelow, huses, hbody⟩ := placed_sublist ih
    constructor
    · rw [stepActions]
      split
      · exact List.forall_mem_nil _
      · rename_i items hitems
        have hplaced := Cache.placed_get? hcache hitems
        refine List.forall_mem_append.mpr ⟨hattribute, ?_⟩
        split
        · refine List.forall_mem_append.mpr ⟨placed_closureVar hplaced, fun a ha => ?_⟩
          rw [List.mem_singleton.mp ha]
          exact placed_closureAction hplaced.mem hbody
        · split
          · rename_i token hvar
            intro a ha
            rw [List.mem_singleton.mp ha]
            exact .loop (loopVar?_in hplaced hvar).isPosition
              (List.forall_mem_append.mpr ⟨placed_wordActions hplaced _, hbelow⟩)
          · exact List.forall_mem_append.mpr ⟨placed_wordActions hplaced [], hbelow⟩
    · rw [stepUses]
      split
      · exact List.forall_mem_nil _
      · rename_i items hitems
        have hplaced := Cache.placed_get? hcache hitems
        exact List.forall_mem_append.mpr ⟨placed_uses hplaced.leaves, huses⟩

theorem foundIn_findings_actions (hcache : ∀ entry ∈ cache, Expression.Placed t entry.2)
    {list : StepList} (h : ∀ step ∈ list.steps, step.Everywhere (Step.Placed t))
    (seeds : List Text) : FoundIn t (findings seeds (actions cache list)) :=
  foundIn_findings (placed_orderedActions fun step hstep => actsIn_of_placed hcache (h step hstep))
    seeds

end Steps

end Errata.Scope
