import Errata.Proofs.Expression.Tiling
import Errata.Proofs.Step.Layout
import Errata.Step.Cache

/-!
# Where steps stand

All that is read from the text of an algorithm stands at positions of it: markers, attributes, contents
and their items, and the errors that reading ends with.
-/

namespace Errata

open Text

namespace Step

/-! ## 1. Heads -/

/-- The key and the value are written in the text where they say. -/
def AttributeIn (t : Text) (a : StepAttribute) : Prop := a.key.In t ∧ a.value.In t

section Heads

variable {t : Text} {c : Cursor}

theorem in_attributeAt? {d : Cursor} {a : StepAttribute} (hc : c.In t)
    (h : attributeAt? c = some (a, d)) : AttributeIn t a ∧ d.In t := by
  simp only [attributeAt?, Option.bind_eq_bind, Option.bind_eq_some_iff] at h
  obtain ⟨⟨key, afterKey⟩, hkey, ⟨sign, inQuotes⟩, hquotes, h⟩ := h
  obtain ⟨hkeyIn, hafterKey⟩ := hc.skipBlanks.scan? hkey
  have hinQuotes := (hafterKey.scan? hquotes).2
  split at h
  · cases h
    exact ⟨⟨hkeyIn, hinQuotes.fragment _⟩, hinQuotes.advance _⟩
  · cases h

theorem ends_attributesAt (hc : c.In t) :
    Ends (fun e => t.IsPosition e.offset)
      (fun found => (∀ a ∈ found.1, AttributeIn t a) ∧ found.2.In t) (attributesAt c) := by
  fun_induction attributesAt c with
  | case1 c => exact hc.isPosition
  | case2 c first d hfirst _ rest hrest ih =>
    obtain ⟨ha, hd⟩ := in_attributeAt? hc hfirst
    refine (ih (hd.skipBlanks.advance 1).skipBlanks).bind fun found hfound => ?_
    exact ⟨List.forall_mem_cons.mpr ⟨ha, hfound.1⟩, hfound.2⟩
  | case3 c first d hfirst _ rest hrest =>
    obtain ⟨ha, hd⟩ := in_attributeAt? hc hfirst
    refine ⟨fun a hmem => ?_, (hd.skipBlanks.advance 1).skipBlanks⟩
    rw [List.mem_singleton.mp hmem]
    exact ha
  | case4 c first d hfirst => exact (in_attributeAt? hc hfirst).2.isPosition

theorem ends_headOf {line : Line} (hline : t.Holds line.start line.text) :
    Ends (fun e => t.IsPosition e.offset)
      (fun head => head.marker.In t ∧ ∀ a ∈ head.attributes, AttributeIn t a) (headOf line) := by
  have hstart : (Cursor.atStart line.text line.start).In t := hline
  unfold headOf
  dsimp only
  split
  · exact hline.start
  · rename_i n hmarker
    have hbody := (hstart.advance n).skipBlanks
    split
    · refine (ends_attributesAt (hbody.advance 1)).bind fun found hfound => ?_
      exact ⟨hstart.fragment n, hfound.1⟩
    · exact ⟨hstart.fragment n, List.forall_mem_nil _⟩

end Heads

/-! ## 2. Errors -/

theorem ends_readList {t : Text} {fuel indent : Nat} {kind : Option ListKind} {id : StepId}
    {lines : List Line} (hlines : ∀ line ∈ lines, t.Holds line.start line.text) :
    Ends (fun e => t.IsPosition e.offset) (fun found => found.2.1 ⊆ lines)
      (readList fuel indent kind id lines) := by
  induction fuel generalizing indent kind id lines with
  | zero =>
    cases lines with
    | nil => exact List.Subset.refl _
    | cons line lines => exact List.Subset.refl _
  | succ fuel ih =>
    cases lines with
    | nil => exact List.Subset.refl _
    | cons line lines =>
      obtain ⟨hline, hothers⟩ := List.forall_mem_cons.mp hlines
      rw [readList]
      split
      · exact List.Subset.refl _
      split
      · exact hline.start
      refine (ends_headOf hline).bind fun head hhead => ?_
      have hdrop : lines.dropWhile (continues line) ⊆ lines := (List.dropWhile_sublist _).subset
      -- a step is joined to the list in the same way whether or not there are steps below it
      have hfinish : ∀ (step : Step) (after : List Line) (next : StepId), step.marker.In t →
          after ⊆ lines → Ends (fun e : StepError => t.IsPosition e.offset)
            (fun found => found.2.1 ⊆ line :: lines)
            (if kind.any (· ≠ step.kind) then .error (.inconsistentMarkers step.marker.offset)
              else readList fuel indent (some step.kind) next after >>= fun read =>
                .ok (step :: read.1, read.2)) := by
        intro step after next hmarker hafter
        split
        · exact hmarker.isPosition
        · refine (ih fun l hl => hothers l (hafter hl)).bind fun read hread => ?_
          exact fun l hl => List.mem_cons_of_mem line (hafter (hread hl))
      dsimp only
      split
      · exact hfinish _ [] (id + 1) hhead.1 (List.nil_subset _)
      · rename_i first others hbelow
        rw [hbelow] at hdrop
        split
        · refine Ends.bind (ih fun l hl => hothers l (hdrop hl)) fun read hread => ?_
          exact hfinish _ read.2.1 read.2.2 hhead.1 fun l hl => hdrop (hread hl)
        · exact hfinish _ (first :: others) (id + 1) hhead.1 hdrop

/-! ## 3. Steps -/

/-- What a step holds is written in the text where it says. -/
structure Placed (t : Text) (step : Step) : Prop where
  marker : step.marker.In t
  attributes : ∀ a ∈ step.attributes, AttributeIn t a
  content : step.content.In t

/-- A step and all steps below it have a property. -/
inductive Everywhere (P : Step → Prop) : Step → Prop
  | intro {step : Step} (here : P step)
      (below : ∀ list, step.sublist = some list → ∀ s ∈ list.steps, Everywhere P s) :
      Everywhere P step

theorem Everywhere.here {P : Step → Prop} {step : Step} (h : step.Everywhere P) : P step := by
  cases h with
  | intro here below => exact here

theorem steps_of_sublistOf {substeps : List Step} {list : StepList}
    (h : sublistOf substeps = some list) : list.steps = substeps := by
  cases substeps with
  | nil => cases h
  | cons step substeps =>
    cases h
    rfl

theorem Laid.placed {indent id last : Nat} {lines others : List Line} {steps : List Step}
    (h : Laid indent id lines steps last) {offset : Nat} {t whole : Text}
    (ht : Lined offset t (lines ++ others)) (hwhole : whole.Holds offset t) :
    ∀ step ∈ steps, step.Everywhere (Placed whole) := by
  induction h generalizing others offset t with
  | nil => exact List.forall_mem_nil _
  | @cons id _ _ line head _ continued below after substeps steps hhead _ _ _ _ _ ihBelow ihAfter =>
    have hattributes := ends_headOf (ht.holds hwhole List.mem_cons_self)
    rw [hhead] at hattributes
    rw [List.cons_append, List.append_assoc, List.append_assoc] at ht
    obtain ⟨⟨gap, between, rest, hopens, hrest⟩, -⟩ :=
      opens_of_lined ht hhead id (sublistOf substeps)
    obtain ⟨hmarker, -, hcontent, hheld⟩ := hopens.holds hwhole
    -- the lines of the steps below begin where the content of the step ends
    have hbelow := ihBelow hrest hheld
    obtain ⟨⟨left, hleft, hafter⟩, -⟩ := hrest.split
    rw [hleft] at hheld
    refine List.forall_mem_cons.mpr ⟨.intro ⟨hmarker, hattributes.2, hcontent⟩ ?_, ?_⟩
    · intro list hlist step hstep
      rw [steps_of_sublistOf hlist] at hstep
      exact hbelow step hstep
    · exact ihAfter hafter hheld.right

theorem ends_readAlgorithm (t : Text) :
    Ends (fun e => t.IsPosition e.offset) (fun list => ∀ step ∈ list.steps, step.Everywhere (Placed t))
      (readAlgorithm t) := by
  cases hread : readAlgorithm t with
  | ok list =>
    obtain ⟨indent, last, hlaid, -⟩ := readAlgorithm_laid hread
    exact hlaid.placed (lined_lines_append_nil t) t.holds_self
  | error e =>
    have hlines : ∀ line ∈ t.lines, t.Holds line.start line.text := fun _ h => holds_of_mem_lines h
    rw [readAlgorithm] at hread
    split at hread
    · cases hread
    · rename_i first lines heq
      rw [heq] at hlines
      have hlist := @ends_readList t (lines.length + 1) first.indent none 0 (first :: lines) hlines
      cases hfound : readList (lines.length + 1) first.indent none 0 (first :: lines) with
      | error e' =>
        rw [hfound] at hread hlist
        cases hread
        exact hlist
      | ok found =>
        obtain ⟨steps, rest, next⟩ := found
        rw [hfound] at hread hlist
        cases rest with
        | nil => cases hread
        | cons line rest =>
          -- lines that no list takes are an error at the first of them
          cases hread
          exact (hlines line (hlist List.mem_cons_self)).start

end Step

/-! ## 4. Parsed contents -/

namespace Cache

/-- The contents are tiled by their items, and the errors are at positions of the text. -/
def Placed (t : Text) (found : Cache × List StepError) : Prop :=
  (∀ entry ∈ found.1, Expression.Placed t entry.2) ∧ ∀ e ∈ found.2, t.IsPosition e.offset

theorem placed_ofSteps {t : Text} {parse : Step → Except StepError Expression} {steps : List Step}
    (h : ∀ step ∈ steps, Placed t (ofStep parse step)) : Placed t (ofSteps parse steps) := by
  induction steps with
  | nil => exact ⟨List.forall_mem_nil _, List.forall_mem_nil _⟩
  | cons step steps ih =>
    obtain ⟨hstep, hsteps⟩ := List.forall_mem_cons.mp h
    obtain ⟨hentries, herrors⟩ := ih hsteps
    exact ⟨List.forall_mem_append.mpr ⟨hstep.1, hentries⟩,
      List.forall_mem_append.mpr ⟨hstep.2, herrors⟩⟩

theorem placed_ofStep {t : Text} {step : Step} (h : step.Everywhere (Step.Placed t)) :
    Placed t (ofStep (fun s => Expression.parse s.content) step) := by
  induction h with
  | @intro step here _ ih =>
    obtain ⟨id, marker, attributes, content, sublist⟩ := step
    have hcontent : content.In t := here.content
    have hparse := Expression.ends_parse hcontent
    rw [ofStep]
    split
    · rename_i e herror
      rw [herror] at hparse
      refine ⟨List.forall_mem_nil _, fun e' he' => ?_⟩
      rw [List.mem_singleton.mp he']
      exact hparse
    · rename_i expression hok
      rw [hok] at hparse
      have hplaced : Expression.Placed t expression := ⟨_, _, hcontent, hparse⟩
      cases sublist with
      | none =>
        refine ⟨fun entry hentry => ?_, List.forall_mem_nil _⟩
        rw [List.mem_singleton.mp hentry]
        exact hplaced
      | some list =>
        obtain ⟨kind, steps⟩ := list
        obtain ⟨hentries, herrors⟩ := placed_ofSteps (ih ⟨kind, steps⟩ rfl)
        exact ⟨List.forall_mem_cons.mpr ⟨hplaced, hentries⟩, herrors⟩

theorem placed_ofList {t : Text} {list : StepList}
    (h : ∀ step ∈ list.steps, step.Everywhere (Step.Placed t)) :
    Placed t (ofList (fun s => Expression.parse s.content) list) := by
  obtain ⟨kind, steps⟩ := list
  exact placed_ofSteps fun step hstep => placed_ofStep (h step hstep)

theorem placed_get? {t : Text} {cache : Cache} (h : ∀ entry ∈ cache, Expression.Placed t entry.2)
    {id : StepId} {items : Expression} (hget : cache.get? id = some items) :
    Expression.Placed t items := by
  obtain ⟨before, after, hcache, -⟩ := List.lookup_eq_some_iff.mp hget
  refine h (id, items) (List.mem_reverse.mp ?_)
  rw [hcache]
  exact List.mem_append_right _ List.mem_cons_self

end Cache

end Errata
