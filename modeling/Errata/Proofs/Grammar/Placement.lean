import Errata.Proofs.Grammar.Productions

/-!
# Where grammar notation stands

Whatever is read from a text of grammar, a production or an error, stands at a position of that text.
-/

namespace Errata.Grammar

open Text

/-! ## 1. What stands at a position -/

/-- The symbol and all symbols in it stand at positions of the text. -/
inductive Symbol.Placed (t : Text) : Symbol → Prop
  | terminal {mark : Mark} {text : Text} (h : t.IsPosition mark.offset) : Placed t (.terminal mark text)
  | nonterminal {mark : Mark} {name : Text} {arguments : Option (List Argument)}
      (h : t.IsPosition mark.offset) : Placed t (.nonterminal mark name arguments)
  | butNot {mark : Mark} {left right : Symbol} (h : t.IsPosition mark.offset)
      (hleft : Placed t left) (hright : Placed t right) : Placed t (.butNot mark left right)
  | oneOf {mark : Mark} {alternatives : List Symbol} (h : t.IsPosition mark.offset)
      (halternatives : ∀ s ∈ alternatives, Placed t s) : Placed t (.oneOf mark alternatives)
  | empty {mark : Mark} (h : t.IsPosition mark.offset) : Placed t (.empty mark)
  | restriction {mark : Mark} {kind : Restriction} (h : t.IsPosition mark.offset) :
      Placed t (.restriction mark kind)

theorem Symbol.Placed.offset {t : Text} {s : Symbol} (h : s.Placed t) : t.IsPosition s.offset := by
  cases h with
  | terminal h => exact h
  | nonterminal h => exact h
  | butNot h => exact h
  | oneOf h => exact h
  | empty h => exact h
  | restriction h => exact h

structure RightHandSide.Placed (t : Text) (side : RightHandSide) : Prop where
  guard : ∀ g, side.guard = some g → t.IsPosition g.offset
  symbols : ∀ s ∈ side.symbols, s.Placed t
  offset : t.IsPosition side.offset

structure Production.Placed (t : Text) (p : Production) : Prop where
  offset : t.IsPosition p.offset
  parameters : ∀ parameter ∈ p.parameters, t.IsPosition parameter.offset
  rightHandSides : ∀ side ∈ p.rightHandSides, side.Placed t

/-! ## 2. What is written stands at a position -/

section Faithful

variable {t : Text}

theorem Symbol.IsFaithful.placed {s : Symbol} (h : s.IsFaithful t) : s.Placed t := by
  induction h with
  | quoted _ h => exact .terminal h.start
  | angled _ h => exact .terminal h.start
  | nonterminal _ h => exact .nonterminal h.start
  | butNot _ _ _ hleft hright => exact .butNot hleft.offset hleft hright
  | oneOf h _ _ _ halternatives => exact .oneOf h halternatives
  | empty h => exact .empty h.start
  | restriction h => exact .restriction h.start

theorem RightHandSide.IsFaithful.placed {stop : Nat} {side : RightHandSide}
    (h : side.IsFaithful t stop) : side.Placed t := by
  refine ⟨fun g hg => (h.guard g hg).start, fun s hs => ?_, h.offset⟩
  rcases h.symbols with hsymbols | ⟨offset, prose, hprose, hheld, -⟩
  · exact (hsymbols s hs).placed
  · rw [hprose] at hs
    rw [List.mem_singleton.mp hs]
    exact .restriction hheld.start

theorem Production.IsFaithful.placed {p : Production} (h : p.IsFaithful t) : p.Placed t := by
  refine ⟨h.name.2.start, fun parameter hp => (h.parameters parameter hp).2.start, fun side hside => ?_⟩
  obtain ⟨line, -, hfaithful⟩ := h.rightHandSides side hside
  exact hfaithful.placed

theorem SyntaxError.On.isPosition {line : Line} {e : SyntaxError} (h : e.On line)
    (hline : line ∈ t.lines) : t.IsPosition e.offset := by
  obtain ⟨d, hd, hoffset⟩ := h
  rw [hoffset]
  exact (hd.in (holds_of_mem_lines hline)).isPosition

end Faithful

/-! ## 3. Texts -/

theorem readSource_placed (source : Nat) (t : Text) :
    (∀ p ∈ (readSource source t).productions, p.Placed t ∧ p.source = source) ∧
      ∀ d ∈ (readSource source t).diagnostics, t.IsPosition d.offset ∧ d.source = source := by
  refine ⟨fun p hp => ?_, fun d hd => ?_⟩
  · obtain ⟨hfaithful, hsource⟩ := (readSource_faithful source t).1 p hp
    exact ⟨hfaithful.placed, hsource⟩
  · rw [readSource_eq] at hd
    obtain ⟨e, he, rfl⟩ := List.mem_map.mp hd
    obtain ⟨g, hg, he⟩ := List.mem_flatMap.mp he
    have hmem := mem_lines_of_mem_groups hg
    obtain ⟨line, hline, hon⟩ :=
      (readGroup_faithful source hmem ((pairwise_groups t).1 g hg)).2 e he
    exact ⟨hon.isPosition (hmem line hline), rfl⟩

/-- The production stands in the text that it says it was read from. -/
def Production.In (sources : List Text) (p : Production) : Prop :=
  ∃ t, sources[p.source]? = some t ∧ p.Placed t

/-- The problem is at a position of the text that it says it was found in. -/
def Diagnostic.In (sources : List Text) (d : Diagnostic) : Prop :=
  ∃ t, sources[d.source]? = some t ∧ t.IsPosition d.offset

theorem in_duplicates {sources : List Text} {seen : List Text} {ps : List Production}
    (h : ∀ p ∈ ps, p.In sources) : ∀ d ∈ duplicates seen ps, d.In sources := by
  induction ps generalizing seen with
  | nil => exact List.forall_mem_nil _
  | cons p ps ih =>
    obtain ⟨⟨t, hsource, hp⟩, hps⟩ := List.forall_mem_cons.mp h
    rw [duplicates]
    split
    · exact List.forall_mem_cons.mpr ⟨⟨t, hsource, hp.offset⟩, ih hps⟩
    · exact ih hps

theorem in_unusedParameters {sources : List Text} {p : Production} (h : p.In sources) :
    ∀ d ∈ unusedParameters p, d.In sources := by
  obtain ⟨t, hsource, hp⟩ := h
  rintro d hd
  obtain ⟨parameter, hparameter, rfl⟩ := List.mem_map.mp hd
  exact ⟨t, hsource, hp.parameters parameter (List.mem_filter.mp hparameter).1⟩

theorem in_compile (sources : List Text) (checks : Bool) :
    (∀ p ∈ (compile sources checks).productions, p.In sources) ∧
      ∀ d ∈ (compile sources checks).diagnostics, d.In sources := by
  let read := sources.zipIdx.map fun source => readSource source.2 source.1
  have hproductions : ∀ p ∈ read.flatMap Compilation.productions, p.In sources := by
    rintro p hp
    obtain ⟨one, hone, hp⟩ := List.mem_flatMap.mp hp
    obtain ⟨⟨t, i⟩, hi, rfl⟩ := List.mem_map.mp hone
    obtain ⟨hplaced, hsource⟩ := (readSource_placed i t).1 p hp
    exact ⟨t, hsource ▸ List.mem_zipIdx_iff_getElem?.mp hi, hplaced⟩
  have hdiagnostics : ∀ d ∈ read.flatMap Compilation.diagnostics, d.In sources := by
    rintro d hd
    obtain ⟨one, hone, hd⟩ := List.mem_flatMap.mp hd
    obtain ⟨⟨t, i⟩, hi, rfl⟩ := List.mem_map.mp hone
    obtain ⟨hplaced, hsource⟩ := (readSource_placed i t).2 d hd
    exact ⟨t, hsource ▸ List.mem_zipIdx_iff_getElem?.mp hi, hplaced⟩
  unfold compile
  dsimp only
  split
  · refine ⟨hproductions, List.forall_mem_append.mpr
      ⟨List.forall_mem_append.mpr ⟨hdiagnostics, in_duplicates hproductions⟩, fun d hd => ?_⟩⟩
    obtain ⟨p, hp, hd⟩ := List.mem_flatMap.mp hd
    exact in_unusedParameters (hproductions p hp) d hd
  · exact ⟨hproductions, hdiagnostics⟩

end Errata.Grammar
