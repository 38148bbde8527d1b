import Errata.Proofs.Markup.Spine

/-!
# Elements without an end tag

An element that is never closed takes in all that follows it, up to the end tag of an element around it. So
it is the last among its siblings. The elements that end where another of their name begins are an
exception, and those with raw text need no end tag if the text ends in them.
-/

namespace Errata.Markup

/-! ## 1. Trees -/

/-- Whether the tree is an element without an end tag that only an end tag could have ended. -/
def isLeftOpen (t : Tree) : Bool :=
  t.element?.any fun e =>
    e.endTag.isNone && !selfEndingNames.contains e.name && !rawTextNames.contains e.name

/-- What is left open is the last among its siblings. -/
inductive OpensLast : Tree → Prop
  | text {id : NodeId} {source : SourceId} {span : Span} : OpensLast (.text id source span)
  | element {id : NodeId} {e : Element} {children : List Tree}
      (hlast : ∀ t ∈ children.dropLast, isLeftOpen t = false) (hbelow : ∀ t ∈ children, OpensLast t) :
      OpensLast (.element id e children)

theorem isLeftOpen_of_endTag {id : NodeId} {e : Element} {children : List Tree} {span : Span}
    (h : e.endTag = some span) : isLeftOpen (.element id e children) = false := by
  simp [isLeftOpen, Tree.element?, h]

theorem isLeftOpen_of_name {id : NodeId} {e : Element} {children : List Tree}
    (h : selfEndingNames.contains e.name = true ∨ rawTextNames.contains e.name = true) :
    isLeftOpen (.element id e children) = false := by
  rcases h with h | h
  · simp only [isLeftOpen, Tree.element?, Option.any_some, h, Bool.not_true, Bool.and_false, Bool.false_and]
  · simp only [isLeftOpen, Tree.element?, Option.any_some, h, Bool.not_true, Bool.and_false]

theorem OpensLast.congr {id id' : NodeId} {e e' : Element} {children : List Tree}
    (h : OpensLast (.element id e children)) : OpensLast (.element id' e' children) := by
  cases h with
  | element hlast hbelow => exact .element hlast hbelow

theorem eq_dropLast_concat {children : List Tree} (hlast : ∀ t ∈ children.dropLast, isLeftOpen t = false)
    {t : Tree} (ht : t ∈ children) (hopen : isLeftOpen t = true) : children = children.dropLast ++ [t] := by
  have hsplit := List.dropLast_append_getLast (List.ne_nil_of_mem ht)
  rw [← hsplit] at ht
  rcases List.mem_append.mp ht with ht | ht
  · rw [hlast t ht] at hopen
    cases hopen
  · rw [List.mem_singleton.mp ht, hsplit]

/-! ## 2. Open elements -/

namespace Frame

/-- Nothing that is complete below the element is left open. -/
def IsSettled (f : Frame) : Prop := ∀ t ∈ f.done, isLeftOpen t = false ∧ OpensLast t

variable {f : Frame} {t : Tree}

theorem IsSettled.hang (h : f.IsSettled) (hopen : isLeftOpen t = false) (hlast : OpensLast t) :
    (f.hang t).IsSettled :=
  List.forall_mem_append.mpr ⟨h, fun _ ht => List.mem_singleton.mp ht ▸ ⟨hopen, hlast⟩⟩

/-- The last tree below an element may be left open. -/
theorem IsSettled.opensLast_hang (h : f.IsSettled) (hlast : OpensLast t) : OpensLast (f.hang t).tree := by
  refine .element (fun t' ht' => ?_) (fun t' ht' => ?_)
  · have hmem : t' ∈ (f.done ++ [t]).dropLast := ht'
    rw [List.dropLast_concat] at hmem
    exact (h t' hmem).1
  · rcases List.mem_append.mp ht' with ht' | ht'
    · exact (h t' ht').2
    · rw [List.mem_singleton.mp ht']
      exact hlast

theorem IsSettled.opensLast (h : f.IsSettled) : OpensLast f.tree :=
  .element (fun t ht => (h t (List.dropLast_subset _ ht)).1) (fun t ht => (h t ht).2)

end Frame

namespace Spine

/-- Nothing that is complete below an open element is left open. -/
def IsSettled (s : Spine) : Prop := ∀ f ∈ s.innermost :: s.outer, f.IsSettled

variable {s : Spine} {t : Tree}

theorem IsSettled.innermost (h : s.IsSettled) : s.innermost.IsSettled := h _ List.mem_cons_self

theorem IsSettled.outer (h : s.IsSettled) : ∀ f ∈ s.outer, f.IsSettled :=
  fun f hf => h f (List.mem_cons_of_mem _ hf)

theorem opensLast_plug {outer : List Frame} (houter : ∀ f ∈ outer, f.IsSettled) (h : OpensLast t) :
    OpensLast (plug outer t) := by
  induction outer generalizing t with
  | nil => exact h
  | cons f outer ih =>
    obtain ⟨hf, houter⟩ := List.forall_mem_cons.mp houter
    exact ih houter (hf.opensLast_hang h)

theorem IsSettled.opensLast (h : s.IsSettled) : OpensLast s.tree :=
  opensLast_plug h.outer h.innermost.opensLast

theorem IsSettled.hang (h : s.IsSettled) (hopen : isLeftOpen t = false) (hlast : OpensLast t) :
    (s.hang t).IsSettled :=
  List.forall_mem_cons.mpr ⟨h.innermost.hang hopen hlast, h.outer⟩

theorem IsSettled.enter (h : s.IsSettled) (id : NodeId) (e : Element) : (s.enter ⟨id, e, []⟩).IsSettled :=
  List.forall_mem_cons.mpr ⟨List.forall_mem_nil _, h⟩

/-- An element may be ended if it is not left open then. -/
theorem settled_leave (houter : ∀ f ∈ s.outer, f.IsSettled) (hne : s.outer ≠ [])
    (hopen : isLeftOpen s.innermost.tree = false) (hlast : OpensLast s.innermost.tree) :
    s.leave.IsSettled := by
  obtain ⟨f, outer, hcons⟩ := List.exists_cons_of_ne_nil hne
  rw [hcons] at houter
  obtain ⟨hf, houter⟩ := List.forall_mem_cons.mp houter
  rw [leave, hcons]
  exact List.forall_mem_cons.mpr ⟨hf.hang hopen hlast, houter⟩

theorem IsSettled.makeRoom (h : s.IsSettled) (name : Text) : (s.makeRoom name).IsSettled := by
  unfold Spine.makeRoom
  split
  · rename_i hends
    rw [Bool.and_eq_true, decide_eq_true_eq] at hends
    by_cases hne : s.outer = []
    · -- the root stays
      rw [leave, hne]
      exact h
    · refine settled_leave h.outer hne ?_ h.innermost.opensLast
      apply isLeftOpen_of_name
      rw [← hends.1] at hends
      exact Or.inl hends.2
  · exact h

/-- While elements are ended from the inside out, only the last tree below the innermost is left open. -/
theorem opensLast_unwind {name : Text} {f : Frame} {outer : List Frame} {unwound : Spine}
    (h : unwind? name f outer = some unwound) (hf : OpensLast f.tree) (houter : ∀ g ∈ outer, g.IsSettled) :
    OpensLast unwound.innermost.tree ∧ (∀ g ∈ unwound.outer, g.IsSettled) ∧ unwound.outer ≠ [] := by
  induction outer generalizing f with
  | nil => cases h
  | cons g outer ih =>
    obtain ⟨hg, hrest⟩ := List.forall_mem_cons.mp houter
    rw [unwind?] at h
    split at h
    · cases h
      exact ⟨hf, houter, List.cons_ne_nil g outer⟩
    · exact ih h (hg.opensLast_hang hf) hrest

theorem settled_close_leave {unwound : Spine} (hinner : OpensLast unwound.innermost.tree)
    (houter : ∀ g ∈ unwound.outer, g.IsSettled) (hne : unwound.outer ≠ []) (endTag : Span) :
    (unwound.close endTag).leave.IsSettled := by
  have hclosed : isLeftOpen (unwound.close endTag).innermost.tree = false := isLeftOpen_of_endTag rfl
  exact settled_leave houter hne hclosed hinner.congr

end Spine

/-! ## 3. Tokens -/

/-- Raw text stands only in elements that have it. -/
def Token.IsRaw : Token → Prop
  | .rawElement tag .. => rawTextNames.contains tag.name = true
  | _ => True

theorem isRaw_nextToken (c : Cursor) : (nextToken c).1.IsRaw := by
  unfold nextToken
  split
  · trivial
  split
  · trivial
  split
  · trivial
  split
  · split
    · rename_i hraw
      rw [Bool.and_eq_true] at hraw
      unfold rawElement
      dsimp only
      split
      · exact hraw.1
      · exact hraw.1
    · trivial
  · trivial

theorem isRaw_tokens (c : Cursor) : ∀ token ∈ tokens c, token.IsRaw := by
  fun_induction tokens c with
  | case1 c hrest => exact List.forall_mem_nil _
  | case2 c hrest ih => exact List.forall_mem_cons.mpr ⟨isRaw_nextToken c, ih⟩

theorem opensLast_rawTree (id : NodeId) (e : Element) (inner : Span) : OpensLast (rawTree id e inner) := by
  have hempty : Frame.IsSettled ⟨id, e, []⟩ := List.forall_mem_nil _
  unfold rawTree
  split
  · exact hempty.opensLast_hang .text
  · exact hempty.opensLast

theorem isLeftOpen_rawTree {tag : Tag} (h : rawTextNames.contains tag.name = true) (id : NodeId)
    (span inner : Span) (endTag : Option Span) :
    isLeftOpen (rawTree id (tag.element 0 span endTag) inner) = false := by
  unfold rawTree
  split
  · exact isLeftOpen_of_name (Or.inr h)
  · exact isLeftOpen_of_name (Or.inr h)

theorem Spine.IsSettled.add {s : Spine} (h : s.IsSettled) {token : Token} (htoken : token.IsRaw)
    (count : Nat) : (s.add count token).IsSettled := by
  cases token with
  | text span => exact h.hang rfl .text
  | comment span => exact h
  | startTag tag span =>
    have hroom := h.makeRoom tag.name
    unfold Spine.add
    dsimp only
    split
    · refine hroom.hang (isLeftOpen_of_endTag rfl) (.element ?_ ?_)
      · exact List.forall_mem_nil _
      · exact List.forall_mem_nil _
    · exact hroom.enter count _
  | rawElement tag span inner endTag =>
    exact (h.makeRoom tag.name).hang (isLeftOpen_rawTree htoken count span inner endTag)
      (opensLast_rawTree count _ inner)
  | endTag name span =>
    unfold Spine.add
    dsimp only
    split
    · rename_i unwound hunwind
      obtain ⟨hinner, houter, hne⟩ := opensLast_unwind hunwind h.innermost.opensLast h.outer
      exact settled_close_leave hinner houter hne span
    · exact h

/-! ## 4. Whole texts -/

/-- In a document that was read from a text, what is left open is the last among its siblings. -/
theorem opensLast_read (filename : Path) (text : Text) :
    ∃ t, (read filename text).tree Document.root = .ok t ∧ OpensLast t := by
  have hstart : (Spine.start text).IsSettled :=
    List.forall_mem_cons.mpr ⟨List.forall_mem_nil _, List.forall_mem_nil _⟩
  obtain ⟨s, hs, hsettled⟩ := Spine.exists_tree_read (I := fun s _ => s.IsSettled) filename text hstart
    fun token htoken s r _ h => h.add (isRaw_tokens _ token htoken) r.document.count
  exact ⟨s.tree, hs, hsettled.opensLast⟩

end Errata.Markup
