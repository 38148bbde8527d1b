import Errata.Document.Tree

/-!
# What a tree shows of its text

A traversal of a tree comes to its tags and text nodes from left to right. What stands between these tells
which elements are open at a position.
-/

namespace Errata

/-- A tag or a text node. -/
structure Piece where
  source : SourceId
  span : Span
  /-- The name of the element, if this is an end tag. -/
  ends : Option Text

/-- The end tag of an element, unless it is empty. -/
def Element.endPieces (e : Element) : List Piece :=
  match e.endTag with
  | none => []
  | some span => if span.start < span.stop then [⟨e.source, span, some e.name⟩] else []

/-- Where the content of an element ends that would without an end tag end at `stop`. -/
def Element.contentStop (e : Element) (stop : Nat) : Nat := (e.endTag.map Span.start).getD stop

theorem Element.contentStop_mono (e : Element) {stop stop' : Nat} (h : stop ≤ stop') :
    e.contentStop stop ≤ e.contentStop stop' := by
  unfold contentStop
  cases e.endTag with
  | none => exact h
  | some _ => exact Nat.le_refl _

namespace Tree

/-- The tags and text nodes of a tree from left to right. -/
def pieces : Tree → List Piece
  | .text _ source span => [⟨source, span, none⟩]
  | .element _ e children => ⟨e.source, e.startTag, none⟩ :: (piecesAll children ++ e.endPieces)
where
  piecesAll : List Tree → List Piece
    | [] => []
    | t :: ts => pieces t ++ piecesAll ts

theorem piecesAll_append (ts us : List Tree) :
    pieces.piecesAll (ts ++ us) = pieces.piecesAll ts ++ pieces.piecesAll us := by
  induction ts with
  | nil => rfl
  | cons t ts ih => rw [List.cons_append, pieces.piecesAll, ih, pieces.piecesAll, List.append_assoc]

theorem piecesAll_singleton (t : Tree) : pieces.piecesAll [t] = t.pieces := List.append_nil _

/-! ## Open elements -/

/-- Where a tree begins. -/
def start : Tree → Nat
  | .text _ _ span => span.start
  | .element _ e _ => e.startTag.start

/-- Where the first of the trees begins; without one, `stop`. -/
def firstStart (ts : List Tree) (stop : Nat) : Nat := (ts.head?.map start).getD stop

/-- The names of the elements of a tree whose content position `p` belongs to, the outermost first. An
element without an end tag goes on to where the next tree begins, or its parent ends, or to `stop`. -/
def openAt (p : Nat) : Tree → Nat → List Text
  | .text .., _ => []
  | .element _ e children, stop =>
    if e.startTag.stop ≤ p ∧ p < e.contentStop stop then
      e.name :: openAll p children (e.contentStop stop)
    else []
where
  openAll (p : Nat) : List Tree → Nat → List Text
    | [], _ => []
    | t :: ts, stop => openAt p t (firstStart ts stop) ++ openAll p ts stop

theorem firstStart_append (ts : List Tree) (t : Tree) (stop : Nat) :
    firstStart (ts ++ [t]) stop = firstStart ts t.start := by
  cases ts with
  | nil => rfl
  | cons _ _ => rfl

theorem openAll_append (p : Nat) (ts : List Tree) (t : Tree) (stop : Nat) :
    openAt.openAll p (ts ++ [t]) stop = openAt.openAll p ts t.start ++ openAt p t stop := by
  induction ts with
  | nil => exact List.append_nil _
  | cons u ts ih =>
    rw [List.cons_append, openAt.openAll, ih, firstStart_append, openAt.openAll, List.append_assoc]

theorem firstStart_mono (ts : List Tree) {stop stop' : Nat} (h : stop ≤ stop') :
    firstStart ts stop ≤ firstStart ts stop' := by
  cases ts with
  | nil => exact h
  | cons _ _ => exact Nat.le_refl _

mutual

/-- What ends earlier is open at fewer positions. -/
theorem openAt_subset (p : Nat) : ∀ (t : Tree) {stop stop' : Nat}, stop ≤ stop' →
    openAt p t stop ⊆ openAt p t stop'
  | .text .., _, _, _ => List.Subset.refl _
  | .element _ e children, stop, stop', h => by
    have hcontent := e.contentStop_mono h
    rw [openAt, openAt]
    by_cases hp : e.startTag.stop ≤ p ∧ p < e.contentStop stop
    · rw [if_pos hp, if_pos ⟨hp.1, Nat.lt_of_lt_of_le hp.2 hcontent⟩]
      exact List.cons_subset_cons _ (openAll_subset p children hcontent)
    · rw [if_neg hp]
      exact List.nil_subset _

theorem openAll_subset (p : Nat) : ∀ (ts : List Tree) {stop stop' : Nat}, stop ≤ stop' →
    openAt.openAll p ts stop ⊆ openAt.openAll p ts stop'
  | [], _, _, _ => List.Subset.refl _
  | t :: ts, stop, stop', h => by
    rw [openAt.openAll, openAt.openAll]
    exact List.append_subset.mpr
      ⟨fun _ hname => List.mem_append_left _ (openAt_subset p t (firstStart_mono ts h) hname),
        fun _ hname => List.mem_append_right _ (openAll_subset p ts h hname)⟩

end

/-- Nothing is open yet before a tree. -/
theorem openAt_of_lt {p : Nat} {t : Tree} (h : ∀ e, t.element? = some e → p < e.startTag.stop) (stop : Nat) :
    openAt p t stop = [] := by
  cases t with
  | text => rfl
  | element id e children =>
    have hlt := h e rfl
    rw [openAt, if_neg (by omega)]

/-- The tree has begun, and so has its end tag if it has one. -/
structure IsBegun (pos : Nat) (t : Tree) : Prop where
  start : t.start ≤ pos
  endTag : ∀ e, t.element? = some e → ∀ span, e.endTag = some span → span.start ≤ pos

/-- Nothing is left open behind a tree. -/
def IsEnded (t : Tree) : Prop := ∀ e, t.element? = some e → e.endTag ≠ none

theorem IsBegun.mono {pos pos' : Nat} {t : Tree} (h : t.IsBegun pos) (hpos : pos ≤ pos') :
    t.IsBegun pos' :=
  ⟨Nat.le_trans h.start hpos, fun e he span hspan => Nat.le_trans (h.endTag e he span hspan) hpos⟩

theorem IsBegun.openAt_eq_nil {pos : Nat} {t : Tree} (h : t.IsBegun pos) {stop : Nat}
    (hstop : stop ≤ pos ∨ t.IsEnded) : openAt pos t stop = [] := by
  cases t with
  | text => rfl
  | element id e children =>
    have hcontent : e.contentStop stop ≤ pos := by
      unfold Element.contentStop
      cases hend : e.endTag with
      | none => exact hstop.resolve_right fun hended => hended e rfl hend
      | some span => exact h.endTag e rfl span hend
    rw [openAt, if_neg (by omega)]

theorem openAll_eq_nil {pos : Nat} {ts : List Tree} (h : ∀ t ∈ ts, t.IsBegun pos) {stop : Nat}
    (hstop : stop ≤ pos) : openAt.openAll pos ts stop = [] := by
  induction ts with
  | nil => rfl
  | cons t ts ih =>
    obtain ⟨ht, hts⟩ := List.forall_mem_cons.mp h
    have hnext : firstStart ts stop ≤ pos := by
      cases ts with
      | nil => exact hstop
      | cons u ts => exact (hts u List.mem_cons_self).start
    rw [openAt.openAll, ht.openAt_eq_nil (.inl hnext), ih hts]
    rfl

end Tree

end Errata
