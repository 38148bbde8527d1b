import Errata.Markup.Reader
import Errata.Proofs.Markup.Token

/-!
# Documents that are read from a text

Reading a text gives a document whose positions are positions of the text: text nodes and tags are written
where they say, an element ends after it begins, and children come after their parents.
-/

namespace Errata

open Text

/-! ## 1. Sound documents -/

/-- The tags of an element stand in the text as far as position `pos`. -/
structure Element.Sound (text : Text) (pos : Nat) (e : Element) : Prop where
  start : text.IsShown e.startTag.start
  stop : text.IsPosition e.startTag.stop
  stop_le : e.startTag.stop ≤ pos
  inner : ∀ span, e.endTag = some span → e.startTag.stop ≤ span.start ∧ text.IsShown span.start

/-- What node number `id` of `count` nodes holds. The root is no element of the text. -/
def Content.Sound (text : Text) (count pos id : Nat) : Content → Prop
  | .text source span =>
    source = 0 ∧ ∃ piece, text.Holds span.start piece ∧ span.start + piece.size = span.stop
  | .element e =>
    e.source = 0 ∧ (∀ child : Nat, child ∈ e.children → id < child ∧ child < count) ∧
      (id ≠ 0 → e.Sound text pos)

/-- The document was read from the text as far as position `pos`. -/
structure Document.Sound (text : Text) (pos : Nat) (doc : Document) : Prop where
  source : ∃ filename, doc.sources = [⟨filename, text⟩]
  nonempty : 0 < doc.count
  parent : ∀ (id : Nat) node, doc.node? id = some node → ∀ p : Nat, node.parent = some p → p < id
  content : ∀ (id : Nat) node, doc.node? id = some node → node.content.Sound text doc.count pos id

theorem Content.Sound.mono {text : Text} {count count' pos pos' id : Nat}
    {content : Content} (h : content.Sound text count pos id) (hcount : count ≤ count')
    (hpos : pos ≤ pos') : content.Sound text count' pos' id := by
  cases content with
  | text source span => exact h
  | element e =>
    obtain ⟨hsource, hchildren, he⟩ := h
    refine ⟨hsource, fun child hchild => ?_, fun hid => ?_⟩
    · have := hchildren child hchild
      omega
    · obtain ⟨hstart, hstop, hle, hinner⟩ := he hid
      exact ⟨hstart, hstop, by omega, hinner⟩

theorem Node.parent_mapElement (f : Element → Element) (node : Node) :
    (node.mapElement f).parent = node.parent := by
  unfold Node.mapElement
  split
  · rfl
  · rfl

theorem Content.Sound.mapElement {text : Text} {count pos id : Nat} {node : Node}
    {f : Element → Element} (h : node.content.Sound text count pos id)
    (hf : ∀ e, Content.Sound text count pos id (.element e) →
      Content.Sound text count pos id (.element (f e))) :
    (node.mapElement f).content.Sound text count pos id := by
  unfold Node.mapElement
  split
  · rename_i e he
    rw [he] at h
    exact hf e h
  · exact h

namespace Document

theorem Sound.mono {text : Text} {pos pos' : Nat} {doc : Document} (h : doc.Sound text pos)
    (hpos : pos ≤ pos') : doc.Sound text pos' :=
  ⟨h.source, h.nonempty, h.parent, fun id node hnode =>
    (h.content id node hnode).mono (Nat.le_refl _) hpos⟩

theorem count_append (doc : Document) (parent : NodeId) (content : Content) :
    (doc.append parent content).count = doc.count + 1 := by
  simp [append, count]

theorem count_close (doc : Document) (id : NodeId) (endTag : Option Span) :
    (doc.close id endTag).count = doc.count :=
  List.length_modify _ _ _

/-- The nodes after one has been added: those of before, the parent with one more child, and the new
one. -/
theorem node?_append {doc : Document} {parent : Nat} (hparent : parent < doc.count)
    {content : Content} {id : Nat} {node : Node}
    (h : (doc.append parent content).node? id = some node) :
    (id = doc.count ∧ node = ⟨some parent, content⟩) ∨
      ∃ old, doc.node? id = some old ∧ id < doc.count ∧ (node = old ∨ id = parent ∧
        node = old.mapElement fun e => { e with children := e.children ++ [doc.count] }) := by
  rw [node?, append, List.getElem?_modify, Option.map_eq_map, Option.map_eq_some_iff] at h
  obtain ⟨old, hold, rfl⟩ := h
  rcases Nat.lt_or_ge id doc.count with hlt | hge
  · rw [List.getElem?_append_left hlt] at hold
    refine .inr ⟨old, hold, hlt, ?_⟩
    by_cases hid : parent = id
    · rw [if_pos hid]
      exact .inr ⟨hid.symm, rfl⟩
    · rw [if_neg hid]
      exact .inl rfl
  · rw [List.getElem?_append_right hge] at hold
    have hzero : id - doc.nodes.length = 0 := by
      have := (List.getElem?_eq_some_iff.mp hold).1
      rw [List.length_singleton] at this
      omega
    rw [hzero] at hold
    cases hold
    have hcount : doc.count = doc.nodes.length := rfl
    rw [if_neg (by omega)]
    exact .inl ⟨by omega, rfl⟩

/-- A node is added with a parent that is there before it. -/
theorem Sound.append {text : Text} {pos : Nat} {doc : Document} (h : doc.Sound text pos)
    {parent : Nat} (hparent : parent < doc.count) {content : Content}
    (hcontent : content.Sound text (doc.count + 1) pos doc.count) :
    (doc.append parent content).Sound text pos := by
  refine ⟨h.source, ?_, fun id node hnode => ?_, fun id node hnode => ?_⟩
  · rw [count_append]
    omega
  · rcases node?_append hparent hnode with ⟨rfl, rfl⟩ | ⟨old, hold, -, rfl | ⟨-, rfl⟩⟩
    · rintro p hp
      cases hp
      exact hparent
    · exact h.parent id node hold
    · rw [Node.parent_mapElement]
      exact h.parent id old hold
  · rw [count_append]
    rcases node?_append hparent hnode with ⟨rfl, rfl⟩ | ⟨old, hold, hlt, rfl | ⟨rfl, rfl⟩⟩
    · exact hcontent
    · exact (h.content id node hold).mono (by omega) (Nat.le_refl _)
    · refine ((h.content id old hold).mono (Nat.le_succ _) (Nat.le_refl _)).mapElement ?_
      rintro e ⟨hsource, hchildren, he⟩
      refine ⟨hsource, fun child hchild => ?_, fun hid => ?_⟩
      · rcases List.mem_append.mp hchild with hchild | hchild
        · exact hchildren child hchild
        · rw [List.mem_singleton.mp hchild]
          omega
      · obtain ⟨hstart, hstop, hle, hinner⟩ := he hid
        exact ⟨hstart, hstop, hle, hinner⟩

/-- An element is closed by the end tag that stands where reading has come to. -/
theorem Sound.close {text : Text} {pos stop : Nat} {doc : Document} (h : doc.Sound text pos)
    (id : NodeId) (hpos : text.IsShown pos) : (doc.close id (some ⟨pos, stop⟩)).Sound text pos := by
  have hnode : ∀ j node, (doc.close id (some ⟨pos, stop⟩)).node? j = some node →
      ∃ old, doc.node? j = some old ∧
        (node = old ∨ node = old.mapElement fun e => { e with endTag := some ⟨pos, stop⟩ }) := by
    intro j node hj
    rw [node?, Document.close, List.getElem?_modify, Option.map_eq_map, Option.map_eq_some_iff] at hj
    obtain ⟨old, hold, rfl⟩ := hj
    refine ⟨old, hold, ?_⟩
    split
    · exact .inr rfl
    · exact .inl rfl
  refine ⟨h.source, by rw [count_close]; exact h.nonempty, fun j node hj => ?_, fun j node hj => ?_⟩
  · obtain ⟨old, hold, rfl | rfl⟩ := hnode j node hj
    · exact h.parent j node hold
    · rw [Node.parent_mapElement]
      exact h.parent j old hold
  · rw [count_close]
    obtain ⟨old, hold, rfl | rfl⟩ := hnode j node hj
    · exact h.content j node hold
    · refine (h.content j old hold).mapElement ?_
      rintro e ⟨hsource, hchildren, he⟩
      refine ⟨hsource, hchildren, fun hid => ?_⟩
      obtain ⟨hstart, hstop, hle, -⟩ := he hid
      refine ⟨hstart, hstop, hle, ?_⟩
      rintro span hspan
      cases hspan
      exact ⟨hle, hpos⟩

end Document

/-! ## 2. Reading -/

namespace Markup

/-- A reading that has come to position `pos`. -/
structure Reading.Sound (text : Text) (pos : Nat) (r : Reading) : Prop where
  document : r.document.Sound text pos
  opened : ∀ id : Nat, ∀ name, (id, name) ∈ r.opened → id < r.document.count

namespace Reading

theorem closing?_subset {name : Text} {opened outer : List (NodeId × Text)} {id : NodeId}
    (h : closing? name opened = some (id, outer)) : outer ⊆ opened := by
  induction opened with
  | nil => cases h
  | cons entry opened ih =>
    rw [closing?] at h
    split at h
    · cases h
      exact List.subset_cons_self _ _
    · exact fun x hx => List.mem_cons_of_mem _ (ih h hx)

variable {text : Text} {pos : Nat} {r : Reading}

theorem Sound.mono (h : r.Sound text pos) {pos' : Nat} (hpos : pos ≤ pos') : r.Sound text pos' :=
  ⟨h.document.mono hpos, h.opened⟩

theorem Sound.current_lt (h : r.Sound text pos) : r.current 0 < r.document.count := by
  unfold current
  cases hopened : r.opened with
  | nil => exact h.document.nonempty
  | cons entry outer => exact h.opened entry.1 entry.2 (by rw [hopened]; exact List.mem_cons_self)

theorem Sound.makeRoom (h : r.Sound text pos) (name : Text) :
    (r.makeRoom 0 name).1 ⊆ r.opened ∧ (r.makeRoom 0 name).2 < r.document.count := by
  unfold Reading.makeRoom
  split
  · rename_i id innermost outer hopened
    have hid : id < r.document.count :=
      h.opened id innermost (by rw [hopened]; exact List.mem_cons_self)
    split
    · -- the innermost element ends here, and its parent was there before it
      refine ⟨by rw [hopened]; exact List.subset_cons_self _ _, ?_⟩
      cases hparent : r.document.parent? id with
      | none => exact h.document.nonempty
      | some parent =>
        obtain ⟨node, hnode, hp⟩ := Option.bind_eq_some_iff.mp hparent
        exact Nat.lt_trans (h.document.parent id node hnode parent hp) hid
    · exact ⟨fun _ hx => hx, hid⟩
  · exact ⟨List.nil_subset _, h.document.nonempty⟩

/-- An element is begun, and stays open or not. -/
theorem Sound.begin (h : r.Sound text pos) (tag : Tag) {span : Span} {endTag : Option Span}
    (hspan : text.IsShown span.start) (hstop : text.IsPosition span.stop) (hle : span.stop ≤ pos)
    (hinner : ∀ s, endTag = some s → span.stop ≤ s.start ∧ text.IsShown s.start) :
    (r.document.append (r.makeRoom 0 tag.name).2 (.element (tag.element 0 span endTag))).Sound
      text pos :=
  h.document.append (h.makeRoom tag.name).2
    ⟨rfl, List.forall_mem_nil _, fun _ => ⟨hspan, hstop, hle, hinner⟩⟩

theorem Sound.lt_of_mem_makeRoom (h : r.Sound text pos) {name entry : Text} {id parent : Nat}
    (hentry : (id, entry) ∈ (r.makeRoom 0 name).1) (content : Content) :
    id < (r.document.append parent content).count := by
  have := h.opened id entry ((h.makeRoom name).1 hentry)
  rw [Document.count_append]
  omega

theorem Sound.addStartTag (h : r.Sound text pos) (tag : Tag) {start : Nat}
    (hstart : text.IsShown start) (hpos : text.IsShown pos) :
    (r.add 0 0 (.startTag tag ⟨start, pos⟩)).Sound text pos := by
  unfold Reading.add
  dsimp only
  split
  · -- the end tag that is recorded is the empty span after the start tag
    refine ⟨h.begin tag hstart hpos.isPosition (Nat.le_refl _) ?_, fun id name hentry => ?_⟩
    · rintro s hs
      cases hs
      exact ⟨Nat.le_refl _, hpos⟩
    · exact h.lt_of_mem_makeRoom hentry _
  · refine ⟨h.begin tag hstart hpos.isPosition (Nat.le_refl _) (fun _ hs => nomatch hs), ?_⟩
    rintro id name hentry
    rcases List.mem_cons.mp hentry with heq | hentry
    · cases heq
      rw [Document.count_append]
      exact Nat.lt_succ_self _
    · exact h.lt_of_mem_makeRoom hentry _

theorem Sound.addRawElement (h : r.Sound text pos) (tag : Tag) {start m k : Nat}
    {endTag : Option Span} (hstart : text.IsShown start) (hm : text.IsPosition m)
    (hk : text.IsPosition k) (hmk : m ≤ k) (hle : k ≤ pos)
    (hend : ∀ s, endTag = some s → m ≤ s.start ∧ text.IsShown s.start) :
    (r.add 0 0 (.rawElement tag ⟨start, m⟩ ⟨m, k⟩ endTag)).Sound text pos := by
  have hbegun := @Sound.begin text pos r h tag ⟨start, m⟩ endTag hstart hm
    (Nat.le_trans hmk hle) hend
  unfold Reading.add
  dsimp only
  split
  · refine ⟨hbegun.append ?_ ⟨rfl, holds_of_isPosition hm hk hmk⟩, fun id name hentry => ?_⟩
    · rw [Document.count_append]
      exact Nat.lt_succ_self _
    · rw [Document.count_append]
      exact Nat.lt_succ_of_lt (h.lt_of_mem_makeRoom hentry _)
  · exact ⟨hbegun, fun id name hentry => h.lt_of_mem_makeRoom hentry _⟩

theorem Sound.addEndTag (h : r.Sound text pos) (name : Text) {stop : Nat}
    (hpos : text.IsShown pos) : (r.add 0 0 (.endTag name ⟨pos, stop⟩)).Sound text pos := by
  unfold Reading.add
  dsimp only
  split
  · rename_i id opened hclosing
    refine ⟨h.document.close id hpos, fun other entry hentry => ?_⟩
    rw [Document.count_close]
    exact h.opened other entry (closing?_subset hclosing hentry)
  · exact h

theorem Sound.add (h : r.Sound text pos) {stop : Nat} {token : Token}
    (htoken : token.Covers text pos stop) (hshown : text.IsShown pos)
    (hstop : text.IsPosition stop) (hle : pos ≤ stop) : (r.add 0 0 token).Sound text stop := by
  have hmono := h.mono hle
  cases htoken with
  | text =>
    refine ⟨hmono.document.append h.current_lt
      ⟨rfl, holds_of_isPosition hshown.isPosition hstop hle⟩, fun id name hentry => ?_⟩
    have := h.opened id name hentry
    rw [Reading.add, Document.count_append]
    omega
  | comment => exact hmono
  | startTag hshownStop => exact hmono.addStartTag _ hshown hshownStop
  | rawElement hm hk _ hmk hle hend =>
    refine hmono.addRawElement _ hshown hm hk hmk hle fun s hs => ?_
    obtain ⟨rfl, hshownEnd⟩ := hend s hs
    exact ⟨hmk, hshownEnd⟩
  | endTag => exact (h.addEndTag _ hshown).mono hle

theorem Sound.addTokens (h : r.Sound text pos) {c : Cursor} (hc : c.In text) (hpos : c.offset = pos) :
    ∃ stop, ((tokens c).foldl (Reading.add 0 0) r).Sound text stop := by
  fun_induction tokens c generalizing r pos with
  | case1 c hrest => exact ⟨pos, h⟩
  | case2 c hrest ih =>
    subst hpos
    have hstep := h.add (covers_nextToken hc) (isShown_of_rest_ne_nil hc hrest) (hc.advance _).isPosition
      (Nat.le_add_right _ _)
    exact ih hstep (hc.advance _) rfl

end Reading

/-- Reading begins with the root. -/
theorem sound_ofSource (filename : Path) (text : Text) :
    Reading.Sound text 0 ⟨.ofSource ⟨filename, text⟩, []⟩ := by
  have hroot : (Document.ofSource ⟨filename, text⟩).Sound text 0 := by
    refine ⟨⟨filename, rfl⟩, Nat.one_pos, fun id node hnode => ?_, fun id node hnode => ?_⟩
    · cases id with
      | zero =>
        cases hnode
        exact fun _ hp => nomatch hp
      | succ id => cases hnode
    · cases id with
      | zero =>
        cases hnode
        exact ⟨rfl, List.forall_mem_nil _, fun hid => absurd rfl hid⟩
      | succ id => cases hnode
  exact ⟨hroot, fun _ _ hentry => absurd hentry List.not_mem_nil⟩

theorem sound_read (filename : Path) (text : Text) :
    ∃ pos, (read filename text).Sound text pos := by
  have hstart : (Cursor.atStart text 0).In text := text.holds_self
  obtain ⟨stop, hstop⟩ := (sound_ofSource filename text).addTokens hstart rfl
  exact ⟨stop, hstop.document⟩

end Markup

end Errata
