import Errata.Proofs.Markup.Reader
import Errata.Proofs.Slices.Text

/-!
# Reading markup by positions

Markup is read here with positions in what is left of the text, a table of nodes that is changed at the number
of a node, and a stack of the elements that are open, the innermost last. Slicing at what is no position and
looking up a number that is not in use have no result. Neither comes to pass, and the document is the same.
-/

namespace Errata

open Text

/-! ## 1. The table of nodes -/

namespace Document

/-- Changes the element of the node with the given number. -/
def changeAt? (nodes : List Node) (id : NodeId) (f : Element → Element) : Option (List Node) := do
  let node ← nodes[id]?
  return nodes.set id (node.mapElement f)

def appendAt? (doc : Document) (parent : NodeId) (content : Content) : Option Document := do
  let nodes ← changeAt? (doc.nodes ++ [{ parent := some parent, content }]) parent fun e =>
    { e with children := e.children ++ [doc.count] }
  return { doc with nodes }

def closeAt? (doc : Document) (id : NodeId) (endTag : Option Span) : Option Document := do
  let nodes ← changeAt? doc.nodes id fun e => { e with endTag }
  return { doc with nodes }

end Document

/-! ## 2. Tokens -/

namespace Markup

/-- The end of a start tag: whether a slash closes the tag, and the number of characters. -/
def tagEnd? (t : Text) : Option (Bool × Nat) :=
  let blanks := (t.takeWhile isBlank).length
  match t.drop blanks with
  | '>' :: _ => some (false, blanks + 1)
  | '/' :: '>' :: _ => some (true, blanks + 2)
  | _ => none

/-- An attribute with the blanks before it, and the number of characters. -/
def spacedAttribute? (t : Text) : Option (Attribute × Nat) :=
  let blanks := (t.takeWhile isBlank).length
  if blanks = 0 then none else (attribute? (t.drop blanks)).map fun (a, n) => (a, blanks + n)

/-- What follows the attributes of a start tag that have been read, and the position after it. -/
def tagRestFrom? (t : Text) (attributes : List Attribute) (i : Nat) :
    Option (Option (List Attribute × Bool × Nat)) := do
  let rest ← t.from? i
  match tagEnd? rest with
  | some (closed, n) => return some (attributes, closed, i + size (rest.take n))
  | none =>
    match spacedAttribute? rest with
    | none => return none
    | some (a, n) =>
      let again : Text → List Attribute → Nat → Option (Option (List Attribute × Bool × Nat)) := by
        apply tagRestFrom?
      again t (attributes ++ [a]) (i + size (rest.take n))
partial_fixpoint

/-- A start tag and the position after it. -/
def startTagAt? (t : Text) : Option (Option (Tag × Nat)) :=
  match Scan.seq [.char '<', .word isNameChar] t with
  | none => return none
  | some n => do
    let found ← tagRestFrom? t [] (size (t.take n))
    return found.map fun (attributes, closed, i) =>
      ({ name := toLower ((t.take n).drop 1), attributes, closed }, i)

/-- The position after the first occurrence of `needle`, or after everything. -/
def positionThrough (needle : String) (t : Text) : Nat :=
  match t.find? needle.toList with
  | some n => size (t.take n) + size needle.toList
  | none => t.size

/-- The element whose start tag has been read. Its end tag is looked for in a copy with small letters, and
what is found there is a position of the copy. -/
def rawElementAt? (tag : Tag) (span : Span) (c : Cursor) : Option (Token × Cursor) :=
  let copy := toLower c.rest
  match copy.find? ("</".toList ++ tag.name) with
  | some n => do
    let i := size (copy.take n)
    let stop := i + positionThrough ">" (← c.rest.from? i)
    let inner : Span := ⟨c.offset, c.offset + i⟩
    return (.rawElement tag span inner (some ⟨c.offset + i, c.offset + stop⟩), ← c.move? stop)
  | none => do
    let after ← c.move? c.rest.size
    return (.rawElement tag span ⟨c.offset, after.offset⟩ none, after)

/-- The token that has so many bytes, and the cursor after it. -/
def passing? (c : Cursor) (width : Nat) (token : Span → Token) : Option (Token × Cursor) := do
  return (token ⟨c.offset, c.offset + width⟩, ← c.move? width)

/-- Text up to the next `<` that is not the first character. -/
def textAt? (c : Cursor) : Option (Token × Cursor) := do
  let skip := if c.rest.startsWith "<" then 1 else 0
  let after ← c.rest.from? skip
  match after.find? ['<'] with
  | some n => passing? c (skip + size (after.take n)) .text
  | none => passing? c c.rest.size .text

/-- The next token and the cursor after it. -/
def nextTokenAt? (c : Cursor) : Option (Token × Cursor) :=
  if c.rest.startsWith "<!--" then passing? c (positionThrough "-->" c.rest) .comment
  else if c.rest.startsWith "<!" || c.rest.startsWith "<?" then
    passing? c (positionThrough ">" c.rest) .comment
  else match endTag? c.rest with
    | some (name, n) => passing? c (size (c.rest.take n)) (.endTag name)
    | none => do
      match ← startTagAt? c.rest with
      | some (tag, i) =>
        if rawTextNames.contains tag.name && !tag.closed then
          rawElementAt? tag ⟨c.offset, c.offset + i⟩ (← c.move? i)
        else passing? c i (.startTag tag)
      | none => textAt? c

/-! ## 3. Elements that are open -/

/-- A document being read. -/
structure Building where
  document : Document
  /-- The elements that are still open, the innermost last. -/
  stack : List (NodeId × Text)

namespace Building

def current (b : Building) (base : NodeId) : NodeId := (b.stack.getLast?.map Prod.fst).getD base

def makeRoom? (b : Building) (base : NodeId) (name : Text) : Option (List (NodeId × Text) × NodeId) :=
  match b.stack.getLast? with
  | some (id, last) =>
    if last = name && selfEndingNames.contains name then do
      let node ← b.document.nodes[id]?
      return (b.stack.dropLast, node.parent.getD base)
    else return (b.stack, id)
  | none => return (b.stack, base)

/-- Adds the element that a start tag begins. -/
def begin? (source : SourceId) (base : NodeId) (b : Building) (tag : Tag) (span : Span) : Option Building := do
  let (stack, parent) ← b.makeRoom? base tag.name
  return ⟨← b.document.appendAt? parent (.element (tag.element source span none)), stack⟩

/-- Adds what one token stands for. An element is closed after it has been added. -/
def add? (source : SourceId) (base : NodeId) (b : Building) : Token → Option Building
  | .text span => do
    return { b with document := ← b.document.appendAt? (b.current base) (.text source span) }
  | .comment _ => return b
  | .startTag tag span => do
    let id := b.document.count
    let begun ← b.begin? source base tag span
    if tag.closed || voidNames.contains tag.name then
      return { begun with document := ← begun.document.closeAt? id (some ⟨span.stop, span.stop⟩) }
    else return { begun with stack := begun.stack ++ [(id, tag.name)] }
  | .rawElement tag span inner endTag => do
    let id := b.document.count
    let begun ← b.begin? source base tag span
    if inner.start < inner.stop then
      let filled ← begun.document.appendAt? id (.text source inner)
      return { begun with document := ← filled.closeAt? id endTag }
    else return { begun with document := ← begun.document.closeAt? id endTag }
  | .endTag name span =>
    -- the last element of that name, by its number in the stack
    match b.stack.reverse.findIdx? (·.2 = name) with
    | none => return b
    | some k => do
      let i := b.stack.length - 1 - k
      let (id, _) ← b.stack[i]?
      return ⟨← b.document.closeAt? id (some span), b.stack.take i⟩

end Building

/-- Reads on from a cursor. -/
def readFrom? (source : SourceId) (base : NodeId) (b : Building) (c : Cursor) : Option Document := do
  if c.rest.isEmpty then return b.document
  let again : SourceId → NodeId → Building → Cursor → Option Document := by apply readFrom?
  let (token, d) ← nextTokenAt? c
  again source base (← b.add? source base token) d
partial_fixpoint

/-- The document that a text is. -/
def readAt? (filename : Path) (text : Text) : Option Document := do
  let document := Document.ofSource ⟨filename, text⟩
  let source ← document.sources[0]?
  readFrom? 0 Document.root ⟨document, []⟩ (.atStart source.text 0)

/-! ## 4. Cuts that tokens make -/

theorem size_toLower (t : Text) : size (toLower t) = size t := by
  -- only ASCII letters change, and they stay ASCII letters
  have hchar : ∀ c : Char, c.toLower.utf8Size = c.utf8Size := by
    intro c
    unfold Char.toLower
    split
    · rename_i h
      have hhigh : c.toNat ≤ 90 := h.2
      rw [Char.utf8Size_eq_one_iff.mpr, Char.utf8Size_eq_one_iff.mpr]
      · exact UInt32.le_iff_toNat_le.mpr (Nat.le_trans hhigh (by decide))
      · refine UInt32.le_iff_toNat_le.mpr ?_
        show (c.val + 32).toNat ≤ 127
        rw [UInt32.toNat_add]
        simp
        omega
    · rfl
  induction t with
  | nil => rfl
  | cons c t ih => rw [toLower, List.map_cons, size_cons, size_cons, hchar, ← toLower, ih]

theorem size_take_toLower (t : Text) (n : Nat) : size ((toLower t).take n) = size (t.take n) := by
  rw [toLower, ← List.map_take]
  exact size_toLower (t.take n)

theorem positionThrough_eq (needle : String) (t : Text) :
    positionThrough needle t = size (t.take (widthThrough needle t)) := by
  unfold positionThrough widthThrough
  cases h : t.find? needle.toList with
  | none => rw [List.take_length]
  | some n =>
    dsimp only
    rw [List.take_add, size_append, ← List.prefix_iff_eq_take.mp (prefix_of_find? h)]

theorem find?_char (c : Char) (t : Text) :
    t.find? [c] =
      if (t.takeWhile (· ≠ c)).length < t.length then some (t.takeWhile (· ≠ c)).length else none := by
  induction t with
  | nil => rfl
  | cons first t ih =>
    rw [find?, List.takeWhile_cons]
    by_cases h : first = c
    · simp [h]
    · have hbegins : [c].isPrefixOf (first :: t) = false := by
        simp [List.isPrefixOf, Ne.symm h]
      rw [hbegins, ih]
      simp only [h, Bool.false_eq_true, if_false, ne_eq, not_false_eq_true, decide_true, if_true,
        List.length_cons, Nat.add_lt_add_iff_right]
      split <;> rfl

theorem passing?_eq (c : Cursor) (n : Nat) (token : Span → Token) :
    passing? c (size (c.rest.take n)) token = some (token (spanOf c 0 n), c.advance n) := by
  rw [passing?, c.move?_size_take]
  rfl

/-! ## 5. Tokens are the same -/

theorem tagRest?_eq (t : Text) :
    tagRest? t = match tagEnd? t with
      | some (closed, n) => some ([], closed, n)
      | none =>
        match spacedAttribute? t with
        | none => none
        | some (first, n) =>
          (tagRest? (t.drop n)).map fun found => (first :: found.1, found.2.1, n + found.2.2) := by
  have hle : (t.takeWhile isBlank).length ≤ t.length := (List.takeWhile_sublist _).length_le
  have hblanks : ((t.takeWhile isBlank).length = 0 ∨ t.length < (t.takeWhile isBlank).length) ↔
      (t.takeWhile isBlank).length = 0 := by
    omega
  rw [tagRest?]
  unfold tagEnd? spacedAttribute?
  simp only [hblanks]
  generalize t.drop (t.takeWhile isBlank).length = after
  split
  · rfl
  · rfl
  · simp only
    split
    · rfl
    · cases attribute? after with
      | none => rfl
      | some found => rfl

theorem spacedAttribute?_shorter {t : Text} {a : Attribute} {n : Nat} (h : spacedAttribute? t = some (a, n)) :
    (t.drop n).length < t.length := by
  unfold spacedAttribute? at h
  dsimp only at h
  split at h
  · cases h
  · rename_i hblanks
    obtain ⟨found, -, heq⟩ := Option.map_eq_some_iff.mp h
    cases heq
    have hle : (t.takeWhile isBlank).length ≤ t.length := (List.takeWhile_sublist _).length_le
    rw [List.length_drop]
    omega

theorem tagRestFrom?_eq (before t : Text) (attributes : List Attribute) :
    tagRestFrom? (before ++ t) attributes before.size =
      some ((tagRest? t).map fun found =>
        (attributes ++ found.1, found.2.1, before.size + size (t.take found.2.2))) := by
  -- each attribute leaves less of the tag, and moves what has been passed to the front
  induction hlength : t.length using Nat.strongRecOn generalizing before t attributes with
  | ind length ih =>
    rw [tagRestFrom?, from?_append, tagRest?_eq]
    dsimp only [Option.bind_eq_bind, Option.bind]
    cases hend : tagEnd? t with
    | some found => simp
    | none =>
      cases hattribute : spacedAttribute? t with
      | none => rfl
      | some found =>
        obtain ⟨first, n⟩ := found
        have hshorter := spacedAttribute?_shorter hattribute
        have hnext := ih _ (hlength ▸ hshorter) (before ++ t.take n) (t.drop n) (attributes ++ [first]) rfl
        rw [List.append_assoc, List.take_append_drop, size_append] at hnext
        dsimp only
        rw [hnext, Option.map_map]
        congr 2
        funext found
        simp only [Function.comp, List.append_assoc, List.singleton_append, List.take_add, size_append, Nat.add_assoc]

theorem startTagAt?_eq (t : Text) :
    startTagAt? t = some ((startTag? t).map fun found => (found.1, size (t.take found.2))) := by
  unfold startTagAt? startTag?
  cases Scan.seq [.char '<', .word isNameChar] t with
  | none => rfl
  | some n =>
    have hrest := tagRestFrom?_eq (t.take n) (t.drop n) []
    rw [List.take_append_drop] at hrest
    dsimp only [Option.bind_eq_bind, Option.bind]
    rw [hrest]
    cases tagRest? (t.drop n) with
    | none => rfl
    | some found =>
      simp only [Option.map_some, Option.pure_def, List.nil_append, List.take_add, size_append]

theorem rawElementAt?_eq (c : Cursor) (tag : Tag) (n : Nat) :
    rawElementAt? tag (spanOf c 0 n) (c.advance n) =
      some ((rawElement c tag n).1, c.advance (rawElement c tag n).2) := by
  unfold rawElementAt? rawElement
  simp only [Cursor.rest_advance]
  cases (toLower (c.rest.drop n)).find? ("</".toList ++ tag.name) with
  | none =>
    have hstop : (c.advance n).advance (c.rest.drop n).length = c.advance c.rest.length := by
      rw [← c.advance_add]
      refine c.advance_of_length_le ?_
      rw [List.length_drop]
      omega
    have hmove := (c.advance n).move?_size_take (c.rest.drop n).length
    rw [Cursor.rest_advance, List.take_length, hstop] at hmove
    dsimp only
    rw [hmove]
    rfl
  | some i =>
    have hposition : size ((c.rest.drop n).take i) + positionThrough ">" ((c.rest.drop n).drop i) =
        size ((c.rest.drop n).take (i + widthThrough ">" ((c.rest.drop n).drop i))) := by
      rw [positionThrough_eq, List.take_add, size_append]
    have hmove := (c.advance n).move?_size_take (i + widthThrough ">" ((c.rest.drop n).drop i))
    rw [Cursor.rest_advance] at hmove
    -- a position of the copy with small letters is one of the text
    dsimp only
    rw [size_take_toLower, from?_size_take]
    dsimp only [Option.bind_eq_bind, Option.bind]
    rw [hposition, hmove]
    simp only [spanOf, Nat.add_assoc, c.advance_add]
    rfl

theorem passing?_find? {c : Cursor} {skipped after : Text} (hrest : c.rest = skipped ++ after) :
    (match after.find? ['<'] with
      | some n => passing? c (skipped.size + size (after.take n)) .text
      | none => passing? c c.rest.size .text) =
      some (.text (spanOf c 0 (skipped.length + (after.takeWhile (· ≠ '<')).length)),
        c.advance (skipped.length + (after.takeWhile (· ≠ '<')).length)) := by
  have hwidth : size (c.rest.take (skipped.length + (after.takeWhile (· ≠ '<')).length)) =
      skipped.size + size (after.take (after.takeWhile (· ≠ '<')).length) := by
    rw [hrest, List.take_length_add_append, size_append]
  rw [find?_char, ← passing?_eq, hwidth]
  split
  · rename_i n hn
    split at hn
    · cases hn
      rfl
    · cases hn
  · rename_i hn
    split at hn
    · cases hn
    · rename_i hall
      rw [List.take_of_length_le (Nat.le_of_not_lt hall), hrest, size_append]

theorem textAt?_eq {c : Cursor} (h : c.rest ≠ []) :
    textAt? c = some (.text (spanOf c 0 (1 + ((c.rest.drop 1).takeWhile (· ≠ '<')).length)),
      c.advance (1 + ((c.rest.drop 1).takeWhile (· ≠ '<')).length)) := by
  obtain ⟨first, t, hrest⟩ := List.exists_cons_of_ne_nil h
  unfold textAt?
  dsimp only
  -- a `<` that begins no tag is text, and the next one is looked for after it
  by_cases hfirst : first = '<'
  · have hstarts : c.rest.startsWith "<" = true := by
      rw [hrest, hfirst]
      rfl
    have hafter : c.rest.from? 1 = some t := by
      rw [hrest, hfirst]
      exact from?_append ['<'] t
    have htext := @passing?_find? c ['<'] t (by rw [hrest, hfirst]; rfl)
    have hdrop : c.rest.drop 1 = t := by rw [hrest]; rfl
    rw [hstarts, if_pos rfl, hafter, hdrop]
    exact htext
  · have hstarts : c.rest.startsWith "<" = false := by
      rw [hrest]
      simp [startsWith, List.isPrefixOf, Ne.symm hfirst]
    have hafter : c.rest.from? 0 = some c.rest := from?_append [] c.rest
    have hlength : (c.rest.takeWhile (· ≠ '<')).length = 1 + ((c.rest.drop 1).takeWhile (· ≠ '<')).length := by
      rw [hrest, List.takeWhile_cons, if_pos (decide_eq_true hfirst), List.length_cons, Nat.add_comm]
      rfl
    have htext := @passing?_find? c [] c.rest rfl
    rw [List.length_nil, Nat.zero_add, hlength] at htext
    rw [hstarts, if_neg Bool.false_ne_true, hafter]
    exact htext

theorem nextTokenAt?_eq {c : Cursor} (h : c.rest ≠ []) :
    nextTokenAt? c = some ((nextToken c).1, c.advance (nextToken c).2) := by
  unfold nextTokenAt? nextToken
  split
  · rw [positionThrough_eq]
    exact passing?_eq c _ _
  split
  · rw [positionThrough_eq]
    exact passing?_eq c _ _
  cases hend : endTag? c.rest with
  | some found => exact passing?_eq c _ _
  | none =>
    dsimp only
    rw [startTagAt?_eq]
    cases hstart : startTag? c.rest with
    | none => exact textAt?_eq h
    | some found =>
      obtain ⟨tag, n⟩ := found
      dsimp only [Option.map, Option.bind_eq_bind, Option.bind]
      split
      · rw [c.move?_size_take]
        exact rawElementAt?_eq c tag n
      · exact passing?_eq c n _

end Markup

/-! ## 6. The document is the same -/

namespace Document

variable {doc : Document} {id parent : NodeId}

theorem changeAt?_eq {nodes : List Node} (h : id < nodes.length) (f : Element → Element) :
    changeAt? nodes id f = some (nodes.modify id (Node.mapElement f)) := by
  rw [changeAt?, List.getElem?_eq_getElem h, List.modify_eq_take_cons_drop h]
  simp [List.set_eq_take_append_cons_drop, h]

theorem appendAt?_eq (h : parent < doc.count) (content : Content) :
    doc.appendAt? parent content = some (doc.append parent content) := by
  rw [appendAt?, changeAt?_eq]
  · rfl
  · rw [List.length_append]
    exact Nat.lt_add_right 1 h

theorem closeAt?_eq (h : id < doc.count) (endTag : Option Span) :
    doc.closeAt? id endTag = some (doc.close id endTag) := by
  rw [closeAt?, changeAt?_eq h]
  rfl

theorem modify_append_of_lt {nodes : List Node} (h : id < nodes.length) (f : Node → Node) (others : List Node) :
    (nodes ++ others).modify id f = nodes.modify id f ++ others := by
  induction nodes generalizing id with
  | nil => exact absurd h (Nat.not_lt_zero id)
  | cons node nodes ih =>
    cases id with
    | zero => rfl
    | succ id => exact congrArg (node :: ·) (ih (Nat.lt_of_succ_lt_succ h))

theorem modify_append_length (nodes : List Node) (f : Node → Node) (node : Node) :
    (nodes ++ [node]).modify nodes.length f = nodes ++ [f node] := by
  induction nodes with
  | nil => rfl
  | cons first nodes ih => exact congrArg (first :: ·) ih

/-- An element that is closed when it has been added is added closed. -/
theorem close_append (h : parent < doc.count) (e : Element) (endTag : Option Span) :
    (doc.append parent (.element e)).close doc.count endTag =
      doc.append parent (.element { e with endTag }) := by
  unfold close append
  simp only [Document.mk.injEq, true_and]
  rw [modify_append_of_lt h, modify_append_of_lt h]
  have hlength : (doc.nodes.modify parent (Node.mapElement fun e =>
      { e with children := e.children ++ [doc.count] })).length = doc.count := List.length_modify _ _ _
  generalize doc.nodes.modify parent _ = others at hlength ⊢
  rw [← hlength, modify_append_length]
  rfl

/-- Whether a node is added below an element before the element is closed or after makes no difference. -/
theorem close_append_self (h : id < doc.count) (content : Content) (endTag : Option Span) :
    (doc.append id content).close id endTag = (doc.close id endTag).append id content := by
  unfold close append count
  simp only [Document.mk.injEq, true_and, List.length_modify]
  have hlength : ∀ f, id < (doc.nodes.modify id f).length := by
    intro f
    rw [List.length_modify]
    exact h
  rw [modify_append_of_lt h, modify_append_of_lt (hlength _), modify_append_of_lt (hlength _),
    List.modify_modify_eq, List.modify_modify_eq]
  congr 2
  funext node
  obtain ⟨above, content⟩ := node
  cases content with
  | element e => rfl
  | text source span => rfl

end Document

namespace Markup

/-- A reading with its elements in the order of the stack. -/
def Reading.building (r : Reading) : Building := ⟨r.document, r.opened.reverse⟩

namespace Reading

variable {text : Text} {pos : Nat} {r : Reading}

theorem current_building (r : Reading) (base : NodeId) : r.building.current base = r.current base := by
  rw [Building.current, building, List.getLast?_reverse]
  rfl

theorem Sound.makeRoom?_building (h : r.Sound text pos) (name : Text) :
    r.building.makeRoom? 0 name = some ((r.makeRoom 0 name).1.reverse, (r.makeRoom 0 name).2) := by
  unfold Building.makeRoom? Reading.makeRoom building
  dsimp only
  rw [List.getLast?_reverse]
  cases hopened : r.opened with
  | nil => rfl
  | cons entry outer =>
    obtain ⟨id, innermost⟩ := entry
    have hid : id < r.document.nodes.length := h.opened id innermost (by rw [hopened]; exact List.mem_cons_self)
    dsimp only [List.head?]
    split
    · rw [List.getElem?_eq_getElem hid, List.dropLast_reverse, Document.parent?, Document.node?,
        List.getElem?_eq_getElem hid]
      rfl
    · rfl

theorem closing?_eq (name : Text) (opened : List (NodeId × Text)) :
    closing? name opened = (opened.findIdx? (·.2 = name)).bind fun k =>
      opened[k]?.map fun entry => (entry.1, opened.drop (k + 1)) := by
  induction opened with
  | nil => rfl
  | cons entry outer ih =>
    obtain ⟨id, innermost⟩ := entry
    rw [closing?, List.findIdx?_cons, ih]
    by_cases h : innermost = name
    · simp [h]
    · simp only [h, decide_false, Bool.false_eq_true, if_false]
      cases outer.findIdx? (·.2 = name) with
      | none => rfl
      | some k => rfl

theorem Sound.addEndTag?_building (h : r.Sound text pos) (name : Text) (span : Span) :
    r.building.add? 0 0 (.endTag name span) = some (r.add 0 0 (.endTag name span)).building := by
  unfold Building.add? Reading.add building
  dsimp only
  rw [closing?_eq, List.reverse_reverse, List.length_reverse]
  cases hk : r.opened.findIdx? (·.2 = name) with
  | none => rfl
  | some k =>
    obtain ⟨hlt, -⟩ := List.findIdx?_eq_some_iff_getElem.mp hk
    -- the stack has the innermost element last, so its numbers count from the other end
    have hentry : r.opened.reverse[r.opened.length - 1 - k]? = some r.opened[k] := by
      rw [List.getElem?_reverse (by omega), ← List.getElem?_eq_getElem hlt]
      congr 1
      omega
    have htake : r.opened.reverse.take (r.opened.length - 1 - k) = (r.opened.drop (k + 1)).reverse := by
      rw [List.take_reverse]
      congr 2
      omega
    have hid : r.opened[k].1 < r.document.count := h.opened _ r.opened[k].2 (List.getElem_mem hlt)
    dsimp only [Option.bind_eq_bind, Option.bind]
    rw [hentry, htake, List.getElem?_eq_getElem hlt]
    dsimp only
    rw [Document.closeAt?_eq hid]
    rfl

theorem Sound.begin?_building (h : r.Sound text pos) (tag : Tag) (span : Span) :
    r.building.begin? 0 0 tag span =
      some ⟨r.document.append (r.makeRoom 0 tag.name).2 (.element (tag.element 0 span none)),
        (r.makeRoom 0 tag.name).1.reverse⟩ := by
  rw [Building.begin?, h.makeRoom?_building]
  dsimp only [Option.bind_eq_bind, Option.bind, building]
  rw [Document.appendAt?_eq (h.makeRoom tag.name).2]
  rfl

theorem Sound.add?_building (h : r.Sound text pos) (token : Token) :
    r.building.add? 0 0 token = some (r.add 0 0 token).building := by
  have hcount : ∀ parent content, r.document.count < (r.document.append parent content).count := by
    intro parent content
    rw [Document.count_append]
    exact Nat.lt_succ_self _
  cases token with
  | text span =>
    rw [Building.add?, current_building, building, Document.appendAt?_eq h.current_lt]
    rfl
  | comment span => rfl
  | startTag tag span =>
    rw [Building.add?, h.begin?_building]
    dsimp only [Option.bind_eq_bind, Option.bind, building]
    rw [Reading.add]
    split
    · rw [Document.closeAt?_eq (hcount _ _), Document.close_append (h.makeRoom tag.name).2]
      rfl
    · simp only [List.reverse_cons]
      rfl
  | rawElement tag span inner endTag =>
    rw [Building.add?, h.begin?_building]
    dsimp only [Option.bind_eq_bind, Option.bind, building]
    rw [Reading.add]
    split
    · rw [Document.appendAt?_eq (hcount _ _)]
      dsimp only
      rw [Document.closeAt?_eq, Document.close_append_self (hcount _ _),
        Document.close_append (h.makeRoom tag.name).2]
      · rfl
      · rw [Document.count_append]
        exact Nat.lt_succ_of_lt (hcount _ _)
    · rw [Document.closeAt?_eq (hcount _ _), Document.close_append (h.makeRoom tag.name).2]
      rfl
  | endTag name span => exact h.addEndTag?_building name span

end Reading

theorem readFrom?_eq {text : Text} {r : Reading} {c : Cursor} (h : r.Sound text c.offset) (hc : c.In text) :
    readFrom? 0 0 r.building c = some ((tokens c).foldl (Reading.add 0 0) r).document := by
  fun_induction tokens c generalizing r with
  | case1 c hrest =>
    rw [readFrom?, hrest]
    rfl
  | case2 c hrest ih =>
    have hstep := h.add (covers_nextToken hc) (isShown_of_rest_ne_nil hc hrest) (hc.advance _).isPosition
      (Nat.le_add_right _ _)
    have hmore : c.rest.isEmpty = false := by
      rw [List.isEmpty_eq_false_iff]
      exact hrest
    rw [readFrom?, hmore, nextTokenAt?_eq hrest]
    dsimp only [Option.bind_eq_bind, Option.bind]
    rw [h.add?_building]
    exact ih hstep (hc.advance _)

/-- Reading markup by positions always gives the document that the text is. -/
theorem readAt?_eq (filename : Path) (text : Text) : readAt? filename text = some (read filename text) := by
  have hstart : (Cursor.atStart text 0).In text := text.holds_self
  exact readFrom?_eq (sound_ofSource filename text) hstart

end Markup
end Errata
