import Errata.Lint
import Errata.Proofs.Header
import Errata.Proofs.Slices.Text

/-!
# Checks that cut their text

Lines and columns are counted here in slices of a text. Misspellings are looked up by their numbers in the
list of problems, a header is cut at its parentheses, and a step before its figure. None of these cuts and
look-ups fails, and what is found is the same.
-/

namespace Errata

/-! ## 1. Lines and columns -/

namespace Text

/-- The position of the last newline. -/
def lastNewline? (t : Text) : Option Nat :=
  match t.reverse.dropWhile (· ≠ '\n') with
  | [] => none
  | _ :: before => some (size before.reverse)

/-- Number of newlines before a position. -/
def lineNumberAt? (t : Text) (offset : Nat) : Option Nat := do return newlines (← t.upTo? offset)

/-- Number of characters from the last newline before a position up to the position. -/
def columnNumberAt? (t : Text) (offset : Nat) : Option Nat := do
  let before ← t.upTo? offset
  match before.lastNewline? with
  | some start => return (← t.slice? (start + 1) offset).length
  | none => return before.length

/-- Line and column at a position. -/
def lineColumnAt? (t : Text) (offset : Nat) : Option (Nat × Nat) := do
  let position := min offset t.size
  return ((← t.lineNumberAt? position) + 1, (← t.columnNumberAt? position) + 1)

theorem upTo?_eq (t : Text) (offset : Nat) : t.upTo? offset = (cut? offset t).map Prod.fst := by
  cases t <;> rfl

theorem dropWhile_reverse {last : Text} (hlast : '\n' ∉ last) (rest : Text) :
    (last.reverse ++ rest).dropWhile (· ≠ '\n') = rest.dropWhile (· ≠ '\n') := by
  refine List.dropWhile_append_of_pos fun c hc => decide_eq_true ?_
  rintro rfl
  exact hlast (List.mem_reverse.mp hc)

theorem columnNumberAt?_append (before after : Text) :
    columnNumberAt? (before ++ after) before.size = some before.lastLineLength := by
  rw [columnNumberAt?, upTo?_append]
  obtain ⟨last, hlast, hlength, hbefore | ⟨early, hbefore⟩⟩ := before.lastLine_cases
  · have hnone : before.lastNewline? = none := by
      have hdrop := dropWhile_reverse hlast []
      rw [List.append_nil] at hdrop
      rw [lastNewline?, hbefore, hdrop]
      rfl
    simp [hnone, ← hlength, ← hbefore]
  · -- the slice begins after the last newline, which has one byte
    subst hbefore
    have hsome : lastNewline? (early ++ '\n' :: last) = some early.size := by
      have hreverse : (early ++ '\n' :: last).reverse = last.reverse ++ '\n' :: early.reverse := by simp
      rw [lastNewline?, hreverse, dropWhile_reverse hlast]
      simp
    have hheld : Holds ((early ++ '\n' :: last) ++ after) (early.size + 1) last :=
      ⟨early ++ ['\n'], after, by simp, by rw [size_append]; rfl⟩
    have hstop : size (early ++ '\n' :: last) = early.size + 1 + last.size := by
      rw [size_append, size_cons, Nat.add_assoc]
      rfl
    dsimp only [Option.bind_eq_bind, Option.bind]
    rw [hsome, hstop]
    dsimp only
    rw [slice?_of_holds hheld, ← hlength]
    rfl

theorem append_of_cut? {t before after : Text} {offset : Nat} (h : cut? offset t = some (before, after)) :
    t = before ++ after ∧ before.size = offset := by
  fun_induction cut? offset t generalizing before after with
  | case1 t =>
    cases h
    exact ⟨rfl, rfl⟩
  | case2 => cases h
  | case3 n c t hle ih =>
    obtain ⟨parts, hparts, heq⟩ := Option.map_eq_some_iff.mp h
    cases heq
    obtain ⟨ht, hsize⟩ := ih hparts
    refine ⟨congrArg (c :: ·) ht, ?_⟩
    rw [size_cons, hsize]
    omega
  | case4 => cases h

/-- The slices for a line and a column are there whenever the position is. -/
theorem lineColumnAt?_eq (t : Text) (offset : Nat) : t.lineColumnAt? offset = t.lineColumn? offset := by
  unfold lineColumnAt? lineColumn? lineNumberAt?
  dsimp only
  cases hcut : cut? (min offset t.size) t with
  | none =>
    rw [upTo?_eq, hcut]
    rfl
  | some parts =>
    obtain ⟨ht, hsize⟩ := append_of_cut? hcut
    rw [← hsize, ht, upTo?_append, columnNumberAt?_append]
    rfl

end Text

/-! ## 2. Misspellings -/

namespace Spelling

/-- The numbers of the problems that a text has. -/
def hits (t : Text) : List Nat :=
  (problems.zipIdx.filter fun (problem, _) => !(Text.occurrences problem.pattern t).isEmpty).map Prod.snd

/-- The misspellings of one kind in the source with the given number, whose text is `t`. -/
def misspellingsOfAt? (doc : Document) (source : SourceId) (t : Text) (problem : Problem) :
    Option (List Misspelling) :=
  (Text.occurrences problem.pattern t).mapM fun place => do
    let { text, .. } ← doc.sources[source]?
    let (line, column) ← text.lineColumnAt? (Text.size (t.take place))
    return { problem, line, column }

def misspellingsAt? (doc : Document) (source : SourceId) (t : Text) : Option (List Misspelling) := do
  let found ← (hits t).mapM fun i => do misspellingsOfAt? doc source t (← problems[i]?)
  return found.flatten

theorem flatMap_filter {α β : Type} {p : α → Bool} {g : α → List β} (h : ∀ a, p a = false → g a = [])
    (l : List α) : (l.filter p).flatMap g = l.flatMap g := by
  induction l with
  | nil => rfl
  | cons a l ih =>
    rw [List.filter_cons, List.flatMap_cons]
    split
    · rw [List.flatMap_cons, ih]
    · rename_i ha
      rw [ih, h a (Bool.eq_false_iff.mpr ha), List.nil_append]

section

variable {doc : Document} {i : SourceId} {source : Source} (h : doc.sources[i]? = some source)

include h

theorem misspellingsOfAt?_eq (problem : Problem) :
    misspellingsOfAt? doc i source.text problem = some (misspellingsOf source.text problem) := by
  refine mapM_eq_some fun place _ => ?_
  have hposition := Text.lineColumn?_size_append (source.text.take place) (source.text.drop place)
  rw [List.take_append_drop, ← Text.lineColumnAt?_eq] at hposition
  rw [h]
  dsimp only [Option.bind_eq_bind, Option.bind]
  rw [hposition]
  rfl

/-- Every number that is hit is that of a problem, and a problem that is not hit has no misspellings. -/
theorem misspellingsAt?_eq : misspellingsAt? doc i source.text = some (misspellings source.text) := by
  have hread :
      ∀ entry ∈ problems.zipIdx.filter fun entry => !(Text.occurrences entry.1.pattern source.text).isEmpty,
        (do misspellingsOfAt? doc i source.text (← problems[entry.2]?)) =
          some (misspellingsOf source.text entry.1) := by
    intro entry hentry
    rw [List.mem_zipIdx_iff_getElem?.mp (List.mem_filter.mp hentry).1]
    exact misspellingsOfAt?_eq h entry.1
  have hmissed : ∀ entry : Problem × Nat, (!(Text.occurrences entry.1.pattern source.text).isEmpty) = false →
      misspellingsOf source.text entry.1 = [] := by
    intro entry hentry
    have hnil : Text.occurrences entry.1.pattern source.text = [] := by simpa using hentry
    rw [misspellingsOf, hnil]
    rfl
  have hall : problems.zipIdx.flatMap (fun entry => misspellingsOf source.text entry.1) =
      misspellings source.text := by
    rw [← List.flatMap_map, List.zipIdx_map_fst]
    rfl
  have hmapM : ((hits source.text).mapM fun k => do misspellingsOfAt? doc i source.text (← problems[k]?)) =
      some ((problems.zipIdx.filter fun entry => !(Text.occurrences entry.1.pattern source.text).isEmpty).map
        fun entry => misspellingsOf source.text entry.1) := by
    rw [hits, List.mapM_map]
    exact mapM_eq_some hread
  rw [misspellingsAt?, hmapM]
  show some (List.flatten _) = _
  rw [← List.flatMap_def, flatMap_filter hmissed, hall]

end

end Spelling

/-- The misspellings in all sources. -/
def Lint.spellingAt? (doc : Document) : Option (List Diagnostic) := do
  let found ← doc.sources.zipIdx.mapM fun (source, i) => do
    return (← Spelling.misspellingsAt? doc i source.text).map (.ofMisspelling i)
  return found.flatten

theorem Lint.spellingAt?_eq (doc : Document) : spellingAt? doc = some (spelling doc) := by
  have hread : doc.sources.zipIdx.mapM (fun (source, i) => do
      return (← Spelling.misspellingsAt? doc i source.text).map (Diagnostic.ofMisspelling i)) =
      some (doc.sources.zipIdx.map fun (source, i) =>
        (Spelling.misspellings source.text).map (Diagnostic.ofMisspelling i)) := by
    refine mapM_eq_some fun entry hentry => ?_
    dsimp only
    rw [Spelling.misspellingsAt?_eq (List.mem_zipIdx_iff_getElem?.mp hentry)]
    rfl
  rw [spellingAt?, hread, spelling, List.flatMap_def]
  rfl

/-! ## 3. Headers -/

namespace Header

/-- The findings in a header without blanks around it. -/
def checkContentsAt? (contents : Text) : Option (List (Finding Problem)) :=
  if !contents.endsWith ")" || isOperator contents then return []
  else match contents.find? ['('] with
    | none => return []
    | some n => do
      let opening := Text.size (contents.take n)
      let name ← contents.upTo? opening
      let parameters ← contents.slice? (opening + 1) (contents.size - 1)
      return checkName name ++ if isParameterList parameters then [] else [⟨.parameters, opening + 1⟩]

def checkElementAt? (doc : Document) (id : NodeId) : Faulting Fault (List (Complaint Problem)) := do
  let text ← doc.textExcluding id Collection.deletedName
  let lead := text.size - text.trimStart.size
  let findings ← checkContentsAt? text.trim
  findings.mapM fun f => do
    let offset ← doc.textOffset? id Collection.deletedName (lead + f.offset)
    return { problem := f.problem, element := id, offset := offset.getD 0 }

def checkAt? (doc : Document) (headers : List Collection.Header) :
    Faulting Fault (List (Complaint Problem)) := do
  let outside := headers.filter fun header => !header.inAnnex
  return (← outside.mapM fun header => checkElementAt? doc header.element).flatten

/-- What is cut out of a header stands between its first opening parenthesis and its last character. -/
theorem exists_parameters {contents : Text} (h : contents.endsWith ")") {n : Nat}
    (hn : contents.find? ['('] = some n) : ∃ parameters, contents.drop n = '(' :: (parameters ++ [')']) := by
  obtain ⟨rest, hsplit, hrest⟩ := append_of_endsWith h hn
  have hdrop : contents.drop n = '(' :: rest := by
    have happend := (List.take_append_drop n contents).trans hsplit
    exact List.append_cancel_left happend
  obtain ⟨init, hinit⟩ := List.isSuffixOf_iff_suffix.mp h
  obtain ⟨parameters, last, rfl⟩ := (List.eq_nil_or_concat rest).resolve_left hrest
  rw [List.concat_eq_append] at hsplit hdrop
  have hlast := congrArg List.getLast? (hinit.trans hsplit)
  have hclosing : (init ++ ")".toList).getLast? = some ')' := List.getLast?_concat
  rw [hclosing, ← List.cons_append, ← List.append_assoc, List.getLast?_concat] at hlast
  cases hlast
  exact ⟨parameters, hdrop⟩

theorem checkContentsAt?_eq (contents : Text) :
    checkContentsAt? contents = some (checkContents contents) := by
  unfold checkContentsAt? checkContents
  split
  · rfl
  · rename_i hlooked
    have hends : contents.endsWith ")" = true := by
      rw [Bool.or_eq_true, not_or, Bool.not_eq_true', Bool.not_eq_false] at hlooked
      exact hlooked.1
    cases hn : contents.find? ['('] with
    | none => rfl
    | some n =>
      obtain ⟨parameters, hdrop⟩ := exists_parameters hends hn
      have hinner : (contents.drop (n + 1)).dropLast = parameters := by
        rw [← List.drop_drop, hdrop, List.drop_one, List.tail_cons, List.dropLast_concat]
      have hcontents : contents = (contents.take n ++ ['(']) ++ parameters ++ [')'] := by
        rw [List.append_assoc, List.append_assoc, List.singleton_append, ← hdrop, List.take_append_drop]
      have hheld : contents.Holds (Text.size (contents.take n) + 1) parameters :=
        ⟨_, _, hcontents, by rw [Text.size_append]; rfl⟩
      -- the header ends with a parenthesis, so one byte less is again a position
      have hstop : contents.size - 1 = Text.size (contents.take n) + 1 + Text.size parameters := by
        have hsize := congrArg Text.size hcontents
        simp only [Text.size_append] at hsize
        have hparens : Text.size ['('] = 1 ∧ Text.size [')'] = 1 := ⟨rfl, rfl⟩
        omega
      dsimp only
      rw [Text.upTo?_size_take, hstop, Text.slice?_of_holds hheld, hinner]
      rfl

theorem returns_checkElementAt? (doc : Document) (id : NodeId) :
    Returns (checkElementAt? doc id) (checkElement doc id) := by
  refine Returns.bind rfl fun text _ => returns_lift (checkContentsAt?_eq text.trim) ?_
  rw [checkText, List.mapM_map]
  exact returns_mapM fun f _ => Returns.bind rfl fun offset _ => returns_pure _

theorem returns_checkAt? (doc : Document) (headers : List Collection.Header) :
    Returns (checkAt? doc headers) (check doc headers) :=
  (returns_mapM fun header _ => returns_checkElementAt? doc header.element).bind fun _ _ => returns_pure _

end Header

/-! ## 4. Steps -/

namespace Style

def checkFigureAt? (content : Fragment) : Option (List (Finding Problem)) :=
  match Figure.opening? content.text with
  | none => return []
  | some n => do
    let before := Text.trimEnd (← content.text.upTo? (Text.size (content.text.take n)))
    return require (before.endsWith ":") .figureWithoutColon (content.offset + before.size)

def checkLineAt? (step : Step) (items : Expression) : Option (List (Finding Problem)) :=
  if !items.isEmpty && !endsWithPre items && step.content.text.endsWith "</figure>" then
    checkFigureAt? step.content
  else return checkLine step items

def checkStepAt? (cache : Cache) (kind : ListKind) (step : Step) (next : Option Step) :
    Option (List (Finding Problem)) := do
  let own := checkNumber kind step ++ step.attributes.flatMap checkAttribute
  match cache.get? step.id with
  | none => return own
  | some items =>
    let line ← if kind = .ordered then checkLineAt? step items else pure []
    let following := match next with
      | none => []
      | some next =>
        match cache.get? next.id with
        | none => []
        | some following => checkElse step items next following
    return own ++ (line ++ checkEnums items ++ checkLoop items ++ following)

mutual

def checkListAt? (cache : Cache) : StepList → Option (List (Finding Problem))
  | ⟨kind, steps⟩ => checkStepsAt? cache kind steps

def checkStepsAt? (cache : Cache) (kind : ListKind) : List Step → Option (List (Finding Problem))
  | [] => return []
  | step :: steps => do
    let here ← checkStepAt? cache kind step steps.head?
    let below ← checkBelowAt? cache step
    return here ++ below ++ (← checkStepsAt? cache kind steps)

def checkBelowAt? (cache : Cache) : Step → Option (List (Finding Problem))
  | ⟨_, _, _, _, none⟩ => return []
  | ⟨_, _, _, _, some list⟩ => checkListAt? cache list

end

theorem checkFigureAt?_eq (content : Fragment) : checkFigureAt? content = some (checkFigure content) := by
  unfold checkFigureAt? checkFigure
  cases Figure.opening? content.text with
  | none => rfl
  | some n =>
    dsimp only
    rw [Text.upTo?_size_take]
    rfl

theorem checkLineAt?_eq (step : Step) (items : Expression) :
    checkLineAt? step items = some (checkLine step items) := by
  unfold checkLineAt?
  split
  · rename_i h
    simp only [Bool.and_eq_true, Bool.not_eq_true'] at h
    obtain ⟨⟨hitems, hpre⟩, hfigure⟩ := h
    rw [checkFigureAt?_eq, checkLine]
    simp [hitems, hpre, hfigure]
  · rfl

theorem checkStepAt?_eq (cache : Cache) (kind : ListKind) (step : Step) (next : Option Step) :
    checkStepAt? cache kind step next = some (checkStep cache kind step next) := by
  unfold checkStepAt? checkStep
  cases cache.get? step.id with
  | none => simp
  | some items =>
    simp only [checkLineAt?_eq]
    split
    · rfl
    · rfl

mutual

theorem checkListAt?_eq (cache : Cache) : ∀ list, checkListAt? cache list = some (checkList cache list)
  | ⟨kind, steps⟩ => checkStepsAt?_eq cache kind steps

theorem checkStepsAt?_eq (cache : Cache) (kind : ListKind) :
    ∀ steps, checkStepsAt? cache kind steps = some (checkSteps cache kind steps)
  | [] => rfl
  | step :: steps => by
    rw [checkStepsAt?, checkStepAt?_eq, checkBelowAt?_eq cache step, checkStepsAt?_eq cache kind steps]
    rfl

theorem checkBelowAt?_eq (cache : Cache) : ∀ step, checkBelowAt? cache step = some (checkBelow cache step)
  | ⟨_, _, _, _, none⟩ => rfl
  | ⟨_, _, _, _, some list⟩ => checkListAt?_eq cache list

end

end Style
end Errata
