import Errata.Header
import Errata.Proofs.Text.Placement

/-!
# Brackets in lists of parameters

Optional parameters stand in brackets. Of the forms that a list of parameters may have, one holds brackets: those
that open come first and those that close come last, but neither are counted. So a list without a complaint has
balanced brackets exactly if there are as many of the one as of the other.
-/

namespace Errata.Header

/-! ## 1. Brackets -/

def isBracket (c : Char) : Bool := c == '[' || c == ']'

/-- The brackets of a text. -/
def brackets (t : Text) : Text := t.filter isBracket

/-- How many opening brackets are still unmatched behind a text, if `depth` are before it. None, if a closing
bracket comes without an unmatched one before it. -/
def unmatched : Nat → Text → Option Nat
  | depth, [] => some depth
  | depth, c :: t =>
    if c = '[' then unmatched (depth + 1) t
    else if c = ']' then (if depth = 0 then none else unmatched (depth - 1) t)
    else unmatched depth t

/-- Every opening bracket has a closing one of its own after it, and every closing one an opening one before. -/
def IsBalanced (t : Text) : Prop := unmatched 0 t = some 0

instance (t : Text) : Decidable (IsBalanced t) := inferInstanceAs (Decidable (unmatched 0 t = some 0))

theorem unmatched_cons {c : Char} (hopen : c ≠ '[') (hclose : c ≠ ']') (depth : Nat) (t : Text) :
    unmatched depth (c :: t) = unmatched depth t := by
  rw [unmatched, if_neg hopen, if_neg hclose]

theorem unmatched_brackets (depth : Nat) (t : Text) : unmatched depth (brackets t) = unmatched depth t := by
  induction t generalizing depth with
  | nil => rfl
  | cons c t ih =>
    by_cases hopen : c = '['
    · rw [hopen]
      exact ih (depth + 1)
    by_cases hclose : c = ']'
    · rw [hclose]
      cases depth with
      | zero => rfl
      | succ depth => exact ih depth
    · have hother : isBracket c = false := by simp [isBracket, hopen, hclose]
      rw [unmatched_cons hopen hclose, brackets, List.filter_cons_of_neg (by simp [hother])]
      exact ih depth

theorem unmatched_closing (depth closed : Nat) :
    unmatched depth (List.replicate closed ']') = if closed ≤ depth then some (depth - closed) else none := by
  induction closed generalizing depth with
  | zero => rfl
  | succ closed ih =>
    cases depth with
    | zero => rfl
    | succ depth =>
      show unmatched depth (List.replicate closed ']') = _
      rw [ih]
      simp

theorem unmatched_opening (depth opened : Nat) (t : Text) :
    unmatched depth (List.replicate opened '[' ++ t) = unmatched (depth + opened) t := by
  induction opened generalizing depth with
  | zero => rfl
  | succ opened ih =>
    show unmatched (depth + 1) (List.replicate opened '[' ++ t) = _
    rw [ih, Nat.add_right_comm, Nat.add_assoc]

/-- Brackets that open and then brackets that close. -/
def OpensFirst (t : Text) : Prop :=
  ∃ opened closed, t = List.replicate opened '[' ++ List.replicate closed ']'

theorem OpensFirst.brackets_eq {t : Text} (h : OpensFirst (brackets t)) :
    brackets t = List.replicate (t.count '[') '[' ++ List.replicate (t.count ']') ']' := by
  obtain ⟨opened, closed, heq⟩ := h
  have hcount : ∀ c, isBracket c = true →
      t.count c = (List.replicate opened '[' ++ List.replicate closed ']').count c := by
    intro c hc
    rw [← heq]
    exact (List.count_filter hc).symm
  have hopened : t.count '[' = opened := (hcount '[' rfl).trans (by simp [List.count_replicate])
  have hclosed : t.count ']' = closed := (hcount ']' rfl).trans (by simp [List.count_replicate])
  rw [hopened, hclosed]
  exact heq

theorem OpensFirst.isBalanced_iff {t : Text} (h : OpensFirst (brackets t)) :
    IsBalanced t ↔ t.count '[' = t.count ']' := by
  rw [IsBalanced, ← unmatched_brackets, h.brackets_eq, unmatched_opening, unmatched_closing, Nat.zero_add]
  split
  · rw [Option.some.injEq]
    omega
  · refine iff_of_false (by simp) ?_
    omega

/-! ## 2. What the forms match -/

/-- The brackets of whatever the scan matches have the property. -/
def Gives (s : Scan) (P : Text → Prop) : Prop := ∀ t n, s t = some n → P (brackets (t.take n))

/-- The scan matches no brackets. -/
def IsPlain (s : Scan) : Prop := Gives s (· = [])

section Scans

variable {s : Scan} {scans : List Scan} {P Q R : Text → Prop}

theorem gives_literal (word : String) : Gives (.literal word) (· = brackets word.toList) := by
  intro t n h
  obtain ⟨⟨rest, hrest⟩, rfl⟩ := Scan.literal_eq_some_iff.mp h
  rw [← hrest, List.take_left]

theorem isPlain_one {p : Char → Bool} (hp : ∀ c, p c = true → isBracket c = false) : IsPlain (.one p) := by
  intro t n h
  obtain ⟨first, rest, rfl, hfirst, rfl⟩ := Scan.exists_of_one h
  show brackets [first] = []
  rw [brackets, List.filter_cons_of_neg (by simp [hp first hfirst])]
  rfl

theorem isPlain_char {c : Char} (hc : isBracket c = false) : IsPlain (.char c) := by
  apply isPlain_one
  intro d hd
  rwa [beq_iff_eq.mp hd]

theorem isPlain_some1 {p : Char → Bool} (hp : ∀ c, p c = true → isBracket c = false) :
    IsPlain (.some1 p) := by
  intro t n h
  have hwidth : n = (t.takeWhile p).length := by
    unfold Scan.some1 at h
    dsimp only at h
    split at h
    · cases h
    · exact (Option.some.inj h).symm
  rw [hwidth, Text.take_length_takeWhile]
  apply List.filter_eq_nil_iff.mpr
  intro c hc
  rw [hp c (List.all_eq_true.mp List.all_takeWhile c hc)]
  exact Bool.false_ne_true

theorem gives_seq_nil : IsPlain (.seq []) := by
  intro t n h
  cases h
  rfl

theorem gives_seq_cons (hs : Gives s P) (hscans : Gives (.seq scans) Q)
    (happend : ∀ a b, P a → Q b → R (a ++ b)) : Gives (.seq (s :: scans)) R := by
  intro t n h
  obtain ⟨a, b, ha, hb, rfl⟩ := Scan.seq_cons_eq_some_iff.mp h
  rw [List.take_add, brackets, List.filter_append]
  exact happend _ _ (hs t a ha) (hscans _ b hb)

theorem gives_repeated (hs : Gives s P) (hnil : R []) (happend : ∀ a b, P a → R b → R (a ++ b)) :
    Gives (.repeated s) R := by
  intro t
  fun_induction Scan.repeated s t with
  | case1 t hnone =>
    rintro n ⟨⟩
    exact hnil
  | case2 t width hwidth hstop =>
    rintro n ⟨⟩
    exact hnil
  | case3 t width hwidth hgoes ih =>
    intro n h
    obtain ⟨m, hm, rfl⟩ := Option.map_eq_some_iff.mp h
    rw [List.take_add, brackets, List.filter_append]
    exact happend _ _ (hs t width hwidth) (ih m hm)

theorem gives_optional (hs : Gives s P) (hnil : P []) : Gives (.optional s) P := by
  intro t n h
  rw [Scan.optional, Option.some.injEq] at h
  subst h
  cases hst : s t with
  | none => exact hnil
  | some width => exact hs t width hst

theorem isPlain_seq (h : ∀ s ∈ scans, IsPlain s) : IsPlain (.seq scans) := by
  induction scans with
  | nil => exact gives_seq_nil
  | cons s scans ih =>
    obtain ⟨hs, hscans⟩ := List.forall_mem_cons.mp h
    refine gives_seq_cons hs (ih hscans) ?_
    rintro a b rfl rfl
    rfl

theorem isPlain_repeated (hs : IsPlain s) : IsPlain (.repeated s) := by
  refine gives_repeated hs rfl ?_
  rintro a b rfl rfl
  rfl

end Scans

theorem isBracket_of_isAsciiAlphanum (c : Char) (hc : Text.isAsciiAlphanum c = true) : isBracket c = false := by
  cases hbracket : isBracket c with
  | false => rfl
  | true =>
    rw [isBracket, Bool.or_eq_true, beq_iff_eq, beq_iff_eq] at hbracket
    rcases hbracket with rfl | rfl
    · exact absurd hc (by decide)
    · exact absurd hc (by decide)

theorem isPlain_parameter : IsPlain parameter := by
  apply isPlain_seq
  simp only [List.forall_mem_cons]
  exact ⟨isPlain_char rfl, isPlain_some1 isBracket_of_isAsciiAlphanum, isPlain_char rfl, List.forall_mem_nil _⟩

theorem isPlain_leading : IsPlain leading := by
  apply isPlain_repeated
  apply isPlain_seq
  simp only [List.forall_mem_cons]
  exact ⟨isPlain_parameter, gives_literal ", ", List.forall_mem_nil _⟩

theorem isPlain_further : IsPlain further := by
  apply isPlain_seq
  simp only [List.forall_mem_cons]
  exact ⟨gives_literal ", ", isPlain_parameter, List.forall_mem_nil _⟩

/-- Optional parameters that each open a bracket. -/
theorem gives_opening :
    Gives (.repeated (.seq [.literal " [ , ", parameter])) fun b => ∃ n, b = List.replicate n '[' := by
  have hone : Gives (.seq [.literal " [ , ", parameter]) (· = ['[']) := by
    refine gives_seq_cons (gives_literal " [ , ") (isPlain_seq (List.forall_mem_singleton.mpr isPlain_parameter)) ?_
    rintro a b rfl rfl
    rfl
  refine gives_repeated hone ⟨0, rfl⟩ ?_
  rintro a b rfl ⟨n, rfl⟩
  exact ⟨n + 1, rfl⟩

theorem gives_closing : Gives (.repeated (.literal " ]")) fun b => ∃ n, b = List.replicate n ']' := by
  refine gives_repeated (gives_literal " ]") ⟨0, rfl⟩ ?_
  rintro a b rfl ⟨n, rfl⟩
  exact ⟨n + 1, rfl⟩

theorem OpensFirst.cons {t : Text} (h : OpensFirst t) : OpensFirst ('[' :: t) := by
  obtain ⟨opened, closed, rfl⟩ := h
  exact ⟨opened + 1, closed, rfl⟩

/-- The form with optional parameters. -/
theorem gives_optionalForm :
    Gives (.seq [.char ' ', .optional (.literal "[ "), parameter, .repeated further,
      .repeated (.seq [.literal " [ , ", parameter]), .repeated (.literal " ]"), .char ' ']) OpensFirst := by
  have hplain : ∀ a b, a = [] → OpensFirst b → OpensFirst (a ++ b) := by
    rintro a b rfl hb
    exact hb
  -- from the end: what closes, what opens, and the plain parameters before
  have hspace : IsPlain (.char ' ') := isPlain_char rfl
  have hclosing : Gives (.seq [.repeated (.literal " ]"), .char ' ']) fun b => ∃ n, b = List.replicate n ']' := by
    refine gives_seq_cons gives_closing (isPlain_seq (List.forall_mem_singleton.mpr hspace)) ?_
    rintro a b ⟨n, rfl⟩ rfl
    exact ⟨n, List.append_nil _⟩
  have hopening : Gives (.seq [.repeated (.seq [.literal " [ , ", parameter]), .repeated (.literal " ]"),
      .char ' ']) OpensFirst := by
    refine gives_seq_cons gives_opening hclosing ?_
    rintro a b ⟨n, rfl⟩ ⟨m, rfl⟩
    exact ⟨n, m, rfl⟩
  have hparameters :=
    gives_seq_cons isPlain_parameter (gives_seq_cons (isPlain_repeated isPlain_further) hopening hplain) hplain
  have hfirst : Gives (.optional (.literal "[ ")) fun b => b = [] ∨ b = ['['] :=
    gives_optional (fun t n h => .inr (gives_literal "[ " t n h)) (.inl rfl)
  refine gives_seq_cons hspace (gives_seq_cons hfirst hparameters ?_) hplain
  rintro a b (rfl | rfl) hb
  · exact hb
  · exact hb.cons

theorem opensFirst_of_isParameterList {t : Text} (h : isParameterList t = true) : OpensFirst (brackets t) := by
  obtain ⟨form, hform, hcovers⟩ := List.any_eq_true.mp h
  obtain ⟨n, hn, htake⟩ := Scan.exists_of_coversAll hcovers
  have hgives : Gives form OpensFirst := by
    have hspace : IsPlain (.char ' ') := isPlain_char rfl
    have hnone : IsPlain form → Gives form OpensFirst := by
      intro hplain t n hn
      rw [hplain t n hn]
      exact ⟨0, 0, rfl⟩
    simp only [parameterForms, List.mem_cons, List.not_mem_nil, or_false] at hform
    rcases hform with rfl | rfl | rfl | rfl | rfl
    · exact hnone (gives_literal " ")
    · exact hnone (gives_literal " . . . ")
    · apply hnone
      apply isPlain_seq
      simp only [List.forall_mem_cons]
      exact ⟨hspace, isPlain_leading, gives_literal "...", isPlain_parameter, hspace, List.forall_mem_nil _⟩
    · apply hnone
      apply isPlain_seq
      simp only [List.forall_mem_cons]
      exact ⟨hspace, isPlain_leading, gives_literal "… ", isPlain_further, isPlain_repeated isPlain_further, hspace,
        List.forall_mem_nil _⟩
    · exact gives_optionalForm
  have hbrackets := hgives t n hn
  rwa [htake] at hbrackets

/-! ## 3. Headers -/

theorem find?_append {name : Text} (hname : '(' ∉ name) (rest : Text) :
    Text.find? (name ++ '(' :: rest) ['('] = some name.length := by
  induction name with
  | nil => rfl
  | cons c name ih =>
    rw [List.mem_cons, not_or] at hname
    have hother : List.isPrefixOf ['('] (c :: (name ++ '(' :: rest)) = false := by
      simp [List.isPrefixOf, hname.1]
    rw [List.cons_append, Text.find?, hother, ih hname.2]
    rfl

section Contents

variable {contents name params : Text} (hcontents : contents = name ++ '(' :: (params ++ [')']))
  (hname : '(' ∉ name) (hoperator : isOperator contents = false)
include hcontents hname hoperator

theorem checkContents_eq : checkContents contents =
    checkName name ++ if isParameterList params then [] else [⟨.parameters, name.size + 1⟩] := by
  have hends : contents.endsWith ")" = true := by
    apply List.isSuffixOf_iff_suffix.mpr
    exact ⟨name ++ '(' :: params, by rw [hcontents]; simp⟩
  have hfind : contents.find? ['('] = some name.length := by
    rw [hcontents]
    exact find?_append hname _
  have hdrop : (contents.drop (name.length + 1)).dropLast = params := by
    rw [hcontents, List.drop_length_add_append]
    exact List.dropLast_concat
  have htake : contents.take name.length = name := by
    rw [hcontents, List.take_left]
  rw [checkContents, hends, hoperator, hfind]
  show checkName (contents.take name.length) ++ _ = _
  rw [htake, hdrop]

end Contents

/-- A header that is looked at without a complaint about its parameters has parameters of one of the forms. -/
theorem isParameterList_of_checkText {t name params : Text} (ht : t.trim = name ++ '(' :: (params ++ [')']))
    (hname : '(' ∉ name) (hoperator : isOperator t.trim = false)
    (hfine : ∀ f ∈ checkText t, f.problem ≠ .parameters) : isParameterList params = true := by
  cases hparams : isParameterList params with
  | true => rfl
  | false =>
    have hfound : ⟨.parameters, name.size + 1⟩ ∈ checkContents t.trim := by
      rw [checkContents_eq ht hname hoperator, hparams]
      exact List.mem_append_right _ List.mem_cons_self
    exact absurd rfl (hfine _ (List.mem_map_of_mem hfound))

/-- Between the parentheses of a header that is looked at without a complaint about its parameters, the brackets
that open come before those that close. So they are balanced exactly if there are as many of both. -/
theorem isBalanced_iff_of_checkText (t name params : Text) (ht : t.trim = name ++ '(' :: (params ++ [')']))
    (hname : '(' ∉ name) (hoperator : isOperator t.trim = false)
    (hfine : ∀ f ∈ checkText t, f.problem ≠ .parameters) :
    brackets params = List.replicate (params.count '[') '[' ++ List.replicate (params.count ']') ']' ∧
      (IsBalanced params ↔ params.count '[' = params.count ']') := by
  have hopens := opensFirst_of_isParameterList (isParameterList_of_checkText ht hname hoperator hfine)
  exact ⟨hopens.brackets_eq, hopens.isBalanced_iff⟩

/-- Optional parameters in a list that is optional as a whole. -/
theorem isBalanced_iff_of_checkText_nested :
    let t : Text := " Foo.bar ( [ _a_, _b_ [ , _c_ [ , _d_ ] ] ] )\n".toList
    let params : Text := " [ _a_, _b_ [ , _c_ [ , _d_ ] ] ] ".toList
    checkText t = [] ∧ IsBalanced params ∧
      brackets params = List.replicate (params.count '[') '[' ++ List.replicate (params.count ']') ']' ∧
      (IsBalanced params ↔ params.count '[' = params.count ']') := by
  intro t params
  have hnone : checkText t = [] := by decide +kernel
  refine ⟨hnone, by decide +kernel, ?_⟩
  refine isBalanced_iff_of_checkText t "Foo.bar ".toList params (by decide +kernel) (by decide) (by decide +kernel) ?_
  rw [hnone]
  exact List.forall_mem_nil _

/-- A bracket that is never closed and a bracket that closes nothing are not complained about. -/
theorem checkText_of_unbalanced :
    checkText "Foo ( [ _a_ )".toList = [] ∧ ¬ IsBalanced " [ _a_ ".toList ∧
      checkText "Foo ( _a_ ] )".toList = [] ∧ ¬ IsBalanced " _a_ ] ".toList := by
  decide +kernel

end Errata.Header
