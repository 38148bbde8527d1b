import Errata.Lint
import Errata.Proofs.Collection
import Errata.Proofs.Grammar.Consistency
import Errata.Proofs.Header
import Errata.Proofs.Scope.Placement
import Errata.Proofs.Spelling
import Errata.Proofs.Style.Placement
import Errata.Report.Printer

/-!
# Linting a text

Linting a document that was read from a text always gives its reports, and each report has a place in the
text, so that its line can be shown.
-/

namespace Errata

/-! ## 1. Names in prose -/

namespace Scope

variable {doc : Document} {text : Text} {pos : Nat}

theorem yields_namesInNodes (hdoc : doc.Sound text pos) (annex : Text) {nodes : List NodeId}
    (h : ∀ node ∈ nodes, node < doc.count) :
    Yields (fun _ => True) (namesInNodes doc annex nodes) := by
  induction nodes with
  | nil => exact trivial
  | cons node nodes ih =>
    obtain ⟨hnode, hnodes⟩ := List.forall_mem_cons.mp h
    rw [namesInNodes]
    split
    · exact trivial
    · refine (hdoc.yields_textContent hnode).bind fun content _ => ?_
      exact (ih hnodes).bind fun _ _ => trivial

theorem yields_namesBefore (hdoc : doc.Sound text pos) (annex : Text) (node : NodeId)
    (above : List NodeId) : Yields (fun _ => True) (namesBefore doc annex node above) := by
  induction above generalizing node with
  | nil => exact trivial
  | cons parent above ih =>
    have hchildren : ∀ child ∈ ((doc.children parent).takeWhile (· ≠ node)).reverse,
        child < doc.count := by
      intro child hchild
      have hmem := (List.takeWhile_subset _) (List.mem_reverse.mp hchild)
      unfold Document.children at hmem
      cases he : doc.element? parent with
      | none =>
        rw [he] at hmem
        exact absurd hmem List.not_mem_nil
      | some e =>
        rw [he] at hmem
        exact ((hdoc.element he).2.2.1 child hmem).2
    rw [namesBefore]
    split
    · exact trivial
    · refine (yields_namesInNodes hdoc annex hchildren).bind fun found _ => ?_
      dsimp only
      split
      · exact trivial
      · exact (ih parent).bind fun _ _ => trivial

end Scope

/-! ## 2. Algorithms -/

namespace Lint

variable {doc : Document} {text : Text} {pos : Nat}

theorem yields_scopeFindings (hdoc : doc.Sound text pos) (annex : Text)
    (algorithm : Collection.Algorithm) {t : Text} {list : StepList} {cache : Cache}
    (hlist : ∀ step ∈ list.steps, step.Everywhere (Step.Placed t))
    (hcache : ∀ entry ∈ cache, Expression.Placed t entry.2) :
    Yields (FoundIn t) (scopeFindings doc annex algorithm list cache) := by
  unfold scopeFindings
  dsimp only
  split
  · exact foundIn_nil t
  · refine (Scope.yields_namesBefore hdoc annex _ _).bind fun seeds _ => ?_
    intro f hf
    obtain ⟨g, hg, rfl⟩ := List.mem_map.mp hf
    exact Scope.foundIn_findings_actions hcache hlist seeds g hg

theorem foundIn_stepFindings (inExample : Bool) {t : Text} {list : StepList} {cache : Cache}
    {errors : List StepError} (hlist : ∀ step ∈ list.steps, step.Everywhere (Step.Placed t))
    (hcache : ∀ entry ∈ cache, Expression.Placed t entry.2)
    (herrors : ∀ e ∈ errors, t.IsPosition e.offset) :
    FoundIn t (stepFindings inExample list cache errors) := by
  unfold stepFindings
  refine FoundIn.append ?_ ?_
  · intro f hf
    obtain ⟨e, he, rfl⟩ := List.mem_map.mp hf
    exact herrors e he
  · split
    · exact foundIn_nil t
    · intro f hf
      obtain ⟨g, hg, rfl⟩ := List.mem_map.mp hf
      exact Style.foundIn_checkList hcache hlist g hg

theorem yields_textFindings (hdoc : doc.Sound text pos) (annex : Text)
    (algorithm : Collection.Algorithm) (t : Text) :
    Yields (FoundIn t) (textFindings readers doc annex algorithm t) := by
  have hread := Step.ends_readAlgorithm t
  unfold textFindings
  split
  · rename_i e herror
    have hlist : Step.readAlgorithm t = .error e := herror
    rw [hlist] at hread
    exact foundIn_singleton hread
  · rename_i list hok
    have hlist : Step.readAlgorithm t = .ok list := hok
    rw [hlist] at hread
    obtain ⟨hcache, herrors⟩ := Cache.placed_ofList hread
    refine (yields_scopeFindings hdoc annex algorithm hread hcache).bind fun inScope hinScope => ?_
    exact (foundIn_stepFindings _ hread hcache herrors).append hinScope

theorem yields_checkAlgorithm (hdoc : doc.Sound text pos) (annex : Text)
    {algorithm : Collection.Algorithm} (h : Collection.IsInside doc algorithm.element) :
    Yields (fun complaints => ∀ c ∈ complaints, c.IsShown doc text)
      (checkAlgorithm readers doc annex algorithm) := by
  unfold checkAlgorithm
  split
  · exact List.forall_mem_nil _
  · rename_i e he
    refine (hdoc.yields_inner h.ne_root he).bind fun found hfound => ?_
    cases found with
    | none => exact List.forall_mem_nil _
    | some part =>
      refine (yields_textFindings hdoc annex algorithm part.2).bind fun findings hfindings => ?_
      exact hfindings.isShown_complaint (hfound part.1 part.2 rfl) h.lt_count

/-! ## 3. Documents -/

theorem forall_map_complaint {α β : Type} (f : α → β) {complaints : List (Complaint α)}
    (h : ∀ c ∈ complaints, c.IsShown doc text) :
    ∀ c ∈ complaints.map (Complaint.map f), c.IsShown doc text := by
  intro c hc
  obtain ⟨original, horiginal, rfl⟩ := List.mem_map.mp hc
  obtain ⟨helement, hoffset⟩ := h original horiginal
  exact ⟨helement, hoffset⟩

theorem yields_checkCollection (hdoc : doc.Sound text pos) (annex : Text) {collection : Collection}
    (h : Collection.Gathered.Sound doc text ⟨collection, []⟩) :
    Yields (fun complaints => ∀ c ∈ complaints, c.IsShown doc text)
      (checkCollection readers doc annex collection) := by
  have halgorithms : Yields
      (fun found => ∀ complaints ∈ found, ∀ c ∈ complaints, c.IsShown doc text)
      (collection.algorithms.mapM (checkAlgorithm readers doc annex)) :=
    Ends.mapM fun algorithm hmem => yields_checkAlgorithm hdoc annex (h.algorithms algorithm hmem)
  have hgrammars := Grammar.Consistency.yields_check hdoc (fun id hid => (h.grammars id hid).ne_root)
    (fun operation hmem => (h.operations operation hmem).ne_root)
    fun group hgroup => (h.earlyErrors group hgroup).ne_root
  refine hgrammars.bind fun grammar hgrammar => ?_
  refine Ends.bind halgorithms fun algorithms hall => ?_
  refine (Header.yields_check hdoc h.headers).bind fun headers hheaders => ?_
  refine List.forall_mem_append.mpr ⟨List.forall_mem_append.mpr
    ⟨forall_map_complaint _ hgrammar, fun c hc => ?_⟩, forall_map_complaint _ hheaders⟩
  obtain ⟨complaints, hmem, hc⟩ := List.mem_flatten.mp hc
  exact hall complaints hmem c hc

theorem yields_complaints (hdoc : doc.Sound text pos) (annex : Text) :
    Yields (fun found => ∀ c ∈ found, c.IsShown doc text) (complaints readers annex doc) := by
  refine (Collection.yields_collect hdoc annex).bind fun outcome houtcome => ?_
  have hstructural := forall_map_complaint Problem.collection houtcome.complaints
  dsimp only
  split
  · exact hstructural
  · rename_i collection hcollection
    refine (yields_checkCollection hdoc annex (houtcome.collection collection hcollection)).bind
      fun found hfound => ?_
    exact List.forall_mem_append.mpr ⟨hstructural, hfound⟩

/-! ## 4. Reports -/

/-- The location is in the text that the document was read from. -/
def IsLocated (doc : Document) (text : Text) : Location → Prop
  | .inElement element offset => element < doc.count ∧ text.IsShown offset
  | .inSource source line column => source = 0 ∧ text.HasPlace line column

theorem isLocated_spelling (hdoc : doc.Sound text pos) :
    ∀ d ∈ spelling doc, IsLocated doc text d.location := by
  obtain ⟨filename, hsources⟩ := hdoc.source
  intro d hd
  unfold spelling at hd
  rw [hsources] at hd
  obtain ⟨⟨source, i⟩, hsource, hd⟩ := List.mem_flatMap.mp hd
  obtain ⟨m, hm, rfl⟩ := List.mem_map.mp hd
  cases List.mem_singleton.mp hsource
  exact ⟨rfl, Spelling.hasPlace_of_mem_misspellings hm⟩

theorem yields_diagnostics (hdoc : doc.Sound text pos) (options : Options) :
    Yields (fun found => ∀ d ∈ found, IsLocated doc text d.location)
      (diagnostics readers options doc) := by
  refine (yields_complaints hdoc options.annex).bind fun others hothers => ?_
  refine List.forall_mem_append.mpr ⟨?_, fun d hd => ?_⟩
  · split
    · exact isLocated_spelling hdoc
    · exact List.forall_mem_nil _
  · obtain ⟨c, hc, rfl⟩ := List.mem_map.mp hd
    obtain ⟨helement, hoffset⟩ := hothers c hc
    exact ⟨helement, hoffset⟩

/-- Every element was read from the one source. -/
theorem source_element (hdoc : doc.Sound text pos) (id : NodeId) :
    ((doc.element? id).map Element.source).getD 0 = 0 := by
  cases he : doc.element? id with
  | none => rfl
  | some e => exact (hdoc.element he).2.1

theorem yields_resolve (hdoc : doc.Sound text pos) {location : Location}
    (h : IsLocated doc text location) :
    Yields (fun found => found.1 = 0 ∧ text.HasPlace found.2.1 found.2.2) (location.resolve doc) := by
  cases location with
  | inSource source line column => exact h
  | inElement element offset =>
    obtain ⟨line, column, hposition, hplace⟩ := Text.lineColumn?_of_isShown h.2
    have hlineColumn : doc.lineColumn 0 offset = .ok (line, column) := by
      rw [Document.lineColumn, hdoc.sourceText]
      dsimp only [bind, Except.bind]
      rw [hposition]
      rfl
    unfold Location.resolve
    dsimp only
    rw [source_element hdoc, hlineColumn]
    exact ⟨rfl, hplace⟩

/-- The report has a place in the text of the document's first source. -/
def IsReportOf (text : Text) (r : Report) : Prop := r.source = 0 ∧ text.HasPlace r.line r.column

theorem yields_ofDiagnostic (hdoc : doc.Sound text pos) {d : Diagnostic}
    (h : IsLocated doc text d.location) : Yields (IsReportOf text) (Report.ofDiagnostic doc d) := by
  obtain ⟨filename, hsources⟩ := hdoc.source
  refine (yields_resolve hdoc h).bind fun found hfound => ?_
  obtain ⟨source, line, column⟩ := found
  obtain ⟨rfl, hplace⟩ := hfound
  dsimp only
  rw [hsources]
  exact ⟨rfl, hplace⟩

theorem yields_reports (hdoc : doc.Sound text pos) (options : Options) :
    Yields (fun found => ∀ r ∈ found, IsReportOf text r) (reports readers options doc) := by
  refine (yields_diagnostics hdoc options).bind fun found hfound => ?_
  refine (Ends.mapM fun d hd => yields_ofDiagnostic hdoc (hfound d hd)).bind fun all hall => ?_
  exact fun r hr => hall r (List.mem_mergeSort.mp hr)

theorem exists_excerpt (hdoc : doc.Sound text pos) {r : Report} (h : IsReportOf text r) :
    ∃ line, text.displayLines[r.line - 1]? = some line ∧ r.excerpt? doc = some line := by
  obtain ⟨filename, hsources⟩ := hdoc.source
  obtain ⟨hsource, hplace⟩ := h
  have hline := List.getElem?_eq_getElem hplace.line_lt
  refine ⟨_, hline, ?_⟩
  rw [Report.excerpt?, hsource, hsources]
  exact hline

end Lint

end Errata
