import Errata.Proofs.Collection.Preorder
import Errata.Proofs.Document.Sources
import Errata.Proofs.Header
import Errata.Proofs.Lint.Parts
import Errata.Proofs.Loading.Completeness

/-!
# Reports on the headers of a loaded document

The text of a header may come from several files. Each problem of a header is at a character of its text, and
the offset of that character in its own file is found. The report however names the file of the header, with
the line and column that this offset has there. So it names the place of the character if that was read from
the file of the header, and only then.
-/

namespace Errata

/-! ## 1. Text nodes of loaded documents -/

theorem Document.bare?_eq_text_iff {doc : Document} {id : NodeId} {parent : Option NodeId}
    {source : SourceId} {span : Span} :
    doc.bare? id = some ⟨parent, .text source span⟩ ↔ doc.node? id = some ⟨parent, .text source span⟩ := by
  rw [bare?]
  cases doc.node? id with
  | none => exact Iff.rfl
  | some node =>
    obtain ⟨parent', content⟩ := node
    cases content with
    | text source' span' => exact Iff.rfl
    | element e => simp [Node.bare, Node.mapElement]

theorem Markup.isPiece_read {filename : Path} {text : Text} {id : NodeId} {parent : Option NodeId}
    {source : SourceId} {span : Span}
    (h : (read filename text).node? id = some ⟨parent, .text source span⟩) :
    source = 0 ∧ ∃ piece, Document.IsPiece text (span, piece) := by
  obtain ⟨pos, hsound⟩ := sound_read filename text
  exact hsound.content id _ h

namespace Loading

variable {read : Path → Except ReadFailure Text} {main : Path}

theorem isWritten_start (path : Path) (text : Text) : (Loading.start path text).doc.IsWritten := by
  intro id parent source span hnode
  obtain ⟨rfl, piece, hpiece⟩ := Markup.isPiece_read hnode
  refine ⟨piece, ⟨path, text⟩, ?_, hpiece⟩
  show (Markup.read path text).sources[0]? = _
  rw [Markup.sources_read]
  rfl

theorem isWritten_attach {loading : Loading} {id : Nat} {path : Path} (hid : id < loading.doc.count)
    (text : Text) (h : loading.doc.IsWritten) : (loading.attach id path text).doc.IsWritten := by
  intro node parent source span hnode
  rcases Nat.lt_or_ge node loading.doc.count with hold | hnew
  · rw [← Document.bare?_eq_text_iff, bare?_attach_of_lt hid text hold, Document.bare?_eq_text_iff] at hnode
    obtain ⟨piece, file, hfile, hpiece⟩ := h node parent source span hnode
    refine ⟨piece, file, ?_, hpiece⟩
    rw [sources_attach hid, List.getElem?_append_left (List.getElem?_eq_some_iff.mp hfile).1]
    exact hfile
  · -- the new text nodes are those of the file read alone
    obtain ⟨k, rfl⟩ := Nat.exists_eq_add_of_le hnew
    have hmoved : (loading.attach id path text).doc.node? (loading.doc.count + k) =
        ((Markup.read path text).node? (k + 1)).map
          (Node.moved loading.doc.count id loading.doc.sources.length) := by
      rw [doc_attach hid]
      exact @Document.node?_graft_add (loading.doc.addSource ⟨path, text⟩) _ _ _ k
    rw [hmoved] at hnode
    obtain ⟨⟨parent', content⟩, horiginal, heq⟩ := Option.map_eq_some_iff.mp hnode
    cases content with
    | element e => cases heq
    | text source' span' =>
      cases heq
      obtain ⟨-, piece, hpiece⟩ := Markup.isPiece_read horiginal
      refine ⟨piece, ⟨path, text⟩, ?_, hpiece⟩
      rw [sources_attach hid, List.getElem?_append_right (Nat.le_refl _), Nat.sub_self]
      rfl

theorem Reached.isWritten {loading : Loading} (h : Reached read main loading) : loading.doc.IsWritten := by
  induction h with
  | start _ => exact isWritten_start _ _
  | attach _ hpending _ ih => exact isWritten_attach (isNext_of_pending? hpending).lt_count _ ih

end Loading

/-! ## 2. Complaints about headers -/

namespace Header

variable {doc : Document}

/-- The complaint is that of a finding in the text of an element, and gives the offset that the character
has in its source. -/
structure IsPlaced (doc : Document) (f : Finding Problem) (c : Complaint Problem) (source : SourceId) :
    Prop where
  problem_eq : c.problem = f.problem
  written : ∃ char, doc.IsWrittenAt c.element Collection.deletedName f.offset source c.offset char

theorem exists_checkElement (hwritten : doc.IsWritten) (htree : doc.IsTree) {id : Nat}
    (hid : id < doc.count) :
    ∃ text complaints, doc.textExcluding id Collection.deletedName = .ok text ∧
      checkElement doc id = .ok complaints ∧
      List.Forall₂ (fun f c => c.element = id ∧ ∃ source, IsPlaced doc f c source) (checkText text)
        complaints := by
  obtain ⟨text, htext, hoffsets⟩ := hwritten.textExcluding htree hid Collection.deletedName
  have hplaced : ∀ f ∈ checkText text, ∃ c,
      (do
        let offset ← doc.textOffset? id Collection.deletedName f.offset
        return { problem := f.problem, element := id, offset := offset.getD 0 } :
          Except Fault (Complaint Problem)) = .ok c ∧ c.element = id ∧ ∃ source, IsPlaced doc f c source := by
    intro f hf
    obtain ⟨hposition, hlt⟩ := isBefore_checkText text f hf
    obtain ⟨source, offset, char, hwrittenAt, hoffset⟩ := hoffsets f.offset hposition hlt
    rw [hoffset]
    exact ⟨⟨f.problem, id, offset⟩, rfl, rfl, source, rfl, char, hwrittenAt⟩
  obtain ⟨complaints, hcomplaints, hall⟩ := exists_mapM_eq_ok hplaced
  refine ⟨text, complaints, htext, ?_, hall⟩
  rw [checkElement, htext]
  exact hcomplaints

end Header

/-! ## 3. The headers of a collection -/

namespace Collection

variable {P : NodeId → Element → Prop} {id : NodeId} {e : Element}

/-- The headers are elements of that name with the given property. -/
def Gathered.HasHeaders (P : NodeId → Element → Prop) (found : Gathered) : Prop :=
  ∀ header ∈ found.collection.headers, ∃ e, P header.element e ∧ e.name = headerName

/-- If the walk comes to its end, its headers have the given property. -/
def WalkHasHeaders (P : NodeId → Element → Prop) : Except Stop Gathered → Prop :=
  Ends (fun _ => True) (Gathered.HasHeaders P)

theorem hasHeaders_of_headers_eq_nil {found : Gathered} (h : found.collection.headers = []) :
    found.HasHeaders P := by
  intro header hheader
  rw [h] at hheader
  exact absurd hheader List.not_mem_nil

theorem Gathered.HasHeaders.append {a b : Gathered} (ha : a.HasHeaders P) (hb : b.HasHeaders P) :
    (a ++ b).HasHeaders P :=
  List.forall_mem_append.mpr ⟨ha, hb⟩

theorem headers_gatherAlgorithm (context : Context) (id : NodeId) (e : Element) :
    (gatherAlgorithm context id e).collection.headers = [] := by
  unfold gatherAlgorithm
  split
  · rfl
  split
  · rfl
  · rfl

theorem headers_gatherGrammar (context : Context) (id : NodeId) (e : Element) (next : Option Tree) :
    (gatherGrammar context id e next).collection.headers = [] := by
  unfold gatherGrammar
  split
  · rfl
  split
  · split
    · rfl
    · rfl
  split
  · rfl
  split
  · rfl
  split
  · rfl
  · rfl

theorem walkHasHeaders_gatherEarlyErrors (children : List Tree) :
    WalkHasHeaders P (gatherEarlyErrors id e children) := by
  unfold gatherEarlyErrors
  split
  · exact trivial
  · exact hasHeaders_of_headers_eq_nil rfl

theorem walkHasHeaders_gatherClause (doc : Document) {children : List Tree}
    (hchildren : ∀ t ∈ children, ∀ e', t.element? = some e' → P t.id e') (context : Context) :
    WalkHasHeaders P (gatherClause doc context id e children) := by
  unfold gatherClause
  split
  · exact hasHeaders_of_headers_eq_nil rfl
  · rename_i first hfirst
    split
    · exact hasHeaders_of_headers_eq_nil rfl
    · rename_i hnamed
      have hheader : (Gathered.ofHeader ⟨first.id, context.inAnnex⟩).HasHeaders P := by
        intro header hheader
        obtain rfl := List.mem_singleton.mp hheader
        -- a text has no name, so this is an element, and then one of the children
        rw [Bool.not_eq_true, Bool.not_eq_false'] at hnamed
        rw [Tree.isNamed] at hnamed
        cases he' : first.element? with
        | none =>
          rw [he'] at hnamed
          cases hnamed
        | some e' =>
          rw [he'] at hnamed
          exact ⟨e', hchildren first (List.mem_of_find?_eq_some hfirst) e' he', of_decide_eq_true hnamed⟩
      dsimp only
      split
      · exact hheader
      split
      · exact trivial
      split
      · exact (walkHasHeaders_gatherEarlyErrors children).map fun found hfound => hheader.append hfound
      · exact hheader

theorem walkHasHeaders_gather {doc : Document} {annex : Text} {ts : List Tree}
    (h : ∀ t ∈ ts, ∀ context next, WalkHasHeaders P (gatherNode doc annex t context next))
    (context : Context) : WalkHasHeaders P (gather doc annex ts context) := by
  induction ts with
  | nil => exact hasHeaders_of_headers_eq_nil rfl
  | cons t ts ih =>
    obtain ⟨ht, hts⟩ := List.forall_mem_cons.mp h
    rw [gather]
    refine (ht context _).bind fun found hfound => ?_
    exact (ih hts).bind fun others hothers => hfound.append hothers

theorem walkHasHeaders_gatherNode (doc : Document) (annex : Text) {t : Tree} (ht : t.Everywhere P)
    (context : Context) (next : Option Tree) : WalkHasHeaders P (gatherNode doc annex t context next) := by
  induction ht generalizing context next with
  | text => exact hasHeaders_of_headers_eq_nil rfl
  | @element id e children h hchildren ih =>
    have hbelow : ∀ t ∈ children, ∀ e', t.element? = some e' → P t.id e' :=
      fun t ht _ he' => (hchildren t ht).element? he'
    rw [gatherNode]
    split
    · refine (walkHasHeaders_gatherClause doc hbelow _).bind fun own hown => ?_
      exact (walkHasHeaders_gather ih _).bind fun below hbelow => hown.append hbelow
    split
    · exact hasHeaders_of_headers_eq_nil (headers_gatherGrammar _ id e next)
    split
    · exact hasHeaders_of_headers_eq_nil (headers_gatherAlgorithm _ id e)
    · exact walkHasHeaders_gather ih _

theorem isNamed_headers_collect {doc : Document} {annex : Text} {outcome : Outcome}
    (h : collect doc annex = .ok outcome) {collection : Collection}
    (hcollection : outcome.collection = some collection) :
    ∀ header ∈ collection.headers, ∃ e, doc.element? header.element = some e ∧ e.name = headerName := by
  unfold collect at h
  obtain ⟨t, ht, h⟩ := bind_eq_ok_iff.mp h
  have hshows := doc.shows_of_tree ht
  cases hshows with
  | text hnode =>
    cases h
    cases hcollection
    exact List.forall_mem_nil _
  | @element id e children helement hids hchildren =>
    have hwalk := walkHasHeaders_gather
      (fun t ht context next => walkHasHeaders_gatherNode doc annex (hchildren t ht).everywhere context next)
      ⟨false, false, false⟩
    dsimp only at h
    split at h
    · cases h
    · cases h
      cases hcollection
    · rename_i found hok
      rw [hok] at hwalk
      cases h
      obtain ⟨-, rfl⟩ := Gathered.isClosed_of_outcome hcollection
      exact hwalk

end Collection

/-! ## 4. Header problems among all others -/

def Problem.isHeader : Problem → Bool
  | header _ => true
  | _ => false

theorem Problem.isHeader_iff {problem : Problem} : problem.isHeader = true ↔ problem.check = .header := by
  cases problem <;> simp [isHeader, check]

theorem Problem.isHeader_of_rule {problem : Problem} (h : problem.rule = .headerFormat) :
    problem.isHeader = true := by
  rw [isHeader_iff, ← problem.check_rule, h]
  rfl

namespace Lint

variable {doc : Document} {annex : Text}

/-- A complaint about a header comes from one of the headers outside the annex. -/
theorem exists_checkElement_of_mem {readers : Readers} {found : List (Complaint Problem)}
    (h : complaints readers annex doc = .ok found) {c : Complaint Problem} (hc : c ∈ found)
    (hproblem : c.problem.isHeader = true) :
    ∃ id e own original, doc.element? id = some e ∧ e.name = Collection.headerName ∧
      Header.checkElement doc id = .ok own ∧ original ∈ own ∧ c = original.map .header := by
  rw [Problem.isHeader_iff] at hproblem
  obtain ⟨outcome, hcollect, hcases⟩ := complaints_cases h
  have hstructural : ∀ {others : List (Complaint Collection.Problem)},
      c ∉ others.map (Complaint.map Problem.collection) := by
    intro others hmem
    exact check_ne_of_mem_map (fun _ h => by cases h) c hmem hproblem
  rcases hcases with ⟨-, rfl⟩ |
    ⟨collection, grammar, algorithms, headers, hcollection, -, halgorithms, hheaders, rfl⟩
  · exact absurd hc hstructural
  · rcases List.mem_append.mp ((List.mem_append.mp hc).resolve_left hstructural) with hc | hc
    · rcases List.mem_append.mp hc with hc | hc
      · exact absurd hproblem (check_ne_of_mem_map (fun _ h => by cases h) c hc)
      · exact absurd hproblem (check_ne_of_mapM_checkAlgorithm rfl halgorithms c hc)
    · obtain ⟨original, horiginal, rfl⟩ := List.mem_map.mp hc
      obtain ⟨lists, hlists, hheaders⟩ := bind_eq_ok_iff.mp hheaders
      cases hheaders
      obtain ⟨own, hown, horiginal⟩ := List.mem_flatten.mp horiginal
      obtain ⟨header, hheader, hcheck⟩ := exists_of_mapM_eq_ok hlists own hown
      obtain ⟨e, he, hname⟩ := Collection.isNamed_headers_collect hcollect hcollection header
        (List.mem_filter.mp hheader).1
      exact ⟨header.element, e, own, original, he, hname, hcheck, horiginal, rfl⟩

/-- So does a diagnostic, since a misspelling is no problem of a header. -/
theorem exists_checkElement_of_mem_diagnostics {readers : Readers} {options : Options}
    {found : List Diagnostic} (h : diagnostics readers options doc = .ok found) {d : Diagnostic}
    (hd : d ∈ found) (hproblem : d.problem.isHeader = true) :
    ∃ id e own original, doc.element? id = some e ∧ e.name = Collection.headerName ∧
      Header.checkElement doc id = .ok own ∧ original ∈ own ∧ d = .ofComplaint (original.map .header) := by
  obtain ⟨others, hothers, h⟩ := bind_eq_ok_iff.mp h
  cases h
  rcases List.mem_append.mp hd with hd | hd
  · split at hd
    · obtain ⟨⟨file, source⟩, -, hd⟩ := List.mem_flatMap.mp hd
      obtain ⟨misspelling, -, rfl⟩ := List.mem_map.mp hd
      cases hproblem
    · exact absurd hd List.not_mem_nil
  · obtain ⟨c, hc, rfl⟩ := List.mem_map.mp hd
    obtain ⟨id, e, own, original, he, hname, hcheck, hmem, rfl⟩ :=
      exists_checkElement_of_mem hothers hc hproblem
    exact ⟨id, e, own, original, he, hname, hcheck, hmem, rfl⟩

end Lint

/-! ## 5. Places of reports -/

namespace Report

open Text

variable {doc : Document} {id : NodeId} {e : Element} {offset : Nat} {problem : Problem}

/-- The report names the file of a source, and the line and column that reading it up to an offset leads
to. -/
structure IsAt (doc : Document) (r : Report) (source : SourceId) (offset : Nat) : Prop where
  source_eq : r.source = source
  position : ∃ file before after, doc.sources[source]? = some file ∧ r.file = file.filename ∧
    file.text = before ++ after ∧ before.size = offset ∧ (r.line, r.column) = before.positionAfter

theorem exists_isAt_of_holds (he : doc.element? id = some e) {file : Source}
    (hfile : doc.sources[e.source]? = some file) {c : Char} (hheld : file.text.Holds offset [c])
    (problem : Problem) :
    ∃ r, ofDiagnostic doc ⟨problem, .inElement id offset⟩ = .ok r ∧ r.IsAt doc e.source offset := by
  obtain ⟨before, after, htext, rfl⟩ := hheld
  rw [List.append_assoc] at htext
  have hcut : file.text.lineColumn? before.size = some before.positionAfter := by
    rw [htext, lineColumn?_size_append]
  have hresolve : Location.resolve doc (.inElement id before.size) =
      .ok (e.source, before.positionAfter.1, before.positionAfter.2) := by
    rw [Location.resolve, he]
    dsimp only [Option.map_some, Option.getD_some]
    rw [Document.lineColumn, Document.sourceText, hfile]
    dsimp only [bind, Except.bind]
    rw [hcut]
    rfl
  refine ⟨⟨problem.rule, problem.message, file.filename, before.positionAfter.1, before.positionAfter.2,
    e.source⟩, ?_, rfl, file, before, [c] ++ after, hfile, rfl, htext, rfl, rfl⟩
  rw [ofDiagnostic, hresolve]
  dsimp only [bind, Except.bind]
  rw [hfile]
  rfl

theorem source_of_ofDiagnostic (he : doc.element? id = some e) {r : Report}
    (h : ofDiagnostic doc ⟨problem, .inElement id offset⟩ = .ok r) : r.source = e.source := by
  obtain ⟨⟨source, line, column⟩, hresolve, h⟩ := bind_eq_ok_iff.mp h
  have hsource : source = e.source := by
    rw [Location.resolve, he] at hresolve
    obtain ⟨position, -, hresolve⟩ := bind_eq_ok_iff.mp hresolve
    cases hresolve
    rfl
  dsimp only at h
  split at h
  · cases h
  · cases h
    exact hsource

/-- The report names the place of the character if that was read from the source of the element, and only
then. -/
theorem isAt_iff (he : doc.element? id = some e) {excluded : Text} {index : Nat} {source : SourceId} {c : Char}
    (hwritten : doc.IsWrittenAt id excluded index source offset c) {r : Report}
    (h : ofDiagnostic doc ⟨problem, .inElement id offset⟩ = .ok r) :
    r.IsAt doc source offset ↔ source = e.source := by
  refine ⟨fun hat => ?_, fun hsource => ?_⟩
  · -- whatever the offset belongs to, it is looked up in the source of the element
    rw [← hat.source_eq]
    exact source_of_ofDiagnostic he h
  · obtain ⟨t, -, hstands⟩ := hwritten
    obtain ⟨file, hfile, hheld⟩ := hstands.holds
    rw [hsource] at hfile ⊢
    obtain ⟨r', hr', hat⟩ := exists_isAt_of_holds he hfile hheld problem
    rw [h] at hr'
    cases hr'
    exact hat

end Report

namespace FileSystem

open Loading

variable {files : FileSystem} {main : Path} {doc : Document}

/-- In a loaded document every header is checked without a fault, and each problem is put at the offset that
its character has in the source it was read from. If that is the source of the header, the report names the
place of the character. Every report on headers comes from such a problem, and no other names its place. -/
theorem header_reports_load (h : files.load main = .ok doc) :
    (∀ id e, doc.element? id = some e → ∃ text complaints,
      doc.textExcluding id Collection.deletedName = .ok text ∧ Header.checkElement doc id = .ok complaints ∧
        List.Forall₂ (fun f c => c.element = id ∧ ∃ source, Header.IsPlaced doc f c source ∧
          (source = e.source → ∃ r, Report.ofDiagnostic doc (.ofComplaint (c.map .header)) = .ok r ∧
            r.IsAt doc source c.offset)) (Header.checkText text) complaints) ∧
      ∀ readers options found, Lint.reports readers options doc = .ok found →
        ∀ r ∈ found, r.rule = .headerFormat → ∃ id e text f c source,
          doc.element? id = some e ∧ e.name = Collection.headerName ∧
            doc.textExcluding id Collection.deletedName = .ok text ∧ f ∈ Header.checkText text ∧
            c.element = id ∧ Header.IsPlaced doc f c source ∧
            Report.ofDiagnostic doc (.ofComplaint (c.map .header)) = .ok r ∧
            (r.IsAt doc source c.offset ↔ source = e.source) := by
  obtain ⟨loading, hreached, rfl⟩ := exists_reached_of_load h
  have hwritten := hreached.isWritten
  have htree := hreached.isKept.isTree
  have hchecked : ∀ id e, loading.doc.element? id = some e → _ := fun id e he =>
    Header.exists_checkElement hwritten htree (Document.lt_count_of_source? (source?_of_element? he))
  refine ⟨fun id e he => ?_, fun readers options found hfound r hr hrule => ?_⟩
  · -- a character of the header's own source can be looked up there
    obtain ⟨text, complaints, htext, hcheck, hall⟩ := hchecked id e he
    refine ⟨text, complaints, htext, hcheck, hall.imp fun f c hc => ?_⟩
    obtain ⟨rfl, source, hplaced⟩ := hc
    refine ⟨rfl, source, hplaced, fun hsource => ?_⟩
    obtain ⟨char, t, -, hstands⟩ := hplaced.written
    obtain ⟨file, hfile, hheld⟩ := hstands.holds
    rw [hsource] at hfile ⊢
    exact Report.exists_isAt_of_holds he hfile hheld _
  · -- a report is traced back to its diagnostic, and that to the check of a header
    obtain ⟨diagnostics, hdiagnostics, hfound⟩ := bind_eq_ok_iff.mp hfound
    obtain ⟨all, hall, hfound⟩ := bind_eq_ok_iff.mp hfound
    cases hfound
    obtain ⟨d, hd, hreport⟩ := exists_of_mapM_eq_ok hall r (List.mem_mergeSort.mp hr)
    rw [Report.rule_of_ofDiagnostic hreport] at hrule
    obtain ⟨id, e, own, original, he, hname, hcheck, hmem, rfl⟩ :=
      Lint.exists_checkElement_of_mem_diagnostics hdiagnostics hd (Problem.isHeader_of_rule hrule)
    obtain ⟨text, complaints, htext, hcheck', hforall⟩ := hchecked id e he
    rw [hcheck] at hcheck'
    cases hcheck'
    obtain ⟨f, hf, rfl, source, hplaced⟩ := exists_of_forall₂_of_mem hforall hmem
    obtain ⟨char, hwrittenAt⟩ := hplaced.written
    exact ⟨_, e, text, f, original, source, he, hname, htext, hf, rfl, hplaced, hreport,
      Report.isAt_iff he hwrittenAt hreport⟩

end FileSystem

namespace FileTree

open Loading

/-- The main file imports a part of a header. -/
def sharedHeader (main part : String) : FileTree where
  files := [⟨["main.html".toList], main.toUTF8⟩, ⟨["h.html".toList], part.toUTF8⟩]

/-- The state after that part has been read. -/
def sharedLoading (main part : String) (id : NodeId) : Loading :=
  (Loading.start "main.html".toList main.toList).attach id "h.html".toList part.toList

theorem load_sharedHeader {main part : String} {id : NodeId}
    (hmain : (sharedHeader main part).read "main.html".toList = .ok main.toList)
    (hpart : (sharedHeader main part).read "h.html".toList = .ok part.toList)
    (hpending : (Loading.start "main.html".toList main.toList).pending? = some (id, "h.html".toList))
    (hnone : (sharedLoading main part id).pending? = none) :
    (sharedHeader main part).load "main.html".toList = .ok (sharedLoading main part id).doc :=
  load_of_reached ((Reached.start hmain).attach hpending hpart) hnone

/-- The name of the operation comes from the main file, its parameters from the other one. -/
theorem header_reports_load_shared :
    let main := "<emu-clause><h1>f-g <emu-import href=h.html></emu-import></h1></emu-clause>"
    ∃ doc r, (sharedHeader main "( )").load "main.html".toList = .ok doc ∧
      Lint.reports Lint.readers ⟨"b".toList, false⟩ doc = .ok [r] ∧ r.rule = .headerFormat ∧
        ∃ id e text f c source, doc.element? id = some e ∧ e.name = Collection.headerName ∧
          doc.textExcluding id Collection.deletedName = .ok text ∧ f ∈ Header.checkText text ∧
          c.element = id ∧ Header.IsPlaced doc f c source ∧
          Report.ofDiagnostic doc (.ofComplaint (c.map .header)) = .ok r ∧
          (r.IsAt doc source c.offset ↔ source = e.source) := by
  intro main
  have hload : (sharedHeader main "( )").load "main.html".toList = .ok (sharedLoading main "( )" 4).doc :=
    load_sharedHeader (by decide +kernel) (by decide +kernel) (by decide +kernel) (by decide +kernel)
  have hreports : Lint.reports Lint.readers ⟨"b".toList, false⟩ (sharedLoading main "( )" 4).doc = .ok
      [⟨.headerFormat, (Header.Problem.name "f-g".toList).message, "main.html".toList, 1, 17, 0⟩] := by
    decide +kernel
  exact ⟨_, _, hload, hreports, rfl,
    (@FileSystem.header_reports_load (sharedHeader main "( )").system _ _ hload).2 _ _ _ hreports _
      List.mem_cons_self rfl⟩

/-- A report on the text of another file names the file of the header. Where no character begins at that
offset in the file of the header, there are no reports at all. -/
theorem header_report_in_wrong_file :
    let main := "<emu-clause><h1><emu-import href=h.html></emu-import></h1></emu-clause>"
    (∃ doc, (sharedHeader main "Foo ()").load "main.html".toList = .ok doc ∧
      doc.textExcluding 2 Collection.deletedName = .ok "Foo ()".toList ∧
      doc.node? 4 = some ⟨some 3, .text 1 ⟨0, 6⟩⟩ ∧
      Lint.reports Lint.readers ⟨"b".toList, false⟩ doc = .ok
        [⟨.headerFormat, Header.Problem.parameters.message, "main.html".toList, 1, 6, 0⟩]) ∧
      ∃ doc, (sharedHeader ("aaaaé" ++ main) "Foo ()").load "main.html".toList = .ok doc ∧
        Lint.reports Lint.readers ⟨"b".toList, false⟩ doc = .error (.noSuchPosition 0 5) := by
  intro main
  have hfirst : (sharedHeader main "Foo ()").load "main.html".toList =
      .ok (sharedLoading main "Foo ()" 3).doc :=
    load_sharedHeader (by decide +kernel) (by decide +kernel) (by decide +kernel) (by decide +kernel)
  have hsecond : (sharedHeader ("aaaaé" ++ main) "Foo ()").load "main.html".toList =
      .ok (sharedLoading ("aaaaé" ++ main) "Foo ()" 4).doc :=
    load_sharedHeader (by decide +kernel) (by decide +kernel) (by decide +kernel) (by decide +kernel)
  exact ⟨⟨_, hfirst, by decide +kernel, by decide +kernel, by decide +kernel⟩, _, hsecond, by decide +kernel⟩

end FileTree
end Errata
