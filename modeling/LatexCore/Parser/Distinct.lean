import LatexCore.Parser.Reports

/-! # Repeated reports

Repetitions in a row are left out after the sort. Reports that differ in their text only
keep the order in which the passes made them, so a text that comes back at a range after
another one is reported twice, as in a citation of one key twice.
-/
namespace LatexCore.Parser
open Core Foundation Workspace Std

variable {parsers : Parsers} {limits : ParserLimits} {source : ProjectSource} {parsed : Parsed}
  {file : LogicalPath} {a b d : ProjectDiagnostic}

/-! ## Texts that come back -/

/-- No text of the entries comes back at a range after another one. -/
def NoReturn {α : Type} (range : α → SourceRange) (text : α → String) (p : α → Prop) (l : List α) : Prop :=
  ∀ x y z, p x → p y → p z → [x,y,z].Sublist l → range x = range y → range x = range z →
    text x = text z → text x = text y

def textReport (code : DiagnosticCode) (head : String) (file : LogicalPath) (range : SourceRange)
    (text : String) : ProjectDiagnostic :=
  ⟨file,.warning,code,head ++ text,some range⟩

variable {α : Type} {range : α → SourceRange} {text : α → String} {code : DiagnosticCode} {head : String}
  {l : List α}

theorem append_right_inj {head s t : String} (h : head ++ s = head ++ t) : s = t := by
  have hlist := congrArg String.toList h
  rw [String.toList_append,String.toList_append] at hlist
  exact String.toList_inj.mp (List.append_cancel_left hlist)

theorem textReport_inj {range range' : SourceRange} {s t : String}
    (h : textReport code head file range s = textReport code head file range' t) : range = range' ∧ s = t := by
  simp only [textReport,ProjectDiagnostic.mk.injEq,ParserDiagnostic.mk.injEq,Option.some.injEq,true_and] at h
  exact ⟨h.2,append_right_inj h.1⟩

theorem NoReturn.congr {p q : α → Prop} (h : ∀ x, p x ↔ q x) : NoReturn range text p l ↔ NoReturn range text q l := by
  simp only [NoReturn,h]

theorem NoReturn.reports {p : α → Bool} (h : NoReturn range text (p · = true) l)
    (hrange : a.diagnostic.range = b.diagnostic.range)
    (hsub : [a,b,a].Sublist ((l.filter p).map (fun x => textReport code head file (range x) (text x)))) :
    a = b := by
  obtain ⟨found,hfound,heq⟩ := List.sublist_map_iff.mp hsub
  obtain ⟨x,y,z,rfl⟩ := List.length_eq_three.mp (by simpa using (congrArg List.length heq).symm)
  simp only [List.map_cons,List.map_nil,List.cons.injEq,and_true] at heq
  obtain ⟨hx,hy,hz⟩ := heq
  have hall : ∀ w ∈ [x,y,z], p w = true := fun w hw => (List.mem_filter.mp (hfound.subset hw)).2
  obtain ⟨hxz,htext⟩ := textReport_inj (hx.symm.trans hz)
  have hxy : range x = range y := by
    rw [hx,hy] at hrange
    exact Option.some.inj hrange
  have hsame := h x y z (hall x (by simp)) (hall y (by simp)) (hall z (by simp))
    (hfound.trans List.filter_sublist) hxy hxz htext
  rw [hx,hy,hxy,hsame]

theorem NoReturn.of_reports (code : DiagnosticCode) (head : String) (file : LogicalPath) {p : α → Bool}
    (h : ∀ a b, SameKey a b → [a,b,a].Sublist
      ((l.filter p).map (fun x => textReport code head file (range x) (text x))) → a = b) :
    NoReturn range text (p · = true) l := by
  intro x y z hx hy hz hsub hxy hxz htext
  have hfilter := hsub.filter p
  simp only [List.filter_cons,hx,hy,hz,if_true,List.filter_nil] at hfilter
  have hmap := hfilter.map (fun x => textReport code head file (range x) (text x))
  simp only [List.map_cons,List.map_nil,← hxz,← htext] at hmap
  have hkey : SameKey (textReport code head file (range x) (text x))
      (textReport code head file (range y) (text y)) := ⟨rfl,by simp [textReport,ParserDiagnostic.sortKey,hxy]⟩
  exact (textReport_inj (h _ _ hkey hmap)).2

/-! ## The condition -/

def missing (sources : PathMap Bytes) (file : LogicalPath) (request : DependencyRequest) : Bool :=
  match request.target with
  | .static raw => (candidates file request.kind raw).all (fun path => !sources.contains path)
  | .dynamic _ => false

theorem missingDiagnostic_edgeOf (sources : PathMap Bytes) (file : LogicalPath) (request : DependencyRequest) :
    missingDiagnostic (edgeOf sources file request) =
      if missing sources file request = true then
        some (textReport .missingProjectDependency "project dependency not found: " file request.range
          request.target.raw)
      else none := by
  obtain ⟨kind,target,range⟩ := request
  cases target with
  | dynamic raw => simp [missingDiagnostic,edgeOf,missing]
  | static raw =>
    have hmissing : missing sources file ⟨kind,.static raw,range⟩ =
        ((candidates file kind raw).find? (sources.contains ·)).isNone := by
      rw [Bool.eq_iff_iff,Option.isNone_iff_eq_none,List.find?_eq_none]
      simp only [missing,List.all_eq_true,Bool.not_eq_true',Bool.not_eq_true]
    rw [hmissing]
    cases hfind : (candidates file kind raw).find? (sources.contains ·) with
    | none =>
      simp only [missingDiagnostic,edgeOf,resolveDependency,hfind]
      rfl
    | some path =>
      simp only [missingDiagnostic,edgeOf,resolveDependency,hfind]
      rfl

theorem missing_reports (sources : PathMap Bytes) (file : LogicalPath) (requests : List DependencyRequest) :
    (requests.map (edgeOf sources file)).filterMap missingDiagnostic =
      (requests.filter (missing sources file)).map (fun request =>
        textReport .missingProjectDependency "project dependency not found: " file request.range
          request.target.raw) := by
  induction requests with
  | nil => rfl
  | cons request rest ih =>
    rw [List.map_cons,List.filterMap_cons,missingDiagnostic_edgeOf,ih,List.filter_cons]
    by_cases hmissing : missing sources file request = true
    · rw [if_pos hmissing,if_pos hmissing,List.map_cons]
    · rw [if_neg hmissing,if_neg hmissing]

def FileAnalysis.citedKeys (found : FileAnalysis) : List (SourceRange × String) :=
  found.citations.flatMap (fun citation => citation.keys.map (fun key => (citation.range,key)))

theorem citation_reports (defined : Locations) (file : LogicalPath) (found : FileAnalysis) :
    citationDiagnostics defined file found =
      (found.citedKeys.filter (fun cited => undefinedKey defined cited.2)).map (fun cited =>
        textReport .unresolvedCitation "unresolved citation: " file cited.1 cited.2) := by
  rw [citationDiagnostics,FileAnalysis.citedKeys,List.filter_flatMap,List.map_flatMap]
  refine List.flatMap_congr fun citation _ => ?_
  rw [List.filter_map,List.map_map]
  rfl

namespace ProjectAnalysis

def HasLabel (analysis : ProjectAnalysis) (key : String) : Prop :=
  ∃ (file : LogicalPath) (found : FileAnalysis), analysis.files[file]? = some found ∧ ∃ label ∈ found.labels, label.key = key

/-- In no file does a missing request, a reference without a label or a citation without a definition
come back at a range after another one. -/
structure NothingReturns (source : ProjectSource) (analysis : ProjectAnalysis) : Prop where
  requests : ∀ (file : LogicalPath) (found : FileAnalysis), analysis.files[file]? = some found →
    NoReturn DependencyRequest.range (fun request => request.target.raw)
      (fun request => missing source.files file request = true) found.dependencies
  references : ∀ (file : LogicalPath) (found : FileAnalysis), analysis.files[file]? = some found →
    NoReturn ReferenceUse.range ReferenceUse.key (fun reference => ¬analysis.HasLabel reference.key)
      found.references
  citations : ∀ (file : LogicalPath) (found : FileAnalysis), analysis.files[file]? = some found →
    Reachable analysis.dependencyGraph.edges analysis.mainFile file →
      ¬RequestedDynamically analysis.dependencyGraph.edges analysis.mainFile →
        NoReturn Prod.fst Prod.snd (fun cited => analysis.Undefined cited.2) found.citedKeys

end ProjectAnalysis

theorem contains_labelLocations {key : String} :
    (labelLocations parsed.1).contains key = true ↔ (assemble source parsed).HasLabel key := by
  rw [labelLocations,contains_locate]
  constructor
  · rintro ⟨⟨other,location⟩,hmem,rfl⟩
    obtain ⟨⟨file,found⟩,hfile,hmem⟩ := List.mem_flatMap.mp hmem
    obtain ⟨label,hlabel,heq⟩ := List.mem_map.mp hmem
    exact ⟨file,found,ExtTreeMap.mem_toList_iff_getElem?_eq_some.mp hfile,label,hlabel,(Prod.mk.inj heq).1⟩
  · rintro ⟨file,found,hget,label,hlabel,rfl⟩
    exact ⟨(label.key,file,label.range),List.mem_flatMap.mpr ⟨(file,found),
      ExtTreeMap.mem_toList_iff_getElem?_eq_some.mpr hget,List.mem_map.mpr ⟨label,hlabel,rfl⟩⟩,rfl⟩

/-! ## Reports that come back -/

/-- The labels that are defined twice. -/
def labelReports (files : PathMap FileAnalysis) : List ProjectDiagnostic :=
  duplicates .duplicateLabel "duplicate label: " (labelLocations files)

def referenceReports (files : PathMap FileAnalysis) : List ProjectDiagnostic :=
  files.toList.flatMap (fun file =>
    (file.2.references.filter (fun reference => !(labelLocations files).contains reference.key)).map
      (unresolvedReference file.1))

theorem produced_eq (source : ProjectSource) (parsed : Parsed) :
    ∃ reachable, (∀ {file}, file ∈ reachable ↔
        Reachable (projectEdges source.files parsed.1) source.mainFile file) ∧
      produced source parsed =
        parsed.1.toList.flatMap (fileDiagnostics source.files) ++
        ((cycleDiagnostics (2 * (projectEdges source.files parsed.1).length + 2)
          (projectEdges source.files parsed.1)).getD [] ++
        (labelReports parsed.1 ++ (referenceReports parsed.1 ++
        (bibliographyReports reachable parsed (projectEdges source.files parsed.1) ++
        (keyReports reachable parsed (projectEdges source.files parsed.1) ++
          citationReports reachable parsed (projectEdges source.files parsed.1)))))) := by
  obtain ⟨reachable,hreachable⟩ := reachableSources_returns source.mainFile
    (projectEdges source.files parsed.1) (Nat.lt_add_of_pos_right (Nat.succ_pos 1))
  refine ⟨reachable,fun {file} => mem_reachableSources hreachable,?_⟩
  have hlabels : labelDiagnostics parsed.1 = labelReports parsed.1 ++ referenceReports parsed.1 := rfl
  rw [produced]
  simp only [hreachable,Option.elim_some,bibliographyDiagnostics_eq,hlabels,List.append_assoc]

theorem return_file {β : Type} {files : PathMap β} {f : LogicalPath × β → List ProjectDiagnostic}
    (hfile : ∀ file, ∀ d ∈ f file, d.file = file.1) (h : [a,b,a].Sublist (files.toList.flatMap f)) :
    ∃ found, files[a.file]? = some found ∧ [a,b,a].Sublist (f (a.file,found)) := by
  obtain ⟨⟨file,found⟩,hmem,hsub⟩ := return_flatMap h
    (ExtTreeMap.distinct_keys_toList.imp fun hne hx hy =>
      hne (Std.compare_eq_iff_eq.mpr ((hfile _ a hx).symm.trans (hfile _ a hy))))
  obtain rfl : a.file = file := hfile _ a (hsub.subset (by simp))
  exact ⟨found,ExtTreeMap.mem_toList_iff_getElem?_eq_some.mp hmem,hsub⟩

/-- The reports of a key stand together. -/
theorem duplicates_gathered {found : List (String × Location)} (hfile : a.file = b.file)
    (hrange : a.diagnostic.range = b.diagnostic.range)
    (h : [a,b,a].Sublist (duplicates code head (locate found))) : a = b := by
  have hgroup {entry : String × List Location} {d : ProjectDiagnostic}
      (hd : d ∈ if 1 < entry.2.length then entry.2.map (fun location =>
        (⟨location.1,.warning,code,head ++ entry.1,some location.2⟩ : ProjectDiagnostic)) else []) :
      d.diagnostic.severity = .warning ∧ d.diagnostic.code = code ∧ d.diagnostic.message = head ++ entry.1 := by
    split at hd
    · obtain ⟨location,-,rfl⟩ := List.mem_map.mp hd
      exact ⟨rfl,rfl,rfl⟩
    · cases hd
  obtain ⟨entry,-,hsub⟩ := return_flatMap h (ExtTreeMap.distinct_keys_toList.imp fun hne hx hy => by
    obtain ⟨-,-,hfirst⟩ := hgroup hx
    obtain ⟨-,-,hsecond⟩ := hgroup hy
    exact hne (Std.compare_eq_iff_eq.mpr (append_right_inj (hfirst.symm.trans hsecond))))
  obtain ⟨hseverity,hcode,hmessage⟩ := hgroup (hsub.subset (a := a) (by simp))
  obtain ⟨hseverity',hcode',hmessage'⟩ := hgroup (hsub.subset (a := b) (by simp))
  exact eq_of_fields hfile (hseverity.trans hseverity'.symm) (hcode.trans hcode'.symm)
    (hmessage.trans hmessage'.symm) hrange

theorem fileDiagnostics_file {sources : PathMap Bytes} (file : LogicalPath × FileAnalysis) :
    ∀ d ∈ fileDiagnostics sources file, d.file = file.1 := by
  intro d hd
  rcases List.mem_append.mp hd with hd | hd
  · obtain ⟨own,-,rfl⟩ := List.mem_map.mp hd
    rfl
  · rw [missing_reports] at hd
    obtain ⟨request,-,rfl⟩ := List.mem_map.mp hd
    rfl

def Coded (codes : List DiagnosticCode) (reports : List ProjectDiagnostic) : Prop :=
  ∀ d ∈ reports, d.diagnostic.code ∈ codes

theorem Coded.append {codes more : List DiagnosticCode} {first second : List ProjectDiagnostic}
    (hfirst : Coded codes first) (hsecond : Coded more second) : Coded (codes ++ more) (first ++ second) := by
  intro d hd
  rcases List.mem_append.mp hd with hd | hd
  · exact List.mem_append_left _ (hfirst d hd)
  · exact List.mem_append_right _ (hsecond d hd)

theorem Coded.not_mem {codes : List DiagnosticCode} {reports : List ProjectDiagnostic} (h : Coded codes reports)
    (hcode : a.diagnostic.code ∉ codes) : a ∉ reports := fun hmem => hcode (h a hmem)

theorem referenceReports_code (files : PathMap FileAnalysis) : Coded [.unresolvedReference] (referenceReports files) := by
  intro d hd
  obtain ⟨file,-,hd⟩ := List.mem_flatMap.mp hd
  obtain ⟨reference,-,rfl⟩ := List.mem_map.mp hd
  exact List.mem_cons_self

theorem return_pass (h : ParsedFrom parsers limits source parsed) (hsub : [a,b,a].Sublist (produced source parsed)) :
    ∃ reachable, (∀ {file}, file ∈ reachable ↔
        Reachable (projectEdges source.files parsed.1) source.mainFile file) ∧
      (a.diagnostic.code = .missingProjectDependency →
        [a,b,a].Sublist (parsed.1.toList.flatMap (fileDiagnostics source.files))) ∧
      (a.diagnostic.code = .duplicateLabel → [a,b,a].Sublist (labelReports parsed.1)) ∧
      (a.diagnostic.code = .unresolvedReference → [a,b,a].Sublist (referenceReports parsed.1)) ∧
      (a.diagnostic.code = .duplicateBibtexKey →
        [a,b,a].Sublist (keyReports reachable parsed (projectEdges source.files parsed.1))) ∧
      (a.diagnostic.code = .unresolvedCitation →
        [a,b,a].Sublist (citationReports reachable parsed (projectEdges source.files parsed.1))) := by
  obtain ⟨reachable,hreach,heq⟩ := produced_eq source parsed
  rw [heq] at hsub
  have hfiles : Coded fileCodes (parsed.1.toList.flatMap (fileDiagnostics source.files)) :=
    fun d hd => fileDiagnostics_code h hd
  have hcycles : Coded [.dependencyCycle] ((cycleDiagnostics (2 * (projectEdges source.files parsed.1).length + 2)
      (projectEdges source.files parsed.1)).getD []) := fun d hd => List.mem_singleton.mpr (cycleDiagnostics_code hd)
  have hlabels : Coded [.duplicateLabel] (labelReports parsed.1) :=
    fun d hd => List.mem_singleton.mpr (duplicates_code hd)
  have hbibs : Coded [.bibtexSyntaxError,.invalidUtf8SemanticText]
      (bibliographyReports reachable parsed (projectEdges source.files parsed.1)) :=
    fun d hd => bibliographyReports_code h hd
  have hkeys : Coded [.duplicateBibtexKey] (keyReports reachable parsed (projectEdges source.files parsed.1)) :=
    fun d hd => List.mem_singleton.mpr (duplicates_code hd)
  have hcitations : Coded [.unresolvedCitation]
      (citationReports reachable parsed (projectEdges source.files parsed.1)) :=
    fun d hd => List.mem_singleton.mpr (citationReports_code hd)
  have hlast := hkeys.append hcitations
  have hfourth := hbibs.append hlast
  have hthird := (referenceReports_code parsed.1).append hfourth
  have hsecond := hlabels.append hthird
  refine ⟨reachable,hreach,fun hcode => ?_,fun hcode => ?_,fun hcode => ?_,fun hcode => ?_,fun hcode => ?_⟩
  · exact return_left hsub ((hcycles.append hsecond).not_mem (by rw [hcode]; decide))
  · have hafter := return_right (return_right hsub (hfiles.not_mem (by rw [hcode]; decide)))
      (hcycles.not_mem (by rw [hcode]; decide))
    exact return_left hafter (hthird.not_mem (by rw [hcode]; decide))
  · have hafter := return_right (return_right (return_right hsub (hfiles.not_mem (by rw [hcode]; decide)))
      (hcycles.not_mem (by rw [hcode]; decide))) (hlabels.not_mem (by rw [hcode]; decide))
    exact return_left hafter (hfourth.not_mem (by rw [hcode]; decide))
  · have hafter := return_right (return_right (return_right (return_right (return_right hsub
      (hfiles.not_mem (by rw [hcode]; decide))) (hcycles.not_mem (by rw [hcode]; decide)))
      (hlabels.not_mem (by rw [hcode]; decide))) ((referenceReports_code _).not_mem (by rw [hcode]; decide)))
      (hbibs.not_mem (by rw [hcode]; decide))
    exact return_left hafter (hcitations.not_mem (by rw [hcode]; decide))
  · have hafter := return_right (return_right (return_right (return_right (return_right hsub
      (hfiles.not_mem (by rw [hcode]; decide))) (hcycles.not_mem (by rw [hcode]; decide)))
      (hlabels.not_mem (by rw [hcode]; decide))) ((referenceReports_code _).not_mem (by rw [hcode]; decide)))
      (hbibs.not_mem (by rw [hcode]; decide))
    exact return_right hafter (hkeys.not_mem (by rw [hcode]; decide))

/-- The code of a report says which kind it is of. -/
theorem produced_of_code (h : ParsedFrom parsers limits source parsed) (hd : d ∈ produced source parsed) :
    (d.diagnostic.code ∈ ownCodes → Own parsed d) ∧
      (d.diagnostic.code = .dependencyCycle → d = cycleDiagnostic d.file) ∧
      (d.diagnostic.code ∈ textCodes → InTree parsers source d) := by
  have hown : ∀ code ∈ ownCodes, code ≠ .dependencyCycle ∧ code ∉ textCodes := by decide
  have htext : ∀ code ∈ textCodes, code ≠ .dependencyCycle ∧ code ∉ ownCodes := by decide
  rcases produced_inTree h hd with ⟨hmem,hcode⟩ | hcycle | ⟨hmem,hcode⟩
  · exact ⟨fun _ => hmem,fun hother => absurd hother (hown _ hcode).1,
      fun hother => absurd hother (hown _ hcode).2⟩
  · have hcode : d.diagnostic.code = .dependencyCycle := hcycle ▸ rfl
    exact ⟨fun hother => absurd hcode (hown _ hother).1,fun _ => hcycle,
      fun hother => absurd hcode (htext _ hother).1⟩
  · exact ⟨fun hother => absurd hother (htext _ hcode).2,fun hother => absurd hother (htext _ hcode).1,
      fun _ => hmem⟩

theorem own_not_missing (h : ParsedFrom parsers limits source parsed) {found : FileAnalysis}
    (hget : parsed.1[a.file]? = some found) (hcode : a.diagnostic.code = .missingProjectDependency) :
    a ∉ found.diagnostics.map (ProjectDiagnostic.mk a.file) := by
  intro hmem
  obtain ⟨own,hown,heq⟩ := List.mem_map.mp hmem
  have hcode : own.code = .missingProjectDependency := by
    rw [← hcode,← heq]
  rcases (h.treePlaced hget).reports own hown with hlimit | ⟨hreport,-⟩
  · rw [hlimit] at hcode
    cases hcode
  · have hall : ∀ report ∈ ownReports, report.2.1 ≠ .missingProjectDependency := by decide
    exact hall _ hreport hcode

theorem referenceReports_file {files : PathMap FileAnalysis} (file : LogicalPath × FileAnalysis) :
    ∀ d ∈ (file.2.references.filter (fun reference => !(labelLocations files).contains reference.key)).map
      (unresolvedReference file.1), d.file = file.1 := by
  intro d hd
  obtain ⟨reference,-,rfl⟩ := List.mem_map.mp hd
  rfl

theorem not_label_iff (source : ProjectSource) (parsed : Parsed) (key : String) :
    (!(labelLocations parsed.1).contains key) = true ↔ ¬(assemble source parsed).HasLabel key := by
  rw [Bool.not_eq_true',← Bool.not_eq_true,contains_labelLocations]

theorem return_citation {reachable : PathSet} (hreach : ∀ {file}, file ∈ reachable ↔
      Reachable (projectEdges source.files parsed.1) source.mainFile file)
    (h : [a,b,a].Sublist (citationReports reachable parsed (projectEdges source.files parsed.1))) :
    ¬RequestedDynamically (projectEdges source.files parsed.1) source.mainFile ∧
      ∃ found, parsed.1[a.file]? = some found ∧
        Reachable (projectEdges source.files parsed.1) source.mainFile a.file ∧
        [a,b,a].Sublist (citationDiagnostics (definitions (readBibs parsed.2
          (reachableBibs reachable (projectEdges source.files parsed.1)))) a.file found) := by
  unfold citationReports at h
  split at h
  · cases h
  · next hdynamic =>
    have hfile {path : LogicalPath} {d : ProjectDiagnostic}
        (hd : d ∈ (parsed.1[path]?).elim [] (citationDiagnostics (definitions (readBibs parsed.2
          (reachableBibs reachable (projectEdges source.files parsed.1)))) path)) : d.file = path := by
      cases hget : parsed.1[path]? with
      | none =>
        rw [hget] at hd
        cases hd
      | some found =>
        rw [hget,Option.elim_some,citation_reports] at hd
        obtain ⟨cited,-,rfl⟩ := List.mem_map.mp hd
        rfl
    obtain ⟨path,hpath,hsub⟩ := return_flatMap h (ExtTreeSet.distinct_toList.imp fun hne hx hy =>
      hne (Std.compare_eq_iff_eq.mpr ((hfile hx).symm.trans (hfile hy))))
    obtain rfl : a.file = path := hfile (hsub.subset (by simp))
    refine ⟨fun hrequested => hdynamic ((hasDynamicBibliography_iff hreach).mpr hrequested),?_⟩
    cases hget : parsed.1[a.file]? with
    | none =>
      rw [hget] at hsub
      cases hsub
    | some found =>
      rw [hget] at hsub
      exact ⟨found,rfl,hreach.mp (ExtTreeSet.mem_toList.mp hpath),hsub⟩

section Ranges
variable (hlatex : parsers.latex.Ranges Pointed) (hbibtex : parsers.bibtex.Ranges Pointed)
  (h : ParsedFrom parsers limits source parsed)
include hlatex hbibtex h

/-- Under the condition, no report comes back after another one of its key. -/
theorem produced_gathered (hcond : (assemble source parsed).NothingReturns source) (hkey : SameKey a b)
    (hsub : [a,b,a].Sublist (produced source parsed)) : a = b := by
  obtain ⟨hown,hcycle,htext⟩ := produced_of_code h (hsub.subset (a := b) (by simp))
  rw [← hkey.code] at hown hcycle htext
  rcases produced_inTree h (hsub.subset (a := a) (by simp)) with ⟨ha,hcode⟩ | ha | ⟨ha,hcode⟩
  · exact own_eq hlatex hbibtex h hkey ha (hown hcode)
  · have hcode : a.diagnostic.code = .dependencyCycle := ha ▸ rfl
    rw [ha,hcycle hcode,hkey.file]
  · have hrange := hkey.range hlatex hbibtex ha (htext hcode)
    obtain ⟨reachable,hreach,hmissing,hlabel,hreference,hkeys,hcitation⟩ := return_pass h hsub
    simp only [textCodes,List.mem_cons,List.not_mem_nil,or_false] at hcode
    rcases hcode with hcode | hcode | hcode | hcode | hcode
    · obtain ⟨found,hget,hback⟩ := return_file fileDiagnostics_file (hmissing hcode)
      have hback := return_right hback (own_not_missing h hget hcode)
      rw [missing_reports] at hback
      exact (hcond.requests _ found hget).reports hrange hback
    · exact duplicates_gathered hkey.file hrange (hlabel hcode)
    · obtain ⟨found,hget,hback⟩ := return_file referenceReports_file (hreference hcode)
      have hnone := (NoReturn.congr fun reference : ReferenceUse =>
        (not_label_iff source parsed reference.key).symm).mp (hcond.references _ found hget)
      exact hnone.reports hrange hback
    · exact duplicates_gathered hkey.file hrange (hkeys hcode)
    · obtain ⟨hdynamic,found,hget,hfile,hback⟩ := return_citation hreach (hcitation hcode)
      have hnone := (NoReturn.congr fun cited : SourceRange × String => undefinedKey_iff hreach).mpr
        (hcond.citations _ found hget hfile hdynamic)
      rw [citation_reports] at hback
      exact hnone.reports hrange hback

end Ranges

theorem sublist_flatMap_of_mem {β γ : Type} {f : β → List γ} {x : β} {l : List β} (h : x ∈ l) :
    (f x).Sublist (l.flatMap f) := by
  rw [List.flatMap_def]
  exact List.sublist_flatten_of_mem (List.mem_map_of_mem h)

/-- If no report comes back after another one of its key, then the condition holds. -/
theorem nothingReturns_of_gathered (h : ∀ a b, SameKey a b → [a,b,a].Sublist (produced source parsed) → a = b) :
    (assemble source parsed).NothingReturns source := by
  obtain ⟨reachable,hreach,heq⟩ := produced_eq source parsed
  rw [heq] at h
  constructor
  · intro file found hget
    refine NoReturn.of_reports .missingProjectDependency "project dependency not found: " file
      fun a b hkey hsub => h a b hkey ?_
    rw [← missing_reports] at hsub
    have hfile : (file,found) ∈ parsed.1.toList := ExtTreeMap.mem_toList_iff_getElem?_eq_some.mpr hget
    have hpart := (hsub.trans (List.sublist_append_right ..)).trans
      (sublist_flatMap_of_mem (f := fileDiagnostics source.files) hfile)
    exact List.sublist_append_of_sublist_left hpart
  · intro file found hget
    refine (NoReturn.congr fun reference : ReferenceUse => not_label_iff source parsed reference.key).mp
      (NoReturn.of_reports .unresolvedReference "unresolved reference: " file
        fun a b hkey hsub => h a b hkey ?_)
    have hfile : (file,found) ∈ parsed.1.toList := ExtTreeMap.mem_toList_iff_getElem?_eq_some.mpr hget
    have hpart : [a,b,a].Sublist (referenceReports parsed.1) :=
      hsub.trans (sublist_flatMap_of_mem (f := fun file : LogicalPath × FileAnalysis =>
        (file.2.references.filter (fun reference : ReferenceUse =>
          !(labelLocations parsed.1).contains reference.key)).map (unresolvedReference file.1)) hfile)
    exact List.sublist_append_of_sublist_right (List.sublist_append_of_sublist_right
      (List.sublist_append_of_sublist_right (List.sublist_append_of_sublist_left hpart)))
  · intro file found hget hfile hdynamic
    refine (NoReturn.congr fun cited : SourceRange × String => undefinedKey_iff hreach).mp
      (NoReturn.of_reports .unresolvedCitation "unresolved citation: " file
        fun a b hkey hsub => h a b hkey ?_)
    have hpart : [a,b,a].Sublist (citationReports reachable parsed (projectEdges source.files parsed.1)) := by
      rw [citationReports,if_neg (fun hany => hdynamic ((hasDynamicBibliography_iff hreach).mp hany))]
      refine List.Sublist.trans ?_ (sublist_flatMap_of_mem (x := file)
        (ExtTreeSet.mem_toList.mpr (hreach.mpr hfile)))
      have hget : parsed.1[file]? = some found := hget
      rw [hget,Option.elim_some,citation_reports]
      exact hsub
    exact List.sublist_append_of_sublist_right (List.sublist_append_of_sublist_right
      (List.sublist_append_of_sublist_right (List.sublist_append_of_sublist_right
        (List.sublist_append_of_sublist_right (List.sublist_append_of_sublist_right hpart)))))

/-- There are no duplicates when no report comes back after another one of its key. -/
theorem assemble_nodup : (assemble source parsed).diagnostics.Nodup ↔
    ∀ a b, SameKey a b → [a,b,a].Sublist (produced source parsed) → a = b := by
  rw [assemble,nodup_destutter_iff,gathered_mergeSort_iff atMost_trans atMost_total]
  simp only [sameKey_iff,and_imp]

/-- The reports are sorted and have every report of the passes. They are without duplicates exactly
when no text comes back at a range after another one. -/
theorem diagnostics_distinct (parsers : Parsers) (limits : ParserLimits) (source : ProjectSource)
    (analysis : ProjectAnalysis) (hlatex : parsers.latex.Ranges Pointed)
    (hbibtex : parsers.bibtex.Ranges Pointed) (h : analyze parsers limits source = .ok analysis) :
    (analysis.diagnostics.Pairwise (fun a b => a.atMost b) ∧ analysis.diagnostics.Nodup ∧
      (∀ d ∈ produced source (analysis.files,analysis.bibliographies), d ∈ analysis.diagnostics) ↔
        analysis.NothingReturns source) ∧
    analysis.diagnostics.Pairwise (fun a b => a.atMost b) ∧
    ∀ d, d ∈ produced source (analysis.files,analysis.bibliographies) ↔ d ∈ analysis.diagnostics := by
  obtain ⟨parsed,hparsed,rfl⟩ := analyze_ok h
  have hsorted : (assemble source parsed).diagnostics.Pairwise (fun a b => a.atMost b) :=
    (List.pairwise_mergeSort atMost_trans atMost_total _).sublist (List.destutter_sublist _ _)
  refine ⟨⟨fun ⟨_,hall,_⟩ => nothingReturns_of_gathered (assemble_nodup.mp hall),fun hcond => ?_⟩,hsorted,
    fun d => mem_diagnostics.symm⟩
  exact ⟨hsorted,assemble_nodup.mpr fun a b hkey hsub =>
    produced_gathered hlatex hbibtex hparsed hcond hkey hsub,fun d hd => mem_diagnostics.mpr hd⟩

theorem loopGrammar_pointed : (grammarOf loopText loopTree).Ranges Pointed := by
  intro text tree htree
  have htext : text = loopText := by
    by_contra hne
    have hnone : (grammarOf loopText loopTree).parse text none = none := if_neg hne
    rw [hnone] at htree
    cases htree
  subst htext
  have hall : ∀ range ∈ loopTree.ranges, Pointed loopText range := by
    unfold Pointed
    decide +kernel
  exact hall

/-- Where nothing is reported twice, no citation comes back. -/
theorem diagnostics_distinct_loop : ∃ analysis, analyze loopParsers .default loopProject = .ok analysis ∧
    (analysis.diagnostics.Nodup → analysis.NothingReturns loopProject) := by
  obtain ⟨analysis,h,-⟩ := loop_analysis
  obtain ⟨hiff,hsorted,hall⟩ := diagnostics_distinct loopParsers .default loopProject analysis
    loopGrammar_pointed loopGrammar_pointed h
  exact ⟨analysis,h,fun hnodup => hiff.mp ⟨hsorted,hnodup,fun d hd => (hall d).mp hd⟩⟩

/-- The file cites the keys a, b and a in one command, and the first is reported twice. -/
theorem diagnostics_repeat_loop : ∃ analysis, analyze loopParsers .default loopProject = .ok analysis ∧
    ¬analysis.diagnostics.Nodup := by
  obtain ⟨analysis,h,hmain,hedges,found,hfile,hcitations⟩ := loop_analysis
  refine ⟨analysis,h,fun hnodup => ?_⟩
  obtain ⟨hdynamic,hundefined⟩ := loop_undefined hedges
  have hcond : analysis.NothingReturns loopProject := by
    obtain ⟨parsed,-,rfl⟩ := analyze_ok h
    exact nothingReturns_of_gathered (assemble_nodup.mp hnodup)
  have hkeys : found.citedKeys = [(loopRange,"a"),(loopRange,"b"),(loopRange,"a")] := by
    rw [FileAnalysis.citedKeys,hcitations]
    rfl
  have hnone := hcond.citations commentPath found hfile (hmain ▸ .refl) hdynamic
  rw [hkeys] at hnone
  have hsame := hnone (loopRange,"a") (loopRange,"b") (loopRange,"a") ⟨by decide,by decide,hundefined "a"⟩
    ⟨by decide,by decide,hundefined "b"⟩ ⟨by decide,by decide,hundefined "a"⟩ (List.Sublist.refl _) rfl rfl rfl
  exact absurd hsame (by decide)

end LatexCore.Parser
