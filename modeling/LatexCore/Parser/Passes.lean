import LatexCore.Foundation.Dedup
import LatexCore.Parser.Limits
import LatexCore.Parser.Project

/-! # The passes of a project analysis

What the passes have in common: the analyses that they read, the graph of the sources,
the locations of a key, and the reports that each pass makes. The reports of a project
are those that the passes produce, sorted and without repetitions in a row.
-/
namespace LatexCore.Parser
open Core Foundation Workspace Std Relation

/-! ## Bibliographies -/

namespace Bibtex

def bibReports : List (DiagnosticSeverity × DiagnosticCode × String) :=
  [(.error,.bibtexSyntaxError,"malformed BibTeX syntax"),
    (.error,.invalidUtf8SemanticText,"BibTeX semantic text is not valid UTF-8")]

structure Placed (ranges : List NodeRange) (analysis : BibtexAnalysis) : Prop where
  reports : ∀ diagnostic ∈ analysis.diagnostics,
    (diagnostic.severity,diagnostic.code,diagnostic.message) ∈ bibReports ∧
      ∃ range, diagnostic.range = some range ∧ RangeOf ranges range
  entries : ∀ entry ∈ analysis.entries, RangeOf ranges entry.range

variable {ranges : List NodeRange} {analysis next : BibtexAnalysis} {source : Bytes}

/-- The node and those below it have their ranges among the given ones. -/
def Inside (ranges : List NodeRange) (node : SyntaxNode) : Prop := node.ranges ⊆ ranges

theorem Inside.range {node : SyntaxNode} (h : Inside ranges node) : node.range ∈ ranges := by
  obtain ⟨kind,fields,named,error,missing,range,children⟩ := node
  exact h (by rw [SyntaxNode.ranges]; exact List.mem_cons_self)

theorem ranges_subset_of_mem {node : SyntaxNode} {nodes : List SyntaxNode} (h : node ∈ nodes) :
    node.ranges ⊆ SyntaxNode.rangesAll nodes := by
  induction nodes with
  | nil => cases h
  | cons first rest ih =>
    rw [SyntaxNode.rangesAll]
    rcases List.mem_cons.mp h with rfl | h
    · exact List.subset_append_left ..
    · exact fun _ hmem => List.mem_append_right _ (ih h hmem)

theorem Inside.child {node child : SyntaxNode} (h : Inside ranges node) (hchild : child ∈ node.children) :
    Inside ranges child := by
  obtain ⟨kind,fields,named,error,missing,range,children⟩ := node
  intro r hr
  refine h ?_
  rw [SyntaxNode.ranges]
  exact List.mem_cons_of_mem _ (ranges_subset_of_mem hchild hr)

theorem Placed.report (h : Placed ranges analysis) {code : DiagnosticCode} {message : String}
    {node : SyntaxNode} (hnode : Inside ranges node) (hown : (.error,code,message) ∈ bibReports)
    (hok : report code message node analysis = .ok next) : Placed ranges next := by
  simp only [Bibtex.report,bind_ok,pure_ok] at hok
  obtain ⟨range,hrange,rfl⟩ := hok
  refine ⟨fun diagnostic hmem => ?_,h.entries⟩
  rcases List.mem_append.mp hmem with hmem | hmem
  · exact h.reports diagnostic hmem
  · obtain rfl := List.mem_singleton.mp hmem
    exact ⟨hown,range,rfl,node.range,hnode.range,hrange⟩

mutual
theorem Placed.collectSyntax (node : SyntaxNode) {analysis next : BibtexAnalysis}
    (h : Placed ranges analysis) (hnode : Inside ranges node)
    (hok : collectSyntax node analysis = .ok next) : Placed ranges next := by
  obtain ⟨kind,fields,named,error,missing,range,children⟩ := node
  rw [Bibtex.collectSyntax] at hok
  have hchildren : ∀ child ∈ children, Inside ranges child := fun child hchild => hnode.child hchild
  split at hok
  · rw [bind_ok] at hok
    obtain ⟨first,hfirst,hrest⟩ := hok
    exact Placed.collectSyntaxAll children (h.report hnode (by decide) hfirst) hchildren hrest
  · exact Placed.collectSyntaxAll children h hchildren hok

theorem Placed.collectSyntaxAll (nodes : List SyntaxNode) {analysis next : BibtexAnalysis}
    (h : Placed ranges analysis) (hnodes : ∀ node ∈ nodes, Inside ranges node)
    (hok : collectSyntaxAll nodes analysis = .ok next) : Placed ranges next := by
  cases nodes with
  | nil =>
    obtain rfl := Except.ok.inj hok
    exact h
  | cons node rest =>
    rw [Bibtex.collectSyntaxAll,bind_ok] at hok
    obtain ⟨first,hfirst,hrest⟩ := hok
    obtain ⟨hnode,hothers⟩ := List.forall_mem_cons.mp hnodes
    exact Placed.collectSyntaxAll rest (Placed.collectSyntax node h hnode hfirst) hothers hrest
end

theorem Placed.text (h : Placed ranges analysis) {node : SyntaxNode} (hnode : Inside ranges node)
    {value : Option String} (hok : text source node analysis = .ok (value,next)) : Placed ranges next := by
  unfold Bibtex.text at hok
  split at hok
  · rw [bind_ok] at hok
    obtain ⟨_,-,hpure⟩ := hok
    obtain ⟨-,rfl⟩ := Prod.mk.inj (Except.ok.inj hpure)
    exact h
  · rw [bind_ok] at hok
    obtain ⟨first,hfirst,hpure⟩ := hok
    obtain ⟨-,rfl⟩ := Prod.mk.inj (Except.ok.inj hpure)
    exact h.report hnode (by decide) hfirst

theorem Placed.texts (h : Placed ranges analysis) {node : SyntaxNode} (hnode : Inside ranges node)
    {first second : String} {value : Option (String × String)}
    (hok : texts source node first second analysis = .ok (value,next)) : Placed ranges next := by
  unfold Bibtex.texts at hok
  split at hok
  · next a b ha hb =>
    have hinside (field : String) (child : SyntaxNode) (hchild : node.childByFieldName field = some child) :
        Inside ranges child := hnode.child (List.mem_of_find?_eq_some hchild)
    rw [bind_ok] at hok
    obtain ⟨⟨x,found⟩,hx,hok⟩ := hok
    have hfound := h.text (hinside _ _ ha) hx
    cases x with
    | none =>
      obtain ⟨-,rfl⟩ := Prod.mk.inj (Except.ok.inj hok)
      exact hfound
    | some x =>
      dsimp only at hok
      rw [bind_ok] at hok
      obtain ⟨⟨y,later⟩,hy,hpure⟩ := hok
      obtain ⟨-,rfl⟩ := Prod.mk.inj (Except.ok.inj hpure)
      exact hfound.text (hinside _ _ hb) hy
  · obtain ⟨-,rfl⟩ := Prod.mk.inj (Except.ok.inj hok)
    exact h

theorem Placed.readFields {children : List SyntaxNode} (hchildren : ∀ child ∈ children, Inside ranges child)
    {fields read : List BibtexField} {analysis next : BibtexAnalysis} (h : Placed ranges analysis)
    (hok : readFields source children fields analysis = .ok (read,next)) : Placed ranges next := by
  induction children generalizing fields analysis with
  | nil =>
    obtain ⟨-,rfl⟩ := Prod.mk.inj (Except.ok.inj hok)
    exact h
  | cons child rest ih =>
    obtain ⟨hchild,hrest⟩ := List.forall_mem_cons.mp hchildren
    rw [Bibtex.readFields,bind_ok] at hok
    obtain ⟨⟨value,found⟩,hvalue,hok⟩ := hok
    have hfound := h.texts hchild hvalue
    cases value with
    | none => exact ih hrest hfound hok
    | some value =>
      dsimp only at hok
      rw [bind_ok] at hok
      obtain ⟨range,-,hok⟩ := hok
      exact ih hrest hfound hok

theorem Placed.extractEntry (h : Placed ranges analysis) {node : SyntaxNode} (hnode : Inside ranges node)
    (hok : extractEntry source node analysis = .ok next) : Placed ranges next := by
  rw [Bibtex.extractEntry,bind_ok] at hok
  obtain ⟨⟨value,found⟩,hvalue,hok⟩ := hok
  have hfound := h.texts hnode hvalue
  cases value with
  | none =>
    obtain rfl := Except.ok.inj hok
    exact hfound
  | some value =>
    dsimp only at hok
    split at hok
    · obtain rfl := Except.ok.inj hok
      exact hfound
    · simp only [bind_ok,pure_ok] at hok
      obtain ⟨⟨fields,read⟩,hread,range,hrange,rfl⟩ := hok
      have hplaced := hfound.readFields
        (fun child hchild => hnode.child (List.mem_of_mem_filter hchild)) hread
      refine ⟨hplaced.reports,fun entry hmem => ?_⟩
      rcases List.mem_append.mp hmem with hmem | hmem
      · exact hplaced.entries entry hmem
      · obtain rfl := List.mem_singleton.mp hmem
        exact ⟨node.range,hnode.range,hrange⟩

theorem Placed.extractString (h : Placed ranges analysis) {node : SyntaxNode} (hnode : Inside ranges node)
    (hok : extractString source node analysis = .ok next) : Placed ranges next := by
  rw [Bibtex.extractString,bind_ok] at hok
  obtain ⟨⟨value,found⟩,hvalue,hok⟩ := hok
  have hfound := h.texts hnode hvalue
  cases value with
  | none =>
    obtain rfl := Except.ok.inj hok
    exact hfound
  | some value =>
    dsimp only at hok
    rw [bind_ok] at hok
    obtain ⟨range,-,hpure⟩ := hok
    obtain rfl := Except.ok.inj hpure
    exact ⟨hfound.reports,hfound.entries⟩

theorem Placed.extractAll {nodes : List SyntaxNode} (hnodes : ∀ node ∈ nodes, Inside ranges node)
    {analysis next : BibtexAnalysis} (h : Placed ranges analysis)
    (hok : nodes.foldlM (extract source) analysis = .ok next) : Placed ranges next := by
  induction nodes generalizing analysis with
  | nil =>
    obtain rfl := Except.ok.inj hok
    exact h
  | cons node rest ih =>
    obtain ⟨hnode,hrest⟩ := List.forall_mem_cons.mp hnodes
    rw [List.foldlM_cons,bind_ok] at hok
    obtain ⟨first,hfirst,hok⟩ := hok
    refine ih hrest ?_ hok
    unfold extract at hfirst
    split at hfirst
    · exact h.extractEntry hnode hfirst
    · split at hfirst
      · exact h.extractString hnode hfirst
      · obtain rfl := Except.ok.inj hfirst
        exact h

theorem analyze_placed {root : SyntaxNode} (h : analyze source root = .ok analysis) :
    Placed root.ranges analysis := by
  simp only [analyze,bind_ok,pure_ok] at h
  obtain ⟨first,hfirst,second,hsecond,rfl⟩ := h
  have hroot : Inside root.ranges root := List.Subset.refl _
  have hempty : Placed root.ranges ⟨[],[],[]⟩ := ⟨by simp,by simp⟩
  have hplaced := Placed.extractAll
    (fun node hnode => hroot.child (List.mem_of_mem_filter hnode))
    (hempty.collectSyntax root hroot hfirst) hsecond
  exact ⟨by simpa using hplaced.reports,by simpa using hplaced.entries⟩

end Bibtex

/-! ## The analyses of the files -/

variable {parsers : Parsers} {limits : ParserLimits} {source : ProjectSource} {parsed : Parsed}

structure ParsedFrom (parsers : Parsers) (limits : ParserLimits) (source : ProjectSource) (parsed : Parsed) :
    Prop where
  file : ∀ path analysis, parsed.1[path]? = some analysis →
    (path = source.mainFile ∨ isLatex path = true) ∧ ∃ bytes session, source.files[path]? = some bytes ∧
      ParserSession.new parsers.latex parsers.latexReady path bytes limits = .ok session ∧
      session.analysis = analysis
  bibliography : ∀ path analysis, parsed.2[path]? = some analysis →
    ¬(path = source.mainFile ∨ isLatex path = true) ∧ ∃ bytes, source.files[path]? = some bytes ∧
      Bibtex.session parsers.bibtex parsers.bibtexReady bytes = .ok analysis

theorem getElem?_insert_cases {α : Type} {m : PathMap α} {path other : LogicalPath} {a b : α}
    (h : (m.insert path a)[other]? = some b) : (path = other ∧ a = b) ∨ m[other]? = some b := by
  rw [ExtTreeMap.getElem?_insert] at h
  split at h
  · next heq => exact .inl ⟨LawfulEqCmp.eq_of_compare heq,Option.some.inj h⟩
  · exact .inr h

theorem ParsedFrom.parseFile {next : Parsed} {file : LogicalPath × Bytes}
    (h : ParsedFrom parsers limits source parsed) (hfile : source.files[file.1]? = some file.2)
    (hok : parseFile parsers limits source.mainFile parsed file = .ok next) :
    ParsedFrom parsers limits source next := by
  unfold Parser.parseFile at hok
  split at hok
  · next hlatex =>
    simp only [bind_ok,pure_ok] at hok
    obtain ⟨session,hsession,rfl⟩ := hok
    refine ⟨fun path analysis hget => ?_,h.bibliography⟩
    rcases getElem?_insert_cases hget with ⟨rfl,rfl⟩ | hget
    · exact ⟨hlatex,file.2,session,hfile,hsession,rfl⟩
    · exact h.file path analysis hget
  · next hlatex =>
    split at hok
    · simp only [bind_ok,pure_ok] at hok
      obtain ⟨analysis,hanalysis,rfl⟩ := hok
      refine ⟨h.file,fun path other hget => ?_⟩
      rcases getElem?_insert_cases hget with ⟨rfl,rfl⟩ | hget
      · exact ⟨hlatex,file.2,hfile,hanalysis⟩
      · exact h.bibliography path other hget
    · obtain rfl := Except.ok.inj hok
      exact h

theorem analyze_ok {analysis : ProjectAnalysis} (h : analyze parsers limits source = .ok analysis) :
    ∃ parsed, ParsedFrom parsers limits source parsed ∧ analysis = assemble source parsed := by
  simp only [analyze,bind_ok,pure_ok] at h
  obtain ⟨parsed,hparsed,rfl⟩ := h
  refine ⟨parsed,?_,rfl⟩
  have hloop : ∀ (files : List (LogicalPath × Bytes)) (start : Parsed),
      (∀ file ∈ files, source.files[file.1]? = some file.2) → ParsedFrom parsers limits source start →
      files.foldlM (parseFile parsers limits source.mainFile) start = .ok parsed →
        ParsedFrom parsers limits source parsed := by
    intro files
    induction files with
    | nil =>
      intro start _ hstart hfold
      obtain rfl := Except.ok.inj hfold
      exact hstart
    | cons file rest ih =>
      intro start hfiles hstart hfold
      obtain ⟨hfile,hrest⟩ := List.forall_mem_cons.mp hfiles
      rw [List.foldlM_cons,bind_ok] at hfold
      obtain ⟨next,hnext,hfold⟩ := hfold
      exact ih next hrest (hstart.parseFile hfile hnext) hfold
  exact hloop _ _ (fun file hfile => ExtTreeMap.mem_toList_iff_getElem?_eq_some.mp hfile)
    ⟨by simp,by simp⟩ hparsed

theorem ParsedFrom.disjoint (h : ParsedFrom parsers limits source parsed) {path : LogicalPath}
    {file : FileAnalysis} {bibliography : BibtexAnalysis} (hfile : parsed.1[path]? = some file)
    (hbib : parsed.2[path]? = some bibliography) : False :=
  (h.bibliography path bibliography hbib).1 (h.file path file hfile).1

/-- The nodes of the trees of a parser satisfy a condition on their source and range. -/
def TreeSitter.Ranges (ts : TreeSitter) (p : Bytes → NodeRange → Prop) : Prop :=
  ∀ source tree, ts.parse source none = some tree → ∀ range ∈ (ts.rootNode tree).ranges, p source range

theorem ParsedFrom.placed (h : ParsedFrom parsers limits source parsed) {path : LogicalPath}
    {analysis : FileAnalysis} (hget : parsed.1[path]? = some analysis) :
    ∃ bytes tree, parsers.latex.parse bytes none = some tree ∧ source.files[path]? = some bytes ∧
      analysis.Placed (parsers.latex.rootNode tree).ranges := by
  obtain ⟨-,bytes,session,hbytes,hsession,rfl⟩ := h.file path analysis hget
  obtain ⟨hfresh,-,hsource,-⟩ := ParserSession.new_fresh hsession
  exact ⟨bytes,session.tree,hsource ▸ hfresh.tree,hbytes,analyzeFile_placed hfresh.analysis⟩

theorem ParsedFrom.bibPlaced (h : ParsedFrom parsers limits source parsed) {path : LogicalPath}
    {analysis : BibtexAnalysis} (hget : parsed.2[path]? = some analysis) :
    ∃ bytes tree, parsers.bibtex.parse bytes none = some tree ∧ source.files[path]? = some bytes ∧
      Bibtex.Placed (parsers.bibtex.rootNode tree).ranges analysis := by
  obtain ⟨-,bytes,hbytes,hsession⟩ := h.bibliography path analysis hget
  simp only [Bibtex.session,bind_ok,require_ok] at hsession
  obtain ⟨_,-,tree,htree,hanalysis⟩ := hsession
  exact ⟨bytes,tree,htree,hbytes,Bibtex.analyze_placed hanalysis⟩

/-! ## The reports of the project -/

def fileCodes : List DiagnosticCode :=
  [.extractionLimitReached,.syntaxError,.missingSyntax,.invalidUtf8SemanticText,.dynamicDependency,
    .missingProjectDependency]

def labelCodes : List DiagnosticCode := [.duplicateLabel,.unresolvedReference]

def bibliographyCodes : List DiagnosticCode :=
  [.bibtexSyntaxError,.invalidUtf8SemanticText,.duplicateBibtexKey,.unresolvedCitation]

variable {d : ProjectDiagnostic} {edges : List ProjectDependencyEdge}

/-- Sorting and leaving out repetitions in a row keep every report. -/
theorem mem_diagnostics : d ∈ (assemble source parsed).diagnostics ↔ d ∈ produced source parsed := by
  rw [assemble,mem_destutter_ne,List.mem_mergeSort]

theorem missingDiagnostic_eq {edge : ProjectDependencyEdge} (h : missingDiagnostic edge = some d) :
    d = ⟨edge.from_,.warning,.missingProjectDependency,"project dependency not found: " ++ edge.raw,
      some edge.range⟩ := by
  unfold missingDiagnostic at h
  split at h
  · exact (Option.some.inj h).symm
  · cases h

theorem fileDiagnostics_code (h : ParsedFrom parsers limits source parsed)
    (hmem : d ∈ parsed.1.toList.flatMap (fileDiagnostics source.files)) : d.diagnostic.code ∈ fileCodes := by
  obtain ⟨⟨path,analysis⟩,hfile,hmem⟩ := List.mem_flatMap.mp hmem
  obtain ⟨bytes,tree,-,-,hplaced⟩ := h.placed (ExtTreeMap.mem_toList_iff_getElem?_eq_some.mp hfile)
  rcases List.mem_append.mp hmem with hmem | hmem
  · obtain ⟨own,hown,rfl⟩ := List.mem_map.mp hmem
    rcases hplaced.reports own hown with hlimit | ⟨hreport,-⟩
    · exact hlimit ▸ List.mem_cons_self
    · have hall : ∀ report ∈ ownReports, report.2.1 ∈ fileCodes := by decide
      exact hall _ hreport
  · obtain ⟨edge,-,hmissing⟩ := List.mem_filterMap.mp hmem
    have hcode : DiagnosticCode.missingProjectDependency ∈ fileCodes := by decide
    exact missingDiagnostic_eq hmissing ▸ hcode

theorem cycleDiagnostics_code {fuel : ℕ} (hmem : d ∈ (cycleDiagnostics fuel edges).getD []) :
    d.diagnostic.code = .dependencyCycle := by
  unfold cycleDiagnostics at hmem
  cases hsearch : DepthFirst.search (targets (adjacency edges)) fuel (adjacency edges).keys with
  | none =>
    rw [hsearch] at hmem
    cases hmem
  | some found =>
    rw [hsearch] at hmem
    obtain ⟨node,-,rfl⟩ := List.mem_map.mp hmem
    rfl

theorem duplicates_code {code : DiagnosticCode} {text : String} {locations : Locations}
    (hmem : d ∈ duplicates code text locations) : d.diagnostic.code = code := by
  obtain ⟨entry,-,hmem⟩ := List.mem_flatMap.mp hmem
  split at hmem
  · obtain ⟨location,-,rfl⟩ := List.mem_map.mp hmem
    rfl
  · cases hmem

theorem labelDiagnostics_code {files : PathMap FileAnalysis} (hmem : d ∈ labelDiagnostics files) :
    d.diagnostic.code ∈ labelCodes := by
  rcases List.mem_append.mp hmem with hmem | hmem
  · exact duplicates_code hmem ▸ List.mem_cons_self
  · obtain ⟨file,-,hmem⟩ := List.mem_flatMap.mp hmem
    obtain ⟨reference,-,rfl⟩ := List.mem_map.mp hmem
    exact List.mem_cons_of_mem _ List.mem_cons_self

theorem citationDiagnostics_code {defined : Locations} {file : LogicalPath} {analysis : FileAnalysis}
    (hmem : d ∈ citationDiagnostics defined file analysis) : d.diagnostic.code = .unresolvedCitation := by
  obtain ⟨citation,-,hmem⟩ := List.mem_flatMap.mp hmem
  obtain ⟨key,-,rfl⟩ := List.mem_map.mp hmem
  rfl

def citationReports (reachable : PathSet) (parsed : Parsed) (edges : List ProjectDependencyEdge) :
    List ProjectDiagnostic :=
  if hasDynamicBibliography reachable edges then []
  else reachable.toList.flatMap (fun path => (parsed.1[path]?).elim []
    (citationDiagnostics (definitions (readBibs parsed.2 (reachableBibs reachable edges))) path))

def bibliographyReports (reachable : PathSet) (parsed : Parsed) (edges : List ProjectDependencyEdge) :
    List ProjectDiagnostic :=
  (readBibs parsed.2 (reachableBibs reachable edges)).flatMap
    (fun file => file.2.diagnostics.map (ProjectDiagnostic.mk file.1))

def keyReports (reachable : PathSet) (parsed : Parsed) (edges : List ProjectDependencyEdge) :
    List ProjectDiagnostic :=
  duplicates .duplicateBibtexKey "duplicate BibTeX key: "
    (definitions (readBibs parsed.2 (reachableBibs reachable edges)))

theorem bibliographyDiagnostics_eq (reachable : PathSet) (parsed : Parsed)
    (edges : List ProjectDependencyEdge) :
    bibliographyDiagnostics reachable parsed.1 parsed.2 edges =
      bibliographyReports reachable parsed edges ++ keyReports reachable parsed edges ++
        citationReports reachable parsed edges := rfl

theorem mem_readBibs {bibliographies : PathMap BibtexAnalysis} {bibs : PathSet}
    {file : LogicalPath × BibtexAnalysis} :
    file ∈ readBibs bibliographies bibs ↔ file.1 ∈ bibs ∧ bibliographies[file.1]? = some file.2 := by
  obtain ⟨path,analysis⟩ := file
  simp only [readBibs,List.mem_filterMap,ExtTreeSet.mem_toList,Option.map_eq_some_iff,Prod.mk.injEq]
  constructor
  · rintro ⟨other,hmem,found,hfound,rfl,rfl⟩
    exact ⟨hmem,hfound⟩
  · rintro ⟨hmem,hfound⟩
    exact ⟨path,hmem,analysis,hfound,rfl,rfl⟩

theorem bibliographyReports_code (h : ParsedFrom parsers limits source parsed) {reachable : PathSet}
    (hmem : d ∈ bibliographyReports reachable parsed edges) :
    d.diagnostic.code ∈ [.bibtexSyntaxError,.invalidUtf8SemanticText] := by
  obtain ⟨⟨path,analysis⟩,hfile,hmem⟩ := List.mem_flatMap.mp hmem
  obtain ⟨bytes,tree,-,-,hplaced⟩ := h.bibPlaced (mem_readBibs.mp hfile).2
  obtain ⟨own,hown,rfl⟩ := List.mem_map.mp hmem
  have hall : ∀ report ∈ Bibtex.bibReports,
      report.2.1 ∈ [DiagnosticCode.bibtexSyntaxError,.invalidUtf8SemanticText] := by decide
  exact hall _ (hplaced.reports own hown).1

theorem citationReports_code {reachable : PathSet} (hmem : d ∈ citationReports reachable parsed edges) :
    d.diagnostic.code = .unresolvedCitation := by
  unfold citationReports at hmem
  split at hmem
  · cases hmem
  · obtain ⟨path,-,hmem⟩ := List.mem_flatMap.mp hmem
    cases hget : parsed.1[path]? with
    | none =>
      rw [hget] at hmem
      cases hmem
    | some analysis =>
      rw [hget] at hmem
      exact citationDiagnostics_code hmem

end LatexCore.Parser
