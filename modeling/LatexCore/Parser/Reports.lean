import LatexCore.Parser.Citations

/-! # Reports and their keys

The reports of a project are sorted by file, bytes and code. Tree-sitter's points follow
from the bytes, so the key of a report determines its range, and its texts too if the
file reports on itself.
-/
namespace LatexCore.Parser
open Core Foundation Workspace Std

/-! ## The order of the reports -/

variable {a b c d : ProjectDiagnostic}

/-- The reports have the same file, bytes and code. -/
structure SameKey (a b : ProjectDiagnostic) : Prop where
  file : a.file = b.file
  key : a.diagnostic.sortKey = b.diagnostic.sortKey

theorem diagnostic_atMost_total (a b : ParserDiagnostic) : a.atMost b || b.atMost a := by
  simp only [ParserDiagnostic.atMost,Bool.or_eq_true,Bool.and_eq_true,decide_eq_true_eq,beq_iff_eq]
  omega

theorem diagnostic_atMost_trans {a b c : ParserDiagnostic} (hab : a.atMost b) (hbc : b.atMost c) :
    a.atMost c := by
  simp only [ParserDiagnostic.atMost,Bool.or_eq_true,Bool.and_eq_true,decide_eq_true_eq,beq_iff_eq] at *
  omega

theorem diagnostic_atMost_antisymm {a b : ParserDiagnostic} (hab : a.atMost b) (hba : b.atMost a) :
    a.sortKey = b.sortKey := by
  simp only [ParserDiagnostic.atMost,Bool.or_eq_true,Bool.and_eq_true,decide_eq_true_eq,beq_iff_eq] at hab hba
  refine Prod.ext ?_ (Prod.ext ?_ ?_) <;> omega

theorem atMost_iff : a.atMost b = true ↔
    compare a.file b.file = .lt ∨ a.file = b.file ∧ a.diagnostic.atMost b.diagnostic = true := by
  unfold ProjectDiagnostic.atMost
  cases h : compare a.file b.file with
  | lt => simp
  | eq => simp [Std.compare_eq_iff_eq.mp h]
  | gt =>
    have hne : a.file ≠ b.file := fun heq => by simp [heq] at h
    simp [hne]

theorem atMost_total (a b : ProjectDiagnostic) : a.atMost b || b.atMost a := by
  rw [Bool.or_eq_true,atMost_iff,atMost_iff]
  cases h : compare a.file b.file with
  | lt => exact .inl (.inl rfl)
  | eq =>
    have heq := Std.compare_eq_iff_eq.mp h
    rcases Bool.or_eq_true_iff.mp (diagnostic_atMost_total a.diagnostic b.diagnostic) with hab | hba
    · exact .inl (.inr ⟨heq,hab⟩)
    · exact .inr (.inr ⟨heq.symm,hba⟩)
  | gt => exact .inr (.inl (Std.OrientedCmp.lt_of_gt h))

theorem atMost_trans (a b c : ProjectDiagnostic) (hab : a.atMost b) (hbc : b.atMost c) : a.atMost c := by
  rw [atMost_iff] at *
  rcases hab with hab | ⟨hab,hfirst⟩
  · rcases hbc with hbc | ⟨hbc,-⟩
    · exact .inl (Std.TransCmp.lt_trans hab hbc)
    · exact .inl (hbc ▸ hab)
  · rcases hbc with hbc | ⟨hbc,hsecond⟩
    · exact .inl (hab ▸ hbc)
    · exact .inr ⟨hab.trans hbc,diagnostic_atMost_trans hfirst hsecond⟩

theorem sameKey_iff : SameKey a b ↔ a.atMost b = true ∧ b.atMost a = true := by
  rw [atMost_iff,atMost_iff]
  constructor
  · rintro ⟨hfile,hkey⟩
    refine ⟨.inr ⟨hfile,?_⟩,.inr ⟨hfile.symm,?_⟩⟩ <;>
      simp [ParserDiagnostic.atMost,hkey]
  · rintro ⟨hab | ⟨hfile,hab⟩,hba | ⟨hfile',hba⟩⟩
    · exact absurd (Std.TransCmp.lt_trans hab hba) (by simp)
    · simp [hfile'] at hab
    · simp [hfile] at hba
    · exact ⟨hfile,diagnostic_atMost_antisymm hab hba⟩

/-! ## The ranges of the reports -/

def Pointed (source : Bytes) (range : NodeRange) : Prop :=
  range.startPoint = pointAt source range.startByte ∧ range.endPoint = pointAt source range.endByte

theorem fromTreeSitter_ok {range : NodeRange} {value : SourceRange}
    (h : SourceRange.fromTreeSitter range = .ok value) :
    value = ⟨range.startByte,range.endByte,⟨range.startPoint.row,range.startPoint.column⟩,
      ⟨range.endPoint.row,range.endPoint.column⟩⟩ := by
  simp only [SourceRange.fromTreeSitter,SourcePoint.fromTreeSitter,bind_ok,ensure_ok,pure_ok] at h
  obtain ⟨-,-,-,-,-,-,start,⟨-,-,-,-,rfl⟩,finish,⟨-,-,-,-,rfl⟩,rfl⟩ := h
  rfl

theorem RangeOf.eq {ranges : List NodeRange} {source : Bytes} (hpoints : ∀ range ∈ ranges, Pointed source range)
    {x y : SourceRange} (hx : RangeOf ranges x) (hy : RangeOf ranges y) (hstart : x.startByte = y.startByte)
    (hend : x.endByte = y.endByte) : x = y := by
  obtain ⟨first,hfirst,hx⟩ := hx
  obtain ⟨second,hsecond,hy⟩ := hy
  obtain ⟨hstartx,hendx⟩ := hpoints first hfirst
  obtain ⟨hstarty,hendy⟩ := hpoints second hsecond
  rw [fromTreeSitter_ok hx,fromTreeSitter_ok hy] at hstart hend ⊢
  dsimp only at hstart hend
  rw [hstartx,hendx,hstarty,hendy,hstart,hend]

def treeRanges (parsers : Parsers) (source : ProjectSource) (path : LogicalPath) : List NodeRange :=
  let ts := if path = source.mainFile ∨ isLatex path = true then parsers.latex else parsers.bibtex
  (source.files[path]?.bind (ts.parse · none)).elim [] (fun tree => (ts.rootNode tree).ranges)

variable {parsers : Parsers} {limits : ParserLimits} {source : ProjectSource} {parsed : Parsed}
  {file : LogicalPath}

theorem treeRanges_pointed (hlatex : parsers.latex.Ranges Pointed) (hbibtex : parsers.bibtex.Ranges Pointed)
    (source : ProjectSource) (path : LogicalPath) :
    ∃ bytes, ∀ range ∈ treeRanges parsers source path, Pointed bytes range := by
  unfold treeRanges
  have hts : (if path = source.mainFile ∨ isLatex path = true then parsers.latex else parsers.bibtex).Ranges
      Pointed := by split <;> assumption
  generalize (if path = source.mainFile ∨ isLatex path = true then parsers.latex else parsers.bibtex) = ts at hts
  cases hbytes : source.files[path]? with
  | none => exact ⟨[],by simp⟩
  | some bytes =>
    cases htree : ts.parse bytes none with
    | none => exact ⟨[],by simp [htree]⟩
    | some tree => exact ⟨bytes,by simpa [htree] using hts bytes tree htree⟩

theorem ParsedFrom.treePlaced (h : ParsedFrom parsers limits source parsed) {analysis : FileAnalysis}
    (hget : parsed.1[file]? = some analysis) : analysis.Placed (treeRanges parsers source file) := by
  obtain ⟨bytes,tree,htree,hbytes,hplaced⟩ := h.placed hget
  have hranges : treeRanges parsers source file = (parsers.latex.rootNode tree).ranges := by
    unfold treeRanges
    rw [if_pos (h.file file analysis hget).1]
    simp [hbytes,htree]
  exact hranges ▸ hplaced

theorem ParsedFrom.treeBibPlaced (h : ParsedFrom parsers limits source parsed) {analysis : BibtexAnalysis}
    (hget : parsed.2[file]? = some analysis) : Bibtex.Placed (treeRanges parsers source file) analysis := by
  obtain ⟨bytes,tree,htree,hbytes,hplaced⟩ := h.bibPlaced hget
  have hranges : treeRanges parsers source file = (parsers.bibtex.rootNode tree).ranges := by
    unfold treeRanges
    rw [if_neg (h.bibliography file analysis hget).1]
    simp [hbytes,htree]
  exact hranges ▸ hplaced

/-- The report is one that a file makes on itself. -/
def Own (parsed : Parsed) (d : ProjectDiagnostic) : Prop :=
  (∃ analysis, parsed.1[d.file]? = some analysis ∧ d.diagnostic ∈ analysis.diagnostics) ∨
    ∃ analysis, parsed.2[d.file]? = some analysis ∧ d.diagnostic ∈ analysis.diagnostics

def InTree (parsers : Parsers) (source : ProjectSource) (d : ProjectDiagnostic) : Prop :=
  ∃ range, d.diagnostic.range = some range ∧ RangeOf (treeRanges parsers source d.file) range

/-- The codes of the reports of a file on itself. -/
def ownCodes : List DiagnosticCode :=
  [.extractionLimitReached,.syntaxError,.missingSyntax,.invalidUtf8SemanticText,.dynamicDependency,
    .bibtexSyntaxError]

def textCodes : List DiagnosticCode :=
  [.missingProjectDependency,.duplicateLabel,.unresolvedReference,.duplicateBibtexKey,.unresolvedCitation]

theorem produced_inTree (h : ParsedFrom parsers limits source parsed) (hd : d ∈ produced source parsed) :
    (Own parsed d ∧ d.diagnostic.code ∈ ownCodes) ∨ d = cycleDiagnostic d.file ∨
      InTree parsers source d ∧ d.diagnostic.code ∈ textCodes := by
  obtain ⟨reachable,hreach,hmem⟩ := mem_produced source parsed
  rcases hmem.mp hd with hd | hd | hd | hd | hd | hd
  · obtain ⟨⟨path,analysis⟩,hfile,hd⟩ := List.mem_flatMap.mp hd
    have hget := ExtTreeMap.mem_toList_iff_getElem?_eq_some.mp hfile
    rcases List.mem_append.mp hd with hd | hd
    · obtain ⟨own,hown,rfl⟩ := List.mem_map.mp hd
      refine .inl ⟨.inl ⟨analysis,hget,hown⟩,?_⟩
      rcases (h.treePlaced hget).reports own hown with hlimit | ⟨hreport,-⟩
      · exact hlimit ▸ List.mem_cons_self
      · have hall : ∀ report ∈ ownReports, report.2.1 ∈ ownCodes := by decide
        exact hall _ hreport
    · obtain ⟨edge,hedge,hmissing⟩ := List.mem_filterMap.mp hd
      obtain ⟨request,hrequest,rfl⟩ := List.mem_map.mp hedge
      rw [missingDiagnostic_eq hmissing]
      have hitem : SemanticItem.dependency request ∈ analysis.linked :=
        List.mem_append_right _ (List.mem_map_of_mem hrequest)
      exact .inr (.inr ⟨⟨request.range,rfl,(h.treePlaced hget).linked _ hitem⟩,List.mem_cons_self⟩)
  · obtain ⟨found,hfound⟩ := cycleDiagnostics_returns (projectEdges source.files parsed.1)
      (Nat.lt_add_of_pos_right (Nat.succ_pos 1))
    rw [hfound] at hd
    obtain ⟨reported,rfl,-⟩ := cycleDiagnostics_exact hfound
    obtain ⟨file,-,rfl⟩ := List.mem_map.mp hd
    exact .inr (.inl rfl)
  · right; right
    rcases List.mem_append.mp hd with hd | hd
    · obtain ⟨⟨key,location⟩,hentry,-,rfl⟩ := mem_duplicates.mp hd
      obtain ⟨⟨path,analysis⟩,hfile,hlabel⟩ := List.mem_flatMap.mp hentry
      obtain ⟨label,hmem,heq⟩ := List.mem_map.mp hlabel
      obtain ⟨-,rfl⟩ := Prod.mk.inj heq
      have hitem : SemanticItem.label label ∈ analysis.linked := by
        simp [FileAnalysis.linked,hmem]
      exact ⟨⟨label.range,rfl,
        (h.treePlaced (ExtTreeMap.mem_toList_iff_getElem?_eq_some.mp hfile)).linked _ hitem⟩,by simp [textCodes]⟩
    · obtain ⟨⟨path,analysis⟩,hfile,hd⟩ := List.mem_flatMap.mp hd
      obtain ⟨reference,hmem,rfl⟩ := List.mem_map.mp hd
      have hitem : SemanticItem.reference reference ∈ analysis.linked := by
        simp [FileAnalysis.linked,(List.mem_filter.mp hmem).1]
      exact ⟨⟨reference.range,rfl,
        (h.treePlaced (ExtTreeMap.mem_toList_iff_getElem?_eq_some.mp hfile)).linked _ hitem⟩,
        by simp [textCodes,unresolvedReference]⟩
  · obtain ⟨file,hfile,hreport⟩ := List.mem_flatMap.mp hd
    obtain ⟨own,hown,rfl⟩ := List.mem_map.mp hreport
    have hsub : [DiagnosticCode.bibtexSyntaxError,.invalidUtf8SemanticText] ⊆ ownCodes := by decide
    exact .inl ⟨.inr ⟨file.2,(mem_readBibs.mp hfile).2,hown⟩,hsub (bibliographyReports_code h hd)⟩
  · obtain ⟨⟨key,location⟩,hentry,-,rfl⟩ := mem_duplicates.mp hd
    obtain ⟨file,hfile,entry,hmem,-,rfl⟩ := mem_keyedEntries.mp hentry
    exact .inr (.inr ⟨⟨entry.range,rfl,(h.treeBibPlaced (mem_readBibs.mp hfile).2).entries entry hmem⟩,
      by simp [textCodes]⟩)
  · obtain ⟨file,range,key,-,⟨found,hget,citation,hcitation,rfl,-⟩,-,-,rfl⟩ :=
      (mem_citationReports hreach).mp hd
    have hitem : SemanticItem.citation citation ∈ found.linked := by
      simp [FileAnalysis.linked,hcitation]
    exact .inr (.inr ⟨⟨citation.range,rfl,(h.treePlaced hget).linked _ hitem⟩,
      by simp [textCodes,unresolvedCitation]⟩)

/-! ## The ranges of an analysis -/

structure RangedBy (p : SourceRange → Prop) (analysis : FileAnalysis) : Prop where
  sections : ∀ s ∈ analysis.sections, p s.range
  labels : ∀ label ∈ analysis.labels, p label.range
  reports : ∀ d ∈ analysis.diagnostics, ∃ range, d.range = some range ∧ p range

section Ranged
variable {p : SourceRange → Prop} {x : Extractor} {range : SourceRange}

theorem RangedBy.report {analysis : FileAnalysis} (h : RangedBy p analysis) (hrange : p range)
    (severity : DiagnosticSeverity) (code : DiagnosticCode) (message : String) :
    RangedBy p (analysis.report severity code message range) := by
  refine ⟨h.sections,h.labels,?_⟩
  intro d hd
  rcases List.mem_append.mp hd with hd | hd
  · exact h.reports d hd
  · rw [List.mem_singleton.mp hd]
    exact ⟨range,rfl,hrange⟩

theorem RangedBy.push {analysis : FileAnalysis} {item : SemanticItem} (h : RangedBy p analysis)
    (hitem : p item.range) : RangedBy p (analysis.push item) := by
  cases item with
  | section_ value =>
    refine ⟨?_,h.labels,h.reports⟩
    intro s hs
    rcases List.mem_append.mp hs with hs | hs
    · exact h.sections s hs
    · exact List.mem_singleton.mp hs ▸ hitem
  | label value =>
    refine ⟨h.sections,?_,h.reports⟩
    intro label hlabel
    rcases List.mem_append.mp hlabel with hlabel | hlabel
    · exact h.labels label hlabel
    · exact List.mem_singleton.mp hlabel ▸ hitem
  | _ => exact ⟨h.sections,h.labels,h.reports⟩

theorem RangedBy.refuse (h : RangedBy p x.analysis) (hrange : p range) (message : String) :
    RangedBy p (x.refuse message range).analysis := by
  unfold Extractor.refuse
  split
  · exact h
  · exact h.report hrange _ _ _

theorem RangedBy.take {finding : Finding} (h : RangedBy p x.analysis) (hrange : p range)
    (hown : finding.own range = true) : RangedBy p (x.take range finding).analysis := by
  cases finding with
  | report severity code message => exact h.report hrange _ _ _
  | item value =>
    have hvalue : value.range = range := of_decide_eq_true hown
    simp only [Extractor.take,Extractor.add,Extractor.allow]
    by_cases hroom : x.items < x.limits.maxSemanticItemsPerFile
    · rw [if_pos hroom]
      exact h.push (hvalue ▸ hrange)
    · rw [if_neg hroom]
      exact h.refuse hrange _

theorem RangedBy.takeAll {findings : List Finding} (h : RangedBy p x.analysis) (hrange : p range)
    (hown : findings.all (Finding.own range) = true) : RangedBy p (x.takeAll range findings).analysis := by
  induction findings generalizing x with
  | nil => exact h
  | cons finding findings ih =>
    rw [List.all_cons,Bool.and_eq_true] at hown
    exact ih (h.take hrange hown.1) hown.2

theorem RangedBy.takeContents {contents : NodeContents} (h : RangedBy p x.analysis) (hrange : p range)
    (howned : contents.Owned range) : RangedBy p (x.takeContents contents range).analysis := by
  have houtright := h.takeAll hrange howned.outright
  rw [Extractor.takeContents]
  cases contents.read with
  | none => exact houtright
  | some node =>
    rw [Extractor.withText_some]
    have htext : RangedBy p ((x.takeAll range contents.outright).text node range).2.analysis := by
      unfold Extractor.text
      dsimp only
      split
      · split
        · exact houtright
        · exact houtright.refuse hrange _
      · exact houtright.report hrange _ _ _
    cases ((x.takeAll range contents.outright).text node range).1 with
    | none => exact htext
    | some value => exact htext.takeAll hrange (howned.inText value)

theorem RangedBy.visit {node : SyntaxNode} {next : Extractor} (h : RangedBy p x.analysis)
    (hnode : ∀ range, SourceRange.fromTreeSitter node.range = .ok range → p range)
    (hok : visit node x = .ok next) : RangedBy p next.analysis := by
  rw [visit_eq] at hok
  cases hrange : SourceRange.fromTreeSitter node.range with
  | error e =>
    rw [hrange] at hok
    cases hok
  | ok range =>
    rw [hrange] at hok
    obtain rfl := Except.ok.inj hok
    exact (h.takeAll (hnode range hrange) (nodeFindings_own _ _ _)).takeContents (hnode range hrange)
      (kindContents_owned _ _ _ _)

mutual
theorem RangedBy.walk (node : SyntaxNode) {x next : Extractor} (h : RangedBy p x.analysis)
    (hranges : ∀ range, RangeOf node.ranges range → p range) (hok : walk node x = .ok next) :
    RangedBy p next.analysis := by
  obtain ⟨kind,fields,named,error,missing,nodeRange,children⟩ := node
  rw [Parser.walk,bind_ok] at hok
  obtain ⟨visited,hvisit,hok⟩ := hok
  refine RangedBy.walkAll children (h.visit ?_ hvisit) ?_ hok
  · intro range hrange
    exact hranges range ⟨nodeRange,by rw [SyntaxNode.ranges]; exact List.mem_cons_self,hrange⟩
  · rintro range ⟨found,hfound,hrange⟩
    exact hranges range ⟨found,by rw [SyntaxNode.ranges]; exact List.mem_cons_of_mem _ hfound,hrange⟩

theorem RangedBy.walkAll (nodes : List SyntaxNode) {x next : Extractor} (h : RangedBy p x.analysis)
    (hranges : ∀ range, RangeOf (SyntaxNode.rangesAll nodes) range → p range)
    (hok : walkAll nodes x = .ok next) : RangedBy p next.analysis := by
  cases nodes with
  | nil =>
    obtain rfl := Except.ok.inj hok
    exact h
  | cons node nodes =>
    rw [Parser.walkAll,bind_ok] at hok
    obtain ⟨walked,hwalk,hok⟩ := hok
    refine RangedBy.walkAll nodes (RangedBy.walk node h ?_ hwalk) ?_ hok
    · rintro range ⟨found,hfound,hrange⟩
      exact hranges range ⟨found,by rw [SyntaxNode.rangesAll]; exact List.mem_append_left _ hfound,hrange⟩
    · rintro range ⟨found,hfound,hrange⟩
      exact hranges range ⟨found,by rw [SyntaxNode.rangesAll]; exact List.mem_append_right _ hfound,hrange⟩
end

theorem analyzeFile_ranged {path : LogicalPath} {bytes : Bytes} {root : SyntaxNode} {analysis : FileAnalysis}
    (h : analyzeFile path bytes root limits = .ok analysis) : RangedBy (RangeOf root.ranges) analysis := by
  unfold analyzeFile at h
  rw [bind_ok] at h
  obtain ⟨x,hwalk,h⟩ := h
  obtain rfl := Except.ok.inj h
  have hempty : RangedBy (RangeOf root.ranges) (Extractor.new path bytes limits).analysis :=
    ⟨by simp [Extractor.new,FileAnalysis.empty],by simp [Extractor.new,FileAnalysis.empty],
      by simp [Extractor.new,FileAnalysis.empty]⟩
  obtain ⟨hsections,hlabels,hreports⟩ := RangedBy.walk root hempty (fun _ hrange => hrange) hwalk
  refine ⟨hsections,hlabels,?_⟩
  intro d hd
  rw [FileAnalysis.sorted,List.mem_mergeSort] at hd
  exact hreports d hd

end Ranged

theorem ParsedFrom.treeRanged (h : ParsedFrom parsers limits source parsed) {analysis : FileAnalysis}
    (hget : parsed.1[file]? = some analysis) : RangedBy (RangeOf (treeRanges parsers source file)) analysis := by
  obtain ⟨hlatex,bytes,session,hbytes,hsession,rfl⟩ := h.file file analysis hget
  obtain ⟨hfresh,-,hsource,-⟩ := ParserSession.new_fresh hsession
  have htree := hsource ▸ hfresh.tree
  have hranges : treeRanges parsers source file = (parsers.latex.rootNode session.tree).ranges := by
    unfold treeRanges
    rw [if_pos hlatex]
    simp [hbytes,htree]
  exact hranges ▸ analyzeFile_ranged hfresh.analysis

theorem produced_range (h : ParsedFrom parsers limits source parsed) (hd : d ∈ produced source parsed)
    {range : SourceRange} (hrange : d.diagnostic.range = some range) :
    RangeOf (treeRanges parsers source d.file) range := by
  rcases produced_inTree h hd with ⟨⟨analysis,hget,hown⟩ | ⟨analysis,hget,hown⟩,-⟩ | hcycle | ⟨⟨found,hfound,hof⟩,-⟩
  · obtain ⟨found,hfound,hof⟩ := (h.treeRanged hget).reports _ hown
    rw [hrange] at hfound
    exact Option.some.inj hfound ▸ hof
  · obtain ⟨-,found,hfound,hof⟩ := (h.treeBibPlaced hget).reports _ hown
    rw [hrange] at hfound
    exact Option.some.inj hfound ▸ hof
  · rw [hcycle] at hrange
    cases hrange
  · rw [hrange] at hfound
    exact Option.some.inj hfound ▸ hof

/-! ## Reports that their key determines -/

theorem index_injective {a b : DiagnosticCode} (h : a.index = b.index) : a = b := by
  cases a <;> cases b <;> first | rfl | cases h

theorem SameKey.code (h : SameKey a b) : a.diagnostic.code = b.diagnostic.code :=
  index_injective (Prod.mk.inj (Prod.mk.inj h.key).2).2

theorem SameKey.range (hlatex : parsers.latex.Ranges Pointed) (hbibtex : parsers.bibtex.Ranges Pointed)
    (h : SameKey a b) (ha : InTree parsers source a) (hb : InTree parsers source b) :
    a.diagnostic.range = b.diagnostic.range := by
  obtain ⟨bytes,hpoints⟩ := treeRanges_pointed hlatex hbibtex source a.file
  obtain ⟨x,hx,hxin⟩ := ha
  obtain ⟨y,hy,hyin⟩ := hb
  obtain ⟨hstart,hrest⟩ := Prod.mk.inj h.key
  obtain ⟨hend,-⟩ := Prod.mk.inj hrest
  rw [hx,hy] at hstart hend
  rw [hx,hy,hxin.eq hpoints (h.file ▸ hyin) hstart hend]

theorem eq_of_fields (hfile : a.file = b.file) (hseverity : a.diagnostic.severity = b.diagnostic.severity)
    (hcode : a.diagnostic.code = b.diagnostic.code) (hmessage : a.diagnostic.message = b.diagnostic.message)
    (hrange : a.diagnostic.range = b.diagnostic.range) : a = b := by
  obtain ⟨_,_,_,_,_⟩ := a
  obtain ⟨_,_,_,_,_⟩ := b
  dsimp only at *
  subst hfile hseverity hcode hmessage hrange
  rfl

theorem eq_of_reports {reports : List (DiagnosticSeverity × DiagnosticCode × String)}
    (hreports : ∀ x ∈ reports, ∀ y ∈ reports, x.2.1 = y.2.1 → x = y) (hkey : SameKey a b)
    (ha : (a.diagnostic.severity,a.diagnostic.code,a.diagnostic.message) ∈ reports)
    (hb : (b.diagnostic.severity,b.diagnostic.code,b.diagnostic.message) ∈ reports)
    (hrange : a.diagnostic.range = b.diagnostic.range) : a = b := by
  obtain ⟨hseverity,hrest⟩ := Prod.mk.inj (hreports _ ha _ hb hkey.code)
  exact eq_of_fields hkey.file hseverity hkey.code (Prod.mk.inj hrest).2 hrange

section Ranges
variable (hlatex : parsers.latex.Ranges Pointed) (hbibtex : parsers.bibtex.Ranges Pointed)
  (h : ParsedFrom parsers limits source parsed)
include hlatex hbibtex h

/-- Two reports on themselves of one file with one key are the same. -/
theorem own_eq (hkey : SameKey a b) (ha : Own parsed a) (hb : Own parsed b) : a = b := by
  rcases ha with ⟨first,hfirst,ha⟩ | ⟨first,hfirst,ha⟩
  · rcases hb with ⟨second,hsecond,hb⟩ | ⟨second,hsecond,hb⟩
    · obtain rfl : first = second := Option.some.inj (hfirst.symm.trans (hkey.file ▸ hsecond))
      have hplaced := h.treePlaced hfirst
      rcases hplaced.reports _ ha with hlimit | ⟨hareport,harange⟩
      · have hamem : a.diagnostic ∈ first.limitReports := List.mem_filter.mpr ⟨ha,by simpa using hlimit⟩
        have hbmem : b.diagnostic ∈ first.limitReports :=
          List.mem_filter.mpr ⟨hb,by simpa using hkey.code ▸ hlimit⟩
        have hsame : a.diagnostic = b.diagnostic := by
          obtain ⟨only,hone⟩ := List.length_eq_one_iff.mp
            (Nat.le_antisymm hplaced.limitReports (List.length_pos_of_mem hamem))
          rw [hone,List.mem_singleton] at hamem hbmem
          exact hamem.trans hbmem.symm
        exact eq_of_fields hkey.file (by rw [hsame]) hkey.code (by rw [hsame]) (by rw [hsame])
      · have hnot : ∀ report ∈ ownReports, report.2.1 ≠ .extractionLimitReached := by decide
        obtain ⟨hbreport,hbrange⟩ := (hplaced.reports _ hb).resolve_left (hkey.code ▸ hnot _ hareport)
        have hbin : InTree parsers source b := by
          rw [InTree,← hkey.file]
          exact hbrange
        exact eq_of_reports (by decide) hkey hareport hbreport (hkey.range hlatex hbibtex harange hbin)
    · exact (h.disjoint hfirst (hkey.file ▸ hsecond)).elim
  · rcases hb with ⟨second,hsecond,hb⟩ | ⟨second,hsecond,hb⟩
    · exact (h.disjoint hsecond (hkey.file ▸ hfirst)).elim
    · obtain rfl : first = second := Option.some.inj (hfirst.symm.trans (hkey.file ▸ hsecond))
      obtain ⟨hareport,harange⟩ := (h.treeBibPlaced hfirst).reports _ ha
      obtain ⟨hbreport,hbrange⟩ := (h.treeBibPlaced hfirst).reports _ hb
      have hbin : InTree parsers source b := by
        rw [InTree,← hkey.file]
        exact hbrange
      exact eq_of_reports (by decide) hkey hareport hbreport (hkey.range hlatex hbibtex harange hbin)

end Ranges

end LatexCore.Parser
