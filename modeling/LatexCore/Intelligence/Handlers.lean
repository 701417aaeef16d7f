import LatexCore.Papers.Tables
import LatexCore.Parser.Project

/-! # Intelligence and search of a paper

Both handlers read every file of the restored workspace and the list of the files that
are visible to Writers. The intelligence of a paper is the analysis of the project put
into a response; a search goes through the lines of the files and stops at its limit.
Case folding is a parameter.
-/
namespace LatexCore.Intelligence
open Core Foundation Workspace Std
open LatexCore.Parser hiding Bytes
open Papers (PaperFile PaperFiles)
open Collaboration (V2FilePolicy)

/-! ## The sources -/

/-- The restored workspace with the bytes of its files, and the identities and policies of its files. -/
structure Paper where
  workspaceId : WorkspaceId
  version : WorkspaceVersion
  mainFile : Option LogicalPath
  contents : PathMap Bytes
  files : PaperFiles
  policies : Table Uuid V2FilePolicy

/-- The columns of `paper_files` that the handlers use. -/
structure VisibleFile where
  fileId : Uuid
  path : LogicalPath
deriving DecidableEq

def isVisible (paper : Paper) (row : Uuid × PaperFile) : Bool :=
  row.2.workspaceId == paper.workspaceId && !row.2.tombstoned &&
    (paper.policies.get? row.1).getD .editable != .hiddenSystem

def visiblePaperFiles (paper : Paper) : List VisibleFile :=
  ((paper.files.table.rows.filter (isVisible paper)).map (fun row => ⟨row.1,row.2.path⟩)).mergeSort
    (fun a b => (compare a.path b.path).isLE)

def canonicalPaperSources (paper : Paper) : List VisibleFile × PathMap Bytes :=
  (visiblePaperFiles paper,paper.contents)

def fileIds (files : List VisibleFile) : PathMap Uuid :=
  files.foldl (fun ids file => ids.insert file.path file.fileId) ∅

structure ErrorResponse where
  status : ℕ
  message : String
deriving DecidableEq

/-! ## Intelligence -/

structure RangeJson where
  startByte : ℕ
  endByte : ℕ
  startLine : ℕ
  startColumn : ℕ
  endLine : ℕ
  endColumn : ℕ
deriving DecidableEq

def sourceRangeJson (range : SourceRange) : RangeJson :=
  ⟨range.startByte,range.endByte,range.start.row + 1,range.start.columnBytes,range.finish.row + 1,
    range.finish.columnBytes⟩

def sectionLevelName : SectionLevel → String
  | .part => "part"
  | .chapter => "chapter"
  | .section_ => "section"
  | .subsection => "subsection"
  | .subsubsection => "subsubsection"
  | .paragraph => "paragraph"
  | .subparagraph => "subparagraph"

def diagnosticSeverityName : DiagnosticSeverity → String
  | .error => "error"
  | .warning => "warning"
  | .information => "information"

def diagnosticCodeName : DiagnosticCode → String
  | .syntaxError => "SyntaxError"
  | .missingSyntax => "MissingSyntax"
  | .invalidUtf8SemanticText => "InvalidUtf8SemanticText"
  | .extractionLimitReached => "ExtractionLimitReached"
  | .dynamicDependency => "DynamicDependency"
  | .missingProjectDependency => "MissingProjectDependency"
  | .dependencyCycle => "DependencyCycle"
  | .duplicateLabel => "DuplicateLabel"
  | .unresolvedReference => "UnresolvedReference"
  | .bibtexSyntaxError => "BibtexSyntaxError"
  | .duplicateBibtexKey => "DuplicateBibtexKey"
  | .unresolvedCitation => "UnresolvedCitation"

/-- The file that an entry names; `fileId` is null where the file is not visible. -/
structure Place where
  fileId : Option Uuid
  path : LogicalPath
deriving DecidableEq

structure OutlineEntry where
  level : String
  title : String
  place : Place
  range : RangeJson
deriving DecidableEq

structure LabelEntry where
  key : String
  place : Place
  range : RangeJson
deriving DecidableEq

structure ReferenceEntry where
  key : String
  resolved : Bool
  place : Place
  range : RangeJson
deriving DecidableEq

structure CitationEntry where
  key : String
  resolved : Bool
  command : String
  place : Place
  range : RangeJson
deriving DecidableEq

structure BibliographyEntry where
  key : String
  entryType : String
  title : Option String
  author : Option String
  place : Place
  range : RangeJson
deriving DecidableEq

structure DiagnosticEntry where
  severity : String
  code : String
  message : String
  place : Place
  range : Option RangeJson
deriving DecidableEq

structure IntelligenceResponse where
  workspaceVersion : WorkspaceVersion
  outline : List OutlineEntry
  labels : List LabelEntry
  references : List ReferenceEntry
  citations : List CitationEntry
  bibliography : List BibliographyEntry
  environments : ExtTreeSet String compare
  packages : ExtTreeSet String compare
  diagnostics : List DiagnosticEntry

def visibleAnalyses (ids : PathMap Uuid) (files : PathMap FileAnalysis) : List (Place × FileAnalysis) :=
  files.toList.filterMap (fun file => (ids[file.1]?).map (fun id => (⟨some id,file.1⟩,file.2)))

def outlineOf (file : Place × FileAnalysis) : List OutlineEntry :=
  file.2.sections.map (fun s => ⟨sectionLevelName s.level,s.title,file.1,sourceRangeJson s.range⟩)

def labelsOf (file : Place × FileAnalysis) : List LabelEntry :=
  file.2.labels.map (fun label => ⟨label.key,file.1,sourceRangeJson label.range⟩)

def referencesOf (known : ExtTreeSet String compare) (file : Place × FileAnalysis) : List ReferenceEntry :=
  file.2.references.map (fun reference =>
    ⟨reference.key,known.contains reference.key,file.1,sourceRangeJson reference.range⟩)

def citationsOf (known : ExtTreeSet String compare) (file : Place × FileAnalysis) : List CitationEntry :=
  file.2.citations.flatMap (fun citation => citation.keys.map (fun key =>
    ⟨key,known.contains key,citation.command,file.1,sourceRangeJson citation.range⟩))

def setOf (names : List String) : ExtTreeSet String compare := names.foldl ExtTreeSet.insert ∅

def lowered (name : String) : List Char := name.toList.map Char.toLower

def fieldValue (wanted : String) (entry : BibtexEntry) : Option String :=
  (entry.fields.find? (fun field => lowered field.name == lowered wanted)).map BibtexField.rawValue

def bibliographyOf (ids : PathMap Uuid) (file : LogicalPath × BibtexAnalysis) : List BibliographyEntry :=
  file.2.entries.map (fun entry => ⟨entry.key,entry.entryType,fieldValue "title" entry,
    fieldValue "author" entry,⟨ids[file.1]?,file.1⟩,sourceRangeJson entry.range⟩)

def diagnosticOf (ids : PathMap Uuid) (d : ProjectDiagnostic) : DiagnosticEntry :=
  ⟨diagnosticSeverityName d.diagnostic.severity,diagnosticCodeName d.diagnostic.code,d.diagnostic.message,
    ⟨ids[d.file]?,d.file⟩,d.diagnostic.range.map sourceRangeJson⟩

def intelligenceOf (version : WorkspaceVersion) (ids : PathMap Uuid) (analysis : ProjectAnalysis) :
    IntelligenceResponse :=
  let knownLabels := setOf (analysis.files.toList.flatMap (fun file => file.2.labels.map (·.key)))
  let bibliographyKeys :=
    setOf (analysis.bibliographies.toList.flatMap (fun file => file.2.entries.map (·.key)))
  let visible := visibleAnalyses ids analysis.files
  { workspaceVersion := version
    outline := visible.flatMap outlineOf
    labels := visible.flatMap labelsOf
    references := visible.flatMap (referencesOf knownLabels)
    citations := visible.flatMap (citationsOf bibliographyKeys)
    bibliography := analysis.bibliographies.toList.flatMap (bibliographyOf ids)
    environments := setOf (visible.flatMap (fun file => file.2.environments.map (·.name)))
    packages := setOf (visible.flatMap (fun file => file.2.packages.map (·.name)))
    diagnostics := analysis.diagnostics.map (diagnosticOf ids) }

def paperAnalysis (parsers : Parsers) (paper : Paper) : Except ErrorResponse ProjectAnalysis := do
  let mainFile ← require paper.mainFile ⟨409,"paper has no main file"⟩
  let project ← (ProjectSource.new mainFile (canonicalPaperSources paper).2).mapError
    (fun _ => ⟨500,"invalid paper source"⟩)
  (analyze parsers .default project).mapError (fun _ => ⟨500,"paper analysis failed"⟩)

def v2PaperIntelligence (parsers : Parsers) (paper : Paper) : Except ErrorResponse IntelligenceResponse := do
  let analysis ← paperAnalysis parsers paper
  pure (intelligenceOf paper.version (fileIds (canonicalPaperSources paper).1) analysis)

/-! ## Search -/

structure SearchQuery where
  q : String
  caseSensitive : Bool

structure SearchResult where
  place : Place
  line : ℕ
  column : ℕ
  preview : String
  text : String
deriving DecidableEq

structure SearchResponse where
  workspaceVersion : WorkspaceVersion
  results : List SearchResult
  truncated : Bool

def searchLimit : ℕ := 200

/-- `str::match_indices`, with the characters of the last match that are left to pass. -/
def matchIndices (needle : List Char) : ℕ → ℕ → List Char → List ℕ
  | _,_,[] => []
  | passed + 1,offset,c :: text => matchIndices needle passed (offset + c.utf8Size) text
  | 0,offset,c :: text =>
    if needle.isPrefixOf (c :: text) then
      offset :: matchIndices needle (needle.length - 1) (offset + c.utf8Size) text
    else matchIndices needle 0 (offset + c.utf8Size) text

def push (results : List SearchResult) (result : SearchResult) :
    Except (List SearchResult) (List SearchResult) :=
  let results := results ++ [result]
  if searchLimit ≤ results.length then .error results else .ok results

variable (lower : String → String)

def folded (query : SearchQuery) (text : String) : String :=
  if query.caseSensitive then text else lower text

def needleOf (query : SearchQuery) : String := trim query.q

def lineResult (query : SearchQuery) (place : Place) (line : List Char × ℕ) (column : ℕ) : SearchResult :=
  ⟨place,line.2 + 1,column,trim (String.ofList line.1),needleOf query⟩

def lineColumns (query : SearchQuery) (line : List Char) : List ℕ :=
  matchIndices (folded lower query (needleOf query)).toList 0 0 (folded lower query (String.ofList line)).toList

def searchLine (query : SearchQuery) (place : Place) (results : List SearchResult) (line : List Char × ℕ) :
    Except (List SearchResult) (List SearchResult) :=
  (lineColumns lower query line.1).foldlM
    (fun results column => push results (lineResult query place line column)) results

def searchFile (query : SearchQuery) (ids : PathMap Uuid) (results : List SearchResult)
    (file : LogicalPath × Bytes) : Except (List SearchResult) (List SearchResult) :=
  match decodeUtf8 file.2 with
  | none => .ok results
  | some text => (lines text).zipIdx.foldlM (searchLine lower query ⟨ids[file.1]?,file.1⟩) results

/-- The results when the loops end, by themselves or at the limit. -/
def ended : Except (List SearchResult) (List SearchResult) → List SearchResult
  | .ok results => results
  | .error results => results

def v2ProjectSearch (paper : Paper) (query : SearchQuery) : Except ErrorResponse SearchResponse := do
  let needle := needleOf query
  ensure (needle ≠ "" ∧ needle.utf8ByteSize ≤ 200) ⟨400,"search query must contain 1-200 characters"⟩
  let (files,sources) := canonicalPaperSources paper
  let results := ended (sources.toList.foldlM (searchFile lower query (fileIds files)) [])
  pure ⟨paper.version,results,results.length == 200⟩

end LatexCore.Intelligence
