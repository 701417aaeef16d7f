import Mathlib.Data.List.Destutter
import Std.Data.ExtTreeMap
import Std.Data.ExtTreeSet
import LatexCore.Foundation.Digraph
import LatexCore.Parser.Session
import LatexCore.Workspace.Archive

/-! # Project analysis

A project is parsed file by file: the main file and the LaTeX files by one grammar, the
bibliographies by another. The requests of the files are resolved against the paths of
the project, and four passes report missing dependencies, cycles, labels and citations.
-/
namespace LatexCore.Parser
open Core Foundation Workspace Std

abbrev PathMap (α : Type) := ExtTreeMap LogicalPath α compare
abbrev PathSet := ExtTreeSet LogicalPath compare

/-! ## Bibliographies -/

structure BibtexField where
  name : String
  rawValue : String
  range : SourceRange
deriving DecidableEq

structure BibtexEntry where
  entryType : String
  key : String
  fields : List BibtexField
  range : SourceRange
deriving DecidableEq

structure BibtexStringDefinition where
  name : String
  rawValue : String
  range : SourceRange
deriving DecidableEq

structure BibtexAnalysis where
  entries : List BibtexEntry
  stringDefinitions : List BibtexStringDefinition
  diagnostics : List ParserDiagnostic
deriving DecidableEq

namespace Bibtex

def report (code : DiagnosticCode) (message : String) (node : SyntaxNode) (analysis : BibtexAnalysis) :
    Except ParserError BibtexAnalysis := do
  let range ← SourceRange.fromTreeSitter node.range
  pure { analysis with diagnostics := analysis.diagnostics ++ [⟨.error,code,message,some range⟩] }

mutual
def collectSyntax : SyntaxNode → BibtexAnalysis → Except ParserError BibtexAnalysis
  | .node kind fields named error missing range children, analysis => do
    let analysis ←
      if error || missing then
        report .bibtexSyntaxError "malformed BibTeX syntax"
          (.node kind fields named error missing range children) analysis
      else pure analysis
    collectSyntaxAll children analysis

def collectSyntaxAll : List SyntaxNode → BibtexAnalysis → Except ParserError BibtexAnalysis
  | [], analysis => pure analysis
  | child :: rest, analysis => do
    let analysis ← collectSyntax child analysis
    collectSyntaxAll rest analysis
end

def text (source : Bytes) (node : SyntaxNode) (analysis : BibtexAnalysis) :
    Except ParserError (Option String × BibtexAnalysis) :=
  match fromUtf8 (node.bytes source) with
  | some value => do
    let _ ← SourceRange.fromTreeSitter node.range
    pure (some value,analysis)
  | none => do
    let analysis ← report .invalidUtf8SemanticText "BibTeX semantic text is not valid UTF-8" node analysis
    pure (none,analysis)

def texts (source : Bytes) (node : SyntaxNode) (first second : String) (analysis : BibtexAnalysis) :
    Except ParserError (Option (String × String) × BibtexAnalysis) :=
  match node.childByFieldName first, node.childByFieldName second with
  | some a, some b => do
    let (x,analysis) ← text source a analysis
    match x with
    | none => pure (none,analysis)
    | some x => do
      let (y,analysis) ← text source b analysis
      pure (y.map (fun y => (x,y)),analysis)
  | _, _ => pure (none,analysis)

def readFields (source : Bytes) : List SyntaxNode → List BibtexField → BibtexAnalysis →
    Except ParserError (List BibtexField × BibtexAnalysis)
  | [], fields, analysis => pure (fields,analysis)
  | child :: rest, fields, analysis => do
    let (found,analysis) ← texts source child "name" "value" analysis
    match found with
    | none => readFields source rest fields analysis
    | some (name,rawValue) => do
      let range ← SourceRange.fromTreeSitter child.range
      readFields source rest (fields ++ [⟨name,rawValue,range⟩]) analysis

def extractEntry (source : Bytes) (node : SyntaxNode) (analysis : BibtexAnalysis) :
    Except ParserError BibtexAnalysis := do
  let (found,analysis) ← texts source node "ty" "key" analysis
  match found with
  | none => pure analysis
  | some (type,key) =>
    if key = "" then pure analysis
    else do
      let (fields,analysis) ←
        readFields source (node.children.filter (·.fields.contains "field")) [] analysis
      let range ← SourceRange.fromTreeSitter node.range
      pure { analysis with
        entries := analysis.entries ++ [⟨trimStart (· == '@') type,key,fields,range⟩] }

def extractString (source : Bytes) (node : SyntaxNode) (analysis : BibtexAnalysis) :
    Except ParserError BibtexAnalysis := do
  let (found,analysis) ← texts source node "name" "value" analysis
  match found with
  | none => pure analysis
  | some (name,rawValue) => do
    let range ← SourceRange.fromTreeSitter node.range
    pure { analysis with
      stringDefinitions := analysis.stringDefinitions ++ [⟨name,rawValue,range⟩] }

def extract (source : Bytes) (analysis : BibtexAnalysis) (node : SyntaxNode) :
    Except ParserError BibtexAnalysis :=
  if node.kind = "entry" then extractEntry source node analysis
  else if node.kind = "string" then extractString source node analysis
  else pure analysis

def startAtMost {α : Type} (range : α → SourceRange) (a b : α) : Bool :=
  (range a).startByte ≤ (range b).startByte

def diagnosticAtMost (a b : ParserDiagnostic) : Bool :=
  let x := a.sortKey
  let y := b.sortKey
  x.1 < y.1 || (x.1 == y.1 && x.2.2 ≤ y.2.2)

def analyze (source : Bytes) (root : SyntaxNode) : Except ParserError BibtexAnalysis := do
  let analysis ← collectSyntax root ⟨[],[],[]⟩
  let analysis ← (root.children.filter SyntaxNode.isNamed).foldlM (extract source) analysis
  pure {
    entries := analysis.entries.mergeSort (startAtMost BibtexEntry.range)
    stringDefinitions :=
      analysis.stringDefinitions.mergeSort (startAtMost BibtexStringDefinition.range)
    diagnostics := analysis.diagnostics.mergeSort diagnosticAtMost }

/-- `BibtexSession::new`, as far as its analysis. -/
def session (ts : TreeSitter) (initialized : Except ParserError Unit) (source : Bytes) :
    Except ParserError BibtexAnalysis := do
  initialized
  let tree ← require (ts.parse source none) .parseFailed
  analyze source (ts.rootNode tree)

end Bibtex

/-! ## Sources and requests -/

structure ProjectSource where
  mainFile : LogicalPath
  files : PathMap Bytes
  present : mainFile ∈ files

def ProjectSource.new (mainFile : LogicalPath) (files : PathMap Bytes) :
    Except ParserError ProjectSource :=
  if files.isEmpty then .error (.invalidProject "project file map is empty")
  else if h : mainFile ∈ files then .ok ⟨mainFile,files,h⟩
  else .error (.invalidProject "main file is absent")

inductive DependencyResolution
  | projectFile (path : LogicalPath)
  | externalTex
  | missing (candidates : List LogicalPath)
  | dynamic
deriving DecidableEq

structure ProjectDependencyEdge where
  from_ : LogicalPath
  kind : DependencyKind
  raw : String
  resolution : DependencyResolution
  range : SourceRange
deriving DecidableEq

inductive TexRequestKind
  | documentClass | package
deriving DecidableEq

structure TexRequestResolution where
  from_ : LogicalPath
  kind : TexRequestKind
  name : String
  resolution : DependencyResolution
  range : SourceRange
deriving DecidableEq

structure DependencyGraph where
  edges : List ProjectDependencyEdge
  texRequests : List TexRequestResolution

structure ProjectDiagnostic where
  file : LogicalPath
  diagnostic : ParserDiagnostic
deriving DecidableEq

structure ProjectAnalysis where
  mainFile : LogicalPath
  files : PathMap FileAnalysis
  bibliographies : PathMap BibtexAnalysis
  dependencyGraph : DependencyGraph
  diagnostics : List ProjectDiagnostic

def loweredExtension (path : LogicalPath) : Option String :=
  (extension path).map (fun text => String.ofList (text.toList.map Char.toLower))

def isLatex (path : LogicalPath) : Bool :=
  (loweredExtension path).any (fun suffix => ["tex","ltx","sty","cls"].contains suffix)

def isBibtex (path : LogicalPath) : Bool := loweredExtension path == some "bib"

def parent (path : LogicalPath) : List Char := ((rsplitOnce '/' path.text.toList).map (·.1)).getD []

def pushPart (parts : List (List Char)) (part : List Char) : Option (List (List Char)) :=
  if part = [] ∨ part = ['.'] then some parts
  else if part = ['.','.'] then (if parts = [] then none else some parts.dropLast)
  else some (parts ++ [part])

def normalized (base raw : List Char) : Option LogicalPath :=
  if raw.head? = some '/' ∨ '\\' ∈ raw then none
  else do
    let parts ← (raw.splitOn '/').foldlM pushPart ((base.splitOn '/').filter (· ≠ []))
    (LogicalPath.parse (String.ofList (['/'].intercalate parts))).toOption

def hasExtension (raw : List Char) : Bool :=
  (rsplitOnce '.' ((raw.splitOn '/').getLast?.getD [])).any (fun found => found.2 ≠ [])

def suffixes (kind : DependencyKind) (raw : List Char) : List String :=
  if hasExtension raw then [""]
  else match kind with
    | .input | .include_ | .subfile => ["",".tex"]
    | .graphics => ["",".pdf",".png",".jpg",".jpeg",".eps",".svg"]
    | .bibliography => ["",".bib"]

def candidates (source : LogicalPath) (kind : DependencyKind) (raw : String) : List LogicalPath :=
  (suffixes kind raw.toList).filterMap (fun suffix => normalized (parent source) (raw ++ suffix).toList)

def resolveDependency (source : LogicalPath) (kind : DependencyKind) (raw : String) (files : PathMap Bytes) :
    DependencyResolution :=
  match (candidates source kind raw).find? (files.contains ·) with
  | some path => .projectFile path
  | none => .missing (candidates source kind raw)

def resolveTexRequest (source : LogicalPath) (kind : TexRequestKind) (suffix : String) (files : PathMap Bytes)
    (request : NameRange) : TexRequestResolution where
  from_ := source
  kind := kind
  name := request.name
  resolution :=
    match (normalized (parent source) (request.name ++ "." ++ suffix).toList).filter (files.contains ·) with
    | some path => .projectFile path
    | none => .externalTex
  range := request.range

def DependencyTarget.raw : DependencyTarget → String
  | .static raw => raw
  | .dynamic raw => raw

def edgeOf (files : PathMap Bytes) (source : LogicalPath) (request : DependencyRequest) :
    ProjectDependencyEdge where
  from_ := source
  kind := request.kind
  raw := request.target.raw
  resolution :=
    match request.target with
    | .dynamic _ => .dynamic
    | .static raw => resolveDependency source request.kind raw files
  range := request.range

/-! ## The graph of the sources -/

/-- The place of a kind in the derived order. -/
def DependencyKind.index : DependencyKind → ℕ
  | .input => 0
  | .include_ => 1
  | .subfile => 2
  | .graphics => 3
  | .bibliography => 4

def TexRequestKind.index : TexRequestKind → ℕ
  | .documentClass => 0
  | .package => 1

def edgeAtMost (a b : ProjectDependencyEdge) : Bool :=
  ((compare a.from_ b.from_).then ((compare a.range.startByte b.range.startByte).then
    ((compare a.kind.index b.kind.index).then (compare a.raw b.raw)))).isLE

def requestAtMost (a b : TexRequestResolution) : Bool :=
  ((compare a.from_ b.from_).then ((compare a.range.startByte b.range.startByte).then
    ((compare a.kind.index b.kind.index).then (compare a.name b.name)))).isLE

def sourceKinds : List DependencyKind := [.input,.include_,.subfile]

/-- The file of the project that an input, an include or a subfile names. -/
def ProjectDependencyEdge.source? (edge : ProjectDependencyEdge) : Option LogicalPath :=
  match edge.resolution with
  | .projectFile path => if edge.kind ∈ sourceKinds then some path else none
  | _ => none

def addAdjacency (adjacency : PathMap PathSet) (edge : ProjectDependencyEdge) : PathMap PathSet :=
  match edge.source? with
  | some target => adjacency.insert edge.from_ ((adjacency[edge.from_]?.getD ∅).insert target)
  | none => adjacency

def adjacency (edges : List ProjectDependencyEdge) : PathMap PathSet := edges.foldl addAdjacency ∅

def targets (adjacency : PathMap PathSet) (node : LogicalPath) : List LogicalPath :=
  (adjacency[node]?).elim [] ExtTreeSet.toList

def cycleDiagnostic (node : LogicalPath) : ProjectDiagnostic :=
  ⟨node,.warning,.dependencyCycle,"source dependency cycle detected",none⟩

/-- `add_cycle_diagnostics` with `detect_cycle`, which only asks its sets for their members. -/
def cycleDiagnostics (fuel : ℕ) (edges : List ProjectDependencyEdge) : Option (List ProjectDiagnostic) :=
  (DepthFirst.search (targets (adjacency edges)) fuel (adjacency edges).keys).map
    (fun found => found.reported.map cycleDiagnostic)

/-! ## Labels and bibliographies -/

abbrev Location := LogicalPath × SourceRange
abbrev Locations := ExtTreeMap String (List Location) compare

def addLocation (locations : Locations) (found : String × Location) : Locations :=
  locations.insert found.1 ((locations[found.1]?.getD []) ++ [found.2])

def locate (found : List (String × Location)) : Locations := found.foldl addLocation ∅

/-- The reports of the keys that have more than one location. -/
def duplicates (code : DiagnosticCode) (text : String) (locations : Locations) : List ProjectDiagnostic :=
  locations.toList.flatMap (fun entry =>
    if 1 < entry.2.length then
      entry.2.map (fun location => ⟨location.1,.warning,code,text ++ entry.1,some location.2⟩)
    else [])

def labelLocations (files : PathMap FileAnalysis) : Locations :=
  locate (files.toList.flatMap (fun file => file.2.labels.map (fun label => (label.key,file.1,label.range))))

def unresolvedReference (file : LogicalPath) (reference : ReferenceUse) : ProjectDiagnostic :=
  ⟨file,.warning,.unresolvedReference,"unresolved reference: " ++ reference.key,some reference.range⟩

def labelDiagnostics (files : PathMap FileAnalysis) : List ProjectDiagnostic :=
  let labels := labelLocations files
  duplicates .duplicateLabel "duplicate label: " labels ++
    files.toList.flatMap (fun file =>
      (file.2.references.filter (fun reference => !labels.contains reference.key)).map
        (unresolvedReference file.1))

def addSource (reachable : PathSet) (edge : ProjectDependencyEdge) : PathSet :=
  if edge.from_ ∈ reachable then edge.source?.elim reachable reachable.insert else reachable

def reachableSources (fuel : ℕ) (mainFile : LogicalPath) (edges : List ProjectDependencyEdge) :
    Option PathSet :=
  untilStable ExtTreeSet.size (fun reachable => edges.foldl addSource reachable) fuel
    ((∅ : PathSet).insert mainFile)

def requestsBibliography (reachable : PathSet) (edge : ProjectDependencyEdge) : Bool :=
  edge.kind = .bibliography && reachable.contains edge.from_

def addBibliography (reachable found : PathSet) (edge : ProjectDependencyEdge) : PathSet :=
  if requestsBibliography reachable edge then
    match edge.resolution with
    | .projectFile path => found.insert path
    | _ => found
  else found

def reachableBibs (reachable : PathSet) (edges : List ProjectDependencyEdge) : PathSet :=
  edges.foldl (addBibliography reachable) ∅

def hasDynamicBibliography (reachable : PathSet) (edges : List ProjectDependencyEdge) : Bool :=
  edges.any (fun edge => requestsBibliography reachable edge && edge.resolution = .dynamic)

def readBibs (bibliographies : PathMap BibtexAnalysis) (bibs : PathSet) : List (LogicalPath × BibtexAnalysis) :=
  bibs.toList.filterMap (fun path => (bibliographies[path]?).map (fun analysis => (path,analysis)))

def definitions (read : List (LogicalPath × BibtexAnalysis)) : Locations :=
  locate (read.flatMap (fun file => file.2.entries.map (fun entry => (entry.key,file.1,entry.range))))

def unresolvedCitation (file : LogicalPath) (range : SourceRange) (key : String) : ProjectDiagnostic :=
  ⟨file,.warning,.unresolvedCitation,"unresolved citation: " ++ key,some range⟩

/-- The key is one that a bibliography must define, and none does. -/
def undefinedKey (definitions : Locations) (key : String) : Bool :=
  key ≠ "" && key ≠ "*" && !definitions.contains key

def citationDiagnostics (definitions : Locations) (file : LogicalPath) (analysis : FileAnalysis) :
    List ProjectDiagnostic :=
  analysis.citations.flatMap (fun citation =>
    (citation.keys.filter (undefinedKey definitions)).map (unresolvedCitation file citation.range))

def bibliographyDiagnostics (reachable : PathSet) (files : PathMap FileAnalysis)
    (bibliographies : PathMap BibtexAnalysis) (edges : List ProjectDependencyEdge) :
    List ProjectDiagnostic :=
  let read := readBibs bibliographies (reachableBibs reachable edges)
  let defined := definitions read
  read.flatMap (fun file => file.2.diagnostics.map (ProjectDiagnostic.mk file.1)) ++
    duplicates .duplicateBibtexKey "duplicate BibTeX key: " defined ++
    if hasDynamicBibliography reachable edges then []
    else reachable.toList.flatMap (fun path => (files[path]?).elim [] (citationDiagnostics defined path))

/-! ## The analysis -/

/-- The grammars, and whether their parsers are there. -/
structure Parsers where
  latex : TreeSitter
  latexReady : Except ParserError Unit
  bibtex : TreeSitter
  bibtexReady : Except ParserError Unit

abbrev Parsed := PathMap FileAnalysis × PathMap BibtexAnalysis

def parseFile (parsers : Parsers) (limits : ParserLimits) (mainFile : LogicalPath) (parsed : Parsed)
    (file : LogicalPath × Bytes) : Except ParserError Parsed :=
  if file.1 = mainFile ∨ isLatex file.1 then do
    let session ← ParserSession.new parsers.latex parsers.latexReady file.1 file.2 limits
    pure (parsed.1.insert file.1 session.analysis,parsed.2)
  else if isBibtex file.1 then do
    let analysis ← Bibtex.session parsers.bibtex parsers.bibtexReady file.2
    pure (parsed.1,parsed.2.insert file.1 analysis)
  else pure parsed

def missingDiagnostic (edge : ProjectDependencyEdge) : Option ProjectDiagnostic :=
  match edge.resolution with
  | .missing _ => some ⟨edge.from_,.warning,.missingProjectDependency,
      "project dependency not found: " ++ edge.raw,some edge.range⟩
  | _ => none

/-- The reports of one file: its own, then those of its requests. -/
def fileDiagnostics (sources : PathMap Bytes) (file : LogicalPath × FileAnalysis) : List ProjectDiagnostic :=
  file.2.diagnostics.map (ProjectDiagnostic.mk file.1) ++
    (file.2.dependencies.map (edgeOf sources file.1)).filterMap missingDiagnostic

def projectEdges (sources : PathMap Bytes) (files : PathMap FileAnalysis) : List ProjectDependencyEdge :=
  (files.toList.flatMap (fun file => file.2.dependencies.map (edgeOf sources file.1))).mergeSort edgeAtMost

def texRequests (sources : PathMap Bytes) (files : PathMap FileAnalysis) : List TexRequestResolution :=
  (files.toList.flatMap (fun file =>
    file.2.documentClasses.map (resolveTexRequest file.1 .documentClass "cls" sources) ++
      file.2.packages.map (resolveTexRequest file.1 .package "sty" sources))).mergeSort requestAtMost

/-- The order of the reports: by file, range and code. -/
def ProjectDiagnostic.atMost (a b : ProjectDiagnostic) : Bool :=
  match compare a.file b.file with
  | .lt => true
  | .eq => a.diagnostic.atMost b.diagnostic
  | .gt => false

/-- What the passes report, in their order. The fuel is one more than the files that the edges name. -/
def produced (source : ProjectSource) (parsed : Parsed) : List ProjectDiagnostic :=
  let edges := projectEdges source.files parsed.1
  let fuel := 2 * edges.length + 2
  parsed.1.toList.flatMap (fileDiagnostics source.files) ++
    (cycleDiagnostics fuel edges).getD [] ++
    labelDiagnostics parsed.1 ++
    (reachableSources fuel source.mainFile edges).elim []
      (fun reachable => bibliographyDiagnostics reachable parsed.1 parsed.2 edges)

def assemble (source : ProjectSource) (parsed : Parsed) : ProjectAnalysis where
  mainFile := source.mainFile
  files := parsed.1
  bibliographies := parsed.2
  dependencyGraph := ⟨projectEdges source.files parsed.1,texRequests source.files parsed.1⟩
  diagnostics := ((produced source parsed).mergeSort ProjectDiagnostic.atMost).destutter (· ≠ ·)

def analyze (parsers : Parsers) (limits : ParserLimits) (source : ProjectSource) :
    Except ParserError ProjectAnalysis := do
  let parsed ← source.files.toList.foldlM (parseFile parsers limits source.mainFile) (∅,∅)
  pure (assemble source parsed)

end LatexCore.Parser
