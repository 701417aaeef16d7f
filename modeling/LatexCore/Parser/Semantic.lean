import Mathlib.Algebra.Order.Ring.Nat
import Mathlib.Data.List.Basic
import LatexCore.Core.Types
import LatexCore.Foundation.Transaction
import LatexCore.Workspace.Path

/-! # Points, edits and the analysis of one file

An edit replaces the bytes between two offsets. The parser is told of it in six
coordinates, which two scans compute: one over the old source and one that goes
on from the start over the replacement. A point counts the lines before an
offset and the bytes since the last line break.

What the static analysis of a file finds comes in the order in which it finds it,
with the range of each item, and with the diagnostics it reports.
-/
namespace LatexCore.Parser
open Core Foundation

/-! ## Points, ranges and byte edits -/

inductive ParserError
  | grammarInitialization (message : String)
  | queryInitialization (message : String)
  | parseFailed
  | invalidEdit (startByte oldEndByte sourceLen : ℕ)
  | offsetOverflow
  | generationOverflow
  | invalidProject (message : String)
  | internalInvariant (message : String)
deriving DecidableEq

abbrev Bytes := List UInt8

/-- `b'\n'`. -/
def newline : UInt8 := 10

def usizeMax : ℕ := u64Max

def u32Max : ℕ := 2 ^ 32 - 1

/-- Tree-sitter's `Point`, with a column in bytes. -/
structure Point where
  row : ℕ
  column : ℕ
deriving DecidableEq

/-- Tree-sitter's `Range`. -/
structure NodeRange where
  startByte : ℕ
  endByte : ℕ
  startPoint : Point
  endPoint : Point
deriving DecidableEq

structure SourcePoint where
  row : ℕ
  columnBytes : ℕ
deriving DecidableEq

def SourcePoint.fromTreeSitter (value : Point) : Except ParserError SourcePoint := do
  ensure (value.row ≤ u32Max) .offsetOverflow
  ensure (value.column ≤ u32Max) .offsetOverflow
  pure ⟨value.row,value.column⟩

/-- A half-open range of source bytes. -/
structure SourceRange where
  startByte : ℕ
  endByte : ℕ
  start : SourcePoint
  finish : SourcePoint
deriving DecidableEq

def SourceRange.fromTreeSitter (value : NodeRange) : Except ParserError SourceRange := do
  ensure (value.startByte ≤ value.endByte) (.internalInvariant "reversed Tree-sitter range")
  ensure (value.startByte ≤ u64Max) .offsetOverflow
  ensure (value.endByte ≤ u64Max) .offsetOverflow
  let start ← SourcePoint.fromTreeSitter value.startPoint
  let finish ← SourcePoint.fromTreeSitter value.endPoint
  pure ⟨value.startByte,value.endByte,start,finish⟩

/-! ## Points -/

def Point.advance (point : Point) (byte : UInt8) : Point :=
  if byte = newline then ⟨point.row + 1,0⟩ else ⟨point.row,point.column + 1⟩

def advancePoint (point : Point) (replacement : Bytes) : Point := replacement.foldl Point.advance point

def pointAt (source : Bytes) (offset : ℕ) : Point := (source.take offset).foldl Point.advance ⟨0,0⟩

/-- The lines before the end of a text, and the bytes since its last line break. -/
def pointAfter (text : Bytes) : Point :=
  ⟨text.count newline,(text.reverse.takeWhile (· ≠ newline)).length⟩

theorem advance_pointAfter (text : Bytes) (byte : UInt8) :
    (pointAfter text).advance byte = pointAfter (text ++ [byte]) := by
  by_cases hbyte : byte = newline
  · subst hbyte
    simp [Point.advance,pointAfter]
  · simp [Point.advance,pointAfter,hbyte,List.count_append]

theorem advancePoint_pointAfter (text more : Bytes) :
    advancePoint (pointAfter text) more = pointAfter (text ++ more) := by
  induction more generalizing text with
  | nil => simp [advancePoint]
  | cons byte rest ih =>
    have hstep : advancePoint (pointAfter text) (byte :: rest) =
        advancePoint ((pointAfter text).advance byte) rest := rfl
    rw [hstep,advance_pointAfter,ih,List.append_assoc,List.singleton_append]

theorem pointAt_eq (source : Bytes) (offset : ℕ) : pointAt source offset = pointAfter (source.take offset) :=
  advancePoint_pointAfter [] (source.take offset)

/-! ## Edits -/

structure TextEdit where
  startByte : ℕ
  oldEndByte : ℕ
  replacement : Bytes
deriving DecidableEq

def TextEdit.valid (edit : TextEdit) (source : Bytes) : Bool :=
  edit.startByte ≤ edit.oldEndByte && edit.oldEndByte ≤ source.length

def TextEdit.candidate (edit : TextEdit) (source : Bytes) : Bytes :=
  source.take edit.startByte ++ edit.replacement ++ source.drop edit.oldEndByte

/-- Tree-sitter's `InputEdit`. -/
structure InputEdit where
  startByte : ℕ
  oldEndByte : ℕ
  newEndByte : ℕ
  startPosition : Point
  oldEndPosition : Point
  newEndPosition : Point
deriving DecidableEq

/-- The coordinates that `apply_edit` hands over. -/
def TextEdit.inputEdit (edit : TextEdit) (source : Bytes) : InputEdit where
  startByte := edit.startByte
  oldEndByte := edit.oldEndByte
  newEndByte := edit.startByte + edit.replacement.length
  startPosition := pointAt source edit.startByte
  oldEndPosition := pointAt source edit.oldEndByte
  newEndPosition := advancePoint (pointAt source edit.startByte) edit.replacement

/-- The coordinates describe how the new source comes from the old one: both are the same before the
start and after their ends, and each point is that of its offset in its source. -/
structure InputEdit.Describes (input : InputEdit) (old new : Bytes) : Prop where
  ordered : input.startByte ≤ input.oldEndByte ∧ input.startByte ≤ input.newEndByte
  oldBound : input.oldEndByte ≤ old.length
  newBound : input.newEndByte ≤ new.length
  before : new.take input.startByte = old.take input.startByte
  after : new.drop input.newEndByte = old.drop input.oldEndByte
  startPosition : input.startPosition = pointAfter (old.take input.startByte)
  oldEndPosition : input.oldEndPosition = pointAfter (old.take input.oldEndByte)
  newEndPosition : input.newEndPosition = pointAfter (new.take input.newEndByte)

/-- The six coordinates are exact for every valid edit, wherever the line breaks are. -/
theorem TextEdit.describes {edit : TextEdit} {source : Bytes} (h : edit.valid source = true) :
    (edit.inputEdit source).Describes source (edit.candidate source) := by
  simp only [TextEdit.valid,Bool.and_eq_true,decide_eq_true_eq] at h
  obtain ⟨hle,hlen⟩ := h
  have hstart : (source.take edit.startByte).length = edit.startByte :=
    List.length_take_of_le (hle.trans hlen)
  have hhead : (source.take edit.startByte ++ edit.replacement).length =
      edit.startByte + edit.replacement.length := by
    rw [List.length_append,hstart]
  have htake : (edit.candidate source).take (edit.startByte + edit.replacement.length) =
      source.take edit.startByte ++ edit.replacement := by
    rw [TextEdit.candidate,← hhead,List.take_left']
    rfl
  constructor
  · exact ⟨hle,Nat.le_add_right ..⟩
  · exact hlen
  · rw [TextEdit.candidate,List.length_append,hhead]
    exact Nat.le_add_right ..
  · rw [TextEdit.candidate,List.append_assoc]
    exact List.take_left' hstart
  · rw [TextEdit.candidate]
    exact List.drop_left' hhead
  · exact pointAt_eq source _
  · exact pointAt_eq source _
  · change advancePoint (pointAt source edit.startByte) edit.replacement =
      pointAfter ((edit.candidate source).take (edit.startByte + edit.replacement.length))
    rw [pointAt_eq,advancePoint_pointAfter,htake]

/-! ## Items and diagnostics -/

open Core Foundation Workspace

inductive DiagnosticSeverity
  | error | warning | information
deriving DecidableEq

inductive DiagnosticCode
  | syntaxError | missingSyntax | invalidUtf8SemanticText | extractionLimitReached
  | dynamicDependency | missingProjectDependency | dependencyCycle | duplicateLabel
  | unresolvedReference | bibtexSyntaxError | duplicateBibtexKey | unresolvedCitation
deriving DecidableEq

/-- The place of a code in the derived order. -/
def DiagnosticCode.index : DiagnosticCode → ℕ
  | .syntaxError => 0
  | .missingSyntax => 1
  | .invalidUtf8SemanticText => 2
  | .extractionLimitReached => 3
  | .dynamicDependency => 4
  | .missingProjectDependency => 5
  | .dependencyCycle => 6
  | .duplicateLabel => 7
  | .unresolvedReference => 8
  | .bibtexSyntaxError => 9
  | .duplicateBibtexKey => 10
  | .unresolvedCitation => 11

structure ParserDiagnostic where
  severity : DiagnosticSeverity
  code : DiagnosticCode
  message : String
  range : Option SourceRange
deriving DecidableEq

inductive SectionLevel
  | part | chapter | section_ | subsection | subsubsection | paragraph | subparagraph
deriving DecidableEq

inductive ReferenceKind
  | ref | pageRef | eqRef | autoRef | cRef | capitalCRef
deriving DecidableEq

inductive DependencyKind
  | input | include_ | subfile | graphics | bibliography
deriving DecidableEq

inductive DependencyTarget
  | static (raw : String)
  | dynamic (raw : String)
deriving DecidableEq

inductive MathKind
  | inline | display | environment
deriving DecidableEq

/-- A named occurrence: a class, a package, an environment, a macro or a command. -/
structure NameRange where
  name : String
  range : SourceRange
deriving DecidableEq

abbrev DocumentClassRequest := NameRange
abbrev PackageRequest := NameRange
abbrev EnvironmentOccurrence := NameRange
abbrev MacroDefinition := NameRange
abbrev CommandUse := NameRange

structure Section where
  level : SectionLevel
  title : String
  starred : Bool
  range : SourceRange
deriving DecidableEq

structure LabelDefinition where
  key : String
  range : SourceRange
deriving DecidableEq

structure ReferenceUse where
  kind : ReferenceKind
  key : String
  range : SourceRange
deriving DecidableEq

structure CitationUse where
  command : String
  keys : List String
  range : SourceRange
deriving DecidableEq

structure DependencyRequest where
  kind : DependencyKind
  target : DependencyTarget
  range : SourceRange
deriving DecidableEq

structure MathRegion where
  kind : MathKind
  range : SourceRange
deriving DecidableEq

structure Comment where
  text : String
  range : SourceRange
deriving DecidableEq

structure TexDirective where
  key : String
  value : String
  range : SourceRange
deriving DecidableEq

structure ParserLimits where
  maxSemanticItemsPerFile : ℕ
  maxExtractedTextBytes : ℕ
deriving DecidableEq

def ParserLimits.new (items bytes : ℕ) : Except ParserError ParserLimits := do
  ensure (items ≠ 0 ∧ bytes ≠ 0) (.internalInvariant "parser limits must be positive")
  pure ⟨items,bytes⟩

def ParserLimits.default : ParserLimits := ⟨100000,65536⟩

structure FileAnalysis where
  path : LogicalPath
  documentClasses : List DocumentClassRequest
  packages : List PackageRequest
  sections : List Section
  environments : List EnvironmentOccurrence
  labels : List LabelDefinition
  references : List ReferenceUse
  citations : List CitationUse
  dependencies : List DependencyRequest
  macros : List MacroDefinition
  commands : List CommandUse
  mathRegions : List MathRegion
  comments : List Comment
  directives : List TexDirective
  diagnostics : List ParserDiagnostic
deriving DecidableEq

def FileAnalysis.empty (path : LogicalPath) : FileAnalysis :=
  ⟨path,[],[],[],[],[],[],[],[],[],[],[],[],[],[]⟩

/-- One found item, and so the list it goes to. -/
inductive SemanticItem
  | documentClass (value : DocumentClassRequest)
  | package (value : PackageRequest)
  | section_ (value : Section)
  | environment (value : EnvironmentOccurrence)
  | label (value : LabelDefinition)
  | reference (value : ReferenceUse)
  | citation (value : CitationUse)
  | dependency (value : DependencyRequest)
  | macro_ (value : MacroDefinition)
  | command (value : CommandUse)
  | mathRegion (value : MathRegion)
  | comment (value : Comment)
  | directive (value : TexDirective)
deriving DecidableEq

def FileAnalysis.push (analysis : FileAnalysis) : SemanticItem → FileAnalysis
  | .documentClass value => { analysis with documentClasses := analysis.documentClasses ++ [value] }
  | .package value => { analysis with packages := analysis.packages ++ [value] }
  | .section_ value => { analysis with sections := analysis.sections ++ [value] }
  | .environment value => { analysis with environments := analysis.environments ++ [value] }
  | .label value => { analysis with labels := analysis.labels ++ [value] }
  | .reference value => { analysis with references := analysis.references ++ [value] }
  | .citation value => { analysis with citations := analysis.citations ++ [value] }
  | .dependency value => { analysis with dependencies := analysis.dependencies ++ [value] }
  | .macro_ value => { analysis with macros := analysis.macros ++ [value] }
  | .command value => { analysis with commands := analysis.commands ++ [value] }
  | .mathRegion value => { analysis with mathRegions := analysis.mathRegions ++ [value] }
  | .comment value => { analysis with comments := analysis.comments ++ [value] }
  | .directive value => { analysis with directives := analysis.directives ++ [value] }

def FileAnalysis.report (analysis : FileAnalysis) (severity : DiagnosticSeverity)
    (code : DiagnosticCode) (message : String) (range : SourceRange) : FileAnalysis :=
  { analysis with diagnostics := analysis.diagnostics ++ [⟨severity,code,message,some range⟩] }

def ParserDiagnostic.sortKey (diagnostic : ParserDiagnostic) : ℕ × ℕ × ℕ :=
  (diagnostic.range.elim u64Max SourceRange.startByte,
    diagnostic.range.elim u64Max SourceRange.endByte,diagnostic.code.index)

def ParserDiagnostic.atMost (a b : ParserDiagnostic) : Bool :=
  let x := a.sortKey
  let y := b.sortKey
  x.1 < y.1 || (x.1 == y.1 && (x.2.1 < y.2.1 || (x.2.1 == y.2.1 && x.2.2 ≤ y.2.2)))

/-- `sort_by_key`, which is stable. -/
def FileAnalysis.sorted (analysis : FileAnalysis) : FileAnalysis :=
  { analysis with diagnostics := analysis.diagnostics.mergeSort ParserDiagnostic.atMost }

end LatexCore.Parser
