import LatexCore.Core.Scan
import LatexCore.Parser.Semantic

/-! # The semantic extractor

The extractor walks a syntax tree once and collects items and diagnostics. It
counts the items and the bytes of text it has taken; what a limit refuses is
reported once. The tree comes from Tree-sitter: every node lies in the source.
-/
namespace LatexCore.Parser
open Core Foundation Workspace

/-- A node of a syntax tree with the fields under which its parent holds it. -/
inductive SyntaxNode
  | node (kind : String) (fields : List String) (named error missing : Bool) (range : NodeRange)
      (children : List SyntaxNode)

namespace SyntaxNode

def kind : SyntaxNode → String
  | node kind .. => kind

def fields : SyntaxNode → List String
  | node _ fields .. => fields

def isNamed : SyntaxNode → Bool
  | node _ _ named .. => named

def isError : SyntaxNode → Bool
  | node _ _ _ error .. => error

def isMissing : SyntaxNode → Bool
  | node _ _ _ _ missing .. => missing

def range : SyntaxNode → NodeRange
  | node _ _ _ _ _ range _ => range

def children : SyntaxNode → List SyntaxNode
  | node _ _ _ _ _ _ children => children

def childByFieldName (field : String) (parent : SyntaxNode) : Option SyntaxNode :=
  parent.children.find? (·.fields.contains field)

def namedChild (index : ℕ) (parent : SyntaxNode) : Option SyntaxNode :=
  (parent.children.filter isNamed)[index]?

def namedChildCount (parent : SyntaxNode) : ℕ := (parent.children.filter isNamed).length

/-- `&source[node.start_byte()..node.end_byte()]`. -/
def bytes (source : Bytes) (self : SyntaxNode) : Bytes :=
  (source.drop self.range.startByte).take (self.range.endByte - self.range.startByte)

end SyntaxNode

/-! ## Texts -/

def fromUtf8 (bytes : Bytes) : Option String := String.fromUTF8? ⟨bytes.toArray⟩

def trimStart (matches_ : Char → Bool) (value : String) : String :=
  String.ofList (value.toList.dropWhile matches_)

def trimEnd (matches_ : Char → Bool) (value : String) : String :=
  String.ofList (value.toList.reverse.dropWhile matches_).reverse

def splitList (value : String) : List String :=
  ((value.toList.splitOn ',').map (fun item => trim (String.ofList item))).filter (· ≠ "")

def stripHead (head value : String) : Option String :=
  if head.toList.isPrefixOf value.toList then some (String.ofList (value.toList.drop head.length))
  else none

def splitOnce (separator : Char) (value : String) : Option (String × String) :=
  if separator ∈ value.toList then
    some (String.ofList (value.toList.takeWhile (· ≠ separator)),
      String.ofList ((value.toList.dropWhile (· ≠ separator)).drop 1))
  else none

/-- The bytes without a pair of braces or brackets around them. -/
def unwrapped (bytes : Bytes) : Bytes :=
  if 2 ≤ bytes.length ∧ ((bytes.head? = some 123 ∧ bytes.getLast? = some 125) ∨
      (bytes.head? = some 91 ∧ bytes.getLast? = some 93)) then
    (bytes.drop 1).dropLast
  else bytes

/-! ## The extractor -/

structure Extractor where
  source : Bytes
  limits : ParserLimits
  items : ℕ
  textBytes : ℕ
  limited : Bool
  analysis : FileAnalysis

namespace Extractor

def new (path : LogicalPath) (source : Bytes) (limits : ParserLimits) : Extractor :=
  ⟨source,limits,0,0,false,FileAnalysis.empty path⟩

def report (severity : DiagnosticSeverity) (code : DiagnosticCode) (message : String)
    (range : SourceRange) (x : Extractor) : Extractor :=
  { x with analysis := x.analysis.report severity code message range }

def refuse (message : String) (range : SourceRange) (x : Extractor) : Extractor :=
  if x.limited then x
  else { x with limited := true }.report .warning .extractionLimitReached message range

def allow (range : SourceRange) (x : Extractor) : Bool × Extractor :=
  if x.items < x.limits.maxSemanticItemsPerFile then (true,{ x with items := x.items + 1 })
  else (false,x.refuse "semantic item extraction limit reached" range)

def add (range : SourceRange) (item : SemanticItem) (x : Extractor) : Extractor :=
  match x.allow range with
  | (true,x) => { x with analysis := x.analysis.push item }
  | (false,x) => x

def text (node : SyntaxNode) (range : SourceRange) (x : Extractor) : Option String × Extractor :=
  let bytes := unwrapped (node.bytes x.source)
  match fromUtf8 bytes with
  | some value =>
    if x.textBytes + bytes.length ≤ usizeMax ∧
        x.textBytes + bytes.length ≤ x.limits.maxExtractedTextBytes then
      (some (trim value),{ x with textBytes := x.textBytes + bytes.length })
    else (none,x.refuse "semantic text extraction limit reached" range)
  | none =>
    (none,x.report .warning .invalidUtf8SemanticText "semantic text is not valid UTF-8" range)

def withText (arg : Option SyntaxNode) (range : SourceRange)
    (next : String → Extractor → Extractor) (x : Extractor) : Extractor :=
  match arg with
  | none => x
  | some node =>
    match x.text node range with
    | (some value,x) => next value x
    | (none,x) => x

def command (node : SyntaxNode) (x : Extractor) : Option String := do
  let command ← node.childByFieldName "command"
  let value ← fromUtf8 (command.bytes x.source)
  pure (trimEnd (· == '*') (trimStart (· == '\\') value))

end Extractor

/-! ## One node -/

def sectionLevel : String → SectionLevel
  | "part" => .part
  | "chapter" => .chapter
  | "section" => .section_
  | "subsection" => .subsection
  | "subsubsection" => .subsubsection
  | "paragraph" => .paragraph
  | _ => .subparagraph

def extractSection (node : SyntaxNode) (kind : String) (range : SourceRange) (x : Extractor) :
    Extractor :=
  x.withText (node.childByFieldName "text") range fun title x =>
    let starred := ("\\" ++ kind ++ "*").toUTF8.toList.isPrefixOf (node.bytes x.source)
    x.add range (.section_ ⟨sectionLevel kind,title,starred,range⟩)

def mathEnvironments : List String :=
  ["equation","equation*","align","align*","gather","multline"]

def extractEnvironment (node : SyntaxNode) (range : SourceRange) (x : Extractor) : Extractor :=
  let arg := (node.childByFieldName "begin").bind (·.namedChild 0)
  x.withText arg range fun name x =>
    let x := x.add range (.environment ⟨name,range⟩)
    if name ∈ mathEnvironments then x.add range (.mathRegion ⟨.environment,range⟩) else x

def referenceKind : String → ReferenceKind
  | "pageref" => .pageRef
  | "eqref" => .eqRef
  | "autoref" => .autoRef
  | "cref" => .cRef
  | "Cref" => .capitalCRef
  | _ => .ref

def extractReference (node : SyntaxNode) (command : Option String) (range : SourceRange)
    (x : Extractor) : Extractor :=
  match command with
  | none => x
  | some command =>
    x.withText (node.childByFieldName "names") range fun value x =>
      (splitList value).foldl
        (fun x key => x.add range (.reference ⟨referenceKind command,key,range⟩)) x

def dependencyKind (syntaxKind : String) (command : Option String) : DependencyKind :=
  match syntaxKind, command with
  | "graphics_include", _ => .graphics
  | "bibtex_include", _ => .bibliography
  | "biblatex_include", _ => .bibliography
  | _, some "include" => .include_
  | _, some "subfile" => .subfile
  | _, _ => .input

def addDependency (kind : DependencyKind) (range : SourceRange) (x : Extractor) (raw : String) :
    Extractor :=
  if '\\' ∈ raw.toList ∨ '#' ∈ raw.toList then
    (x.report .information .dynamicDependency "dependency requires TeX expansion" range).add range
      (.dependency ⟨kind,.dynamic raw,range⟩)
  else x.add range (.dependency ⟨kind,.static raw,range⟩)

def extractDependency (node : SyntaxNode) (syntaxKind : String) (command : Option String)
    (range : SourceRange) (x : Extractor) : Extractor :=
  let field := if syntaxKind = "bibtex_include" then "paths" else "path"
  let arg := (node.childByFieldName field).or (node.namedChild (node.namedChildCount - 1))
  x.withText arg range fun value x =>
    let kind := dependencyKind syntaxKind command
    let values := if kind = .bibliography then splitList value else [value]
    values.foldl (addDependency kind range) x

def extractComment (node : SyntaxNode) (range : SourceRange) (x : Extractor) : Extractor :=
  x.withText (some node) range fun text x =>
    let x := x.add range (.comment ⟨text,range⟩)
    let body := trim (trimStart (· == '%') text)
    match (stripHead "!TeX " body).bind (splitOnce '=') with
    | some (key,value) => x.add range (.directive ⟨trim key,trim value,range⟩)
    | none => x

def sectionKinds : List String :=
  ["part","chapter","section","subsection","subsubsection","paragraph","subparagraph"]

def dependencyKinds : List String :=
  ["latex_include","graphics_include","bibtex_include","biblatex_include"]

/-- The braces and backslashes around a declared name. -/
def macroDelimiter (c : Char) : Bool := c == '\x7b' || c == '\x7d' || c == '\\'

/-- The arm of `extract_node` that the kind chooses. -/
def extractKind (node : SyntaxNode) (command : Option String) (range : SourceRange) (x : Extractor) :
    Extractor :=
  let kind := node.kind
  if kind = "class_include" then
    x.withText (node.childByFieldName "path") range fun value x =>
      x.add range (.documentClass ⟨value,range⟩)
  else if kind = "package_include" then
    x.withText (node.childByFieldName "paths") range fun value x =>
      (splitList value).foldl (fun x name => x.add range (.package ⟨name,range⟩)) x
  else if kind ∈ sectionKinds then extractSection node kind range x
  else if kind = "generic_environment" then extractEnvironment node range x
  else if kind = "label_definition" then
    x.withText (node.childByFieldName "name") range fun value x =>
      if value = "" then x else x.add range (.label ⟨value,range⟩)
  else if kind = "label_reference" then extractReference node command range x
  else if kind = "citation" then
    match command with
    | none => x
    | some command =>
      x.withText (node.childByFieldName "keys") range fun value x =>
        x.add range (.citation ⟨command,splitList value,range⟩)
  else if kind ∈ dependencyKinds then extractDependency node kind command range x
  else if kind = "new_command_definition" ∨ kind = "old_command_definition" then
    x.withText (node.childByFieldName "declaration") range fun value x =>
      let name := trimEnd macroDelimiter (trimStart macroDelimiter value)
      if name = "" then x else x.add range (.macro_ ⟨name,range⟩)
  else if kind = "generic_command" ∧ command = none then
    x.withText (node.childByFieldName "command") range fun value x =>
      x.add range (.command ⟨trimStart (· == '\\') value,range⟩)
  else if kind = "inline_formula" then x.add range (.mathRegion ⟨.inline,range⟩)
  else if kind = "displayed_equation" then x.add range (.mathRegion ⟨.display,range⟩)
  else if kind = "comment" ∨ kind = "line_comment" then extractComment node range x
  else x

def extractNode (node : SyntaxNode) (range : SourceRange) (x : Extractor) : Extractor :=
  let command := x.command node
  let x := match command with
    | some name => x.add range (.command ⟨name,range⟩)
    | none => x
  extractKind node command range x

/-- What `walk` does at a node before its children. -/
def visit (node : SyntaxNode) (x : Extractor) : Except ParserError Extractor := do
  let range ← SourceRange.fromTreeSitter node.range
  let x := if node.isError then x.report .error .syntaxError "LaTeX syntax error" range else x
  let x := if node.isMissing then x.report .error .missingSyntax "missing LaTeX syntax" range else x
  pure (extractNode node range x)

mutual
def walk : SyntaxNode → Extractor → Except ParserError Extractor
  | .node kind fields named error missing range children, x => do
    let x ← visit (.node kind fields named error missing range children) x
    walkAll children x

def walkAll : List SyntaxNode → Extractor → Except ParserError Extractor
  | [], x => pure x
  | child :: rest, x => do
    let x ← walk child x
    walkAll rest x
end

def analyzeFile (path : LogicalPath) (source : Bytes) (root : SyntaxNode) (limits : ParserLimits) :
    Except ParserError FileAnalysis := do
  let x ← walk root (Extractor.new path source limits)
  pure x.analysis.sorted

end LatexCore.Parser
