import Mathlib.Tactic.Common
import LatexCore.Parser.Extractor

/-! # What a tree holds

A file holds what its nodes hold: items found outright, a text that is read, and what
that text says. The extractor takes these findings one by one, and everything that is
found has the range of its node.
-/
namespace LatexCore.Parser
open Core Foundation Workspace

/-! ## Findings -/

inductive Finding
  | item (value : SemanticItem)
  | report (severity : DiagnosticSeverity) (code : DiagnosticCode) (message : String)
deriving DecidableEq

abbrev Entry := SourceRange × Finding

structure NodeContents where
  outright : List Finding
  read : Option SyntaxNode
  inText : String → List Finding

def Finding.command (range : SourceRange) (name : String) : Finding := .item (.command ⟨name,range⟩)

def dependencyFindings (kind : DependencyKind) (range : SourceRange) (raw : String) : List Finding :=
  if '\\' ∈ raw.toList ∨ '#' ∈ raw.toList then
    [.report .information .dynamicDependency "dependency requires TeX expansion",
      .item (.dependency ⟨kind,.dynamic raw,range⟩)]
  else [.item (.dependency ⟨kind,.static raw,range⟩)]

def commentFindings (range : SourceRange) (text : String) : List Finding :=
  .item (.comment ⟨text,range⟩) ::
    match (stripHead "!TeX " (trim (trimStart (· == '%') text))).bind (splitOnce '=') with
    | some (key,value) => [.item (.directive ⟨trim key,trim value,range⟩)]
    | none => []

def kindContents (source : Bytes) (node : SyntaxNode) (command : Option String) (range : SourceRange) :
    NodeContents :=
  let kind := node.kind
  if kind = "class_include" then
    ⟨[],node.childByFieldName "path",fun value => [.item (.documentClass ⟨value,range⟩)]⟩
  else if kind = "package_include" then
    ⟨[],node.childByFieldName "paths",
      fun value => (splitList value).map (fun name => .item (.package ⟨name,range⟩))⟩
  else if kind ∈ sectionKinds then
    ⟨[],node.childByFieldName "text",fun title => [.item (.section_ ⟨sectionLevel kind,title,
      ("\\" ++ kind ++ "*").toUTF8.toList.isPrefixOf (node.bytes source),range⟩)]⟩
  else if kind = "generic_environment" then
    ⟨[],(node.childByFieldName "begin").bind (·.namedChild 0),
      fun name => .item (.environment ⟨name,range⟩) ::
        if name ∈ mathEnvironments then [.item (.mathRegion ⟨.environment,range⟩)] else []⟩
  else if kind = "label_definition" then
    ⟨[],node.childByFieldName "name",
      fun value => if value = "" then [] else [.item (.label ⟨value,range⟩)]⟩
  else if kind = "label_reference" then
    ⟨[],command.bind (fun _ => node.childByFieldName "names"),fun value =>
      (splitList value).map (fun key => .item (.reference ⟨referenceKind (command.getD ""),key,range⟩))⟩
  else if kind = "citation" then
    ⟨[],command.bind (fun _ => node.childByFieldName "keys"),
      fun value => [.item (.citation ⟨command.getD "",splitList value,range⟩)]⟩
  else if kind ∈ dependencyKinds then
    let field := if kind = "bibtex_include" then "paths" else "path"
    let target := dependencyKind kind command
    ⟨[],(node.childByFieldName field).or (node.namedChild (node.namedChildCount - 1)),fun value =>
      (if target = .bibliography then splitList value else [value]).flatMap
        (dependencyFindings target range)⟩
  else if kind = "new_command_definition" ∨ kind = "old_command_definition" then
    ⟨[],node.childByFieldName "declaration",fun value =>
      let name := trimEnd macroDelimiter (trimStart macroDelimiter value)
      if name = "" then [] else [.item (.macro_ ⟨name,range⟩)]⟩
  else if kind = "generic_command" ∧ command = none then
    ⟨[],node.childByFieldName "command",
      fun value => [.command range (trimStart (· == '\\') value)]⟩
  else if kind = "inline_formula" then ⟨[.item (.mathRegion ⟨.inline,range⟩)],none,fun _ => []⟩
  else if kind = "displayed_equation" then ⟨[.item (.mathRegion ⟨.display,range⟩)],none,fun _ => []⟩
  else if kind = "comment" ∨ kind = "line_comment" then ⟨[],some node,commentFindings range⟩
  else ⟨[],none,fun _ => []⟩

def commandName (source : Bytes) (node : SyntaxNode) : Option String := do
  let command ← node.childByFieldName "command"
  let value ← fromUtf8 (command.bytes source)
  pure (trimEnd (· == '*') (trimStart (· == '\\') value))

def nodeFindings (node : SyntaxNode) (command : Option String) (range : SourceRange) : List Finding :=
  (if node.isError then [.report .error .syntaxError "LaTeX syntax error"] else []) ++
    (if node.isMissing then [.report .error .missingSyntax "missing LaTeX syntax"] else []) ++
    (command.map (Finding.command range)).toList

def invalidText : Finding := .report .warning .invalidUtf8SemanticText "semantic text is not valid UTF-8"

/-! ## The analysis without limits -/

structure Found where
  entries : List Entry
  textBytes : ℕ

def Found.empty : Found := ⟨[],0⟩

def Found.append (a b : Found) : Found := ⟨a.entries ++ b.entries,a.textBytes + b.textBytes⟩

def readFound (source : Bytes) (contents : NodeContents) (range : SourceRange) : Found :=
  match contents.read with
  | none => .empty
  | some node =>
    let bytes := unwrapped (node.bytes source)
    match fromUtf8 bytes with
    | some value => ⟨(contents.inText (trim value)).map (Prod.mk range),bytes.length⟩
    | none => ⟨[(range,invalidText)],0⟩

def nodeFound (source : Bytes) (node : SyntaxNode) (range : SourceRange) : Found :=
  let command := commandName source node
  let contents := kindContents source node command range
  Found.append ⟨(nodeFindings node command range ++ contents.outright).map (Prod.mk range),0⟩
    (readFound source contents range)

mutual
def found (source : Bytes) : SyntaxNode → Except ParserError Found
  | .node kind fields named error missing range children => do
    let sourceRange ← SourceRange.fromTreeSitter range
    let rest ← foundAll source children
    pure (Found.append
      (nodeFound source (.node kind fields named error missing range children) sourceRange) rest)

def foundAll (source : Bytes) : List SyntaxNode → Except ParserError Found
  | [] => pure .empty
  | child :: rest => do
    let first ← found source child
    let later ← foundAll source rest
    pure (first.append later)
end

def FileAnalysis.add (analysis : FileAnalysis) (entry : Entry) : FileAnalysis :=
  match entry.2 with
  | .item value => analysis.push value
  | .report severity code message => analysis.report severity code message entry.1

def build (path : LogicalPath) (entries : List Entry) : FileAnalysis :=
  entries.foldl FileAnalysis.add (.empty path)

def unlimitedAnalysis (path : LogicalPath) (source : Bytes) (root : SyntaxNode) :
    Except ParserError FileAnalysis := do
  let all ← found source root
  pure (build path all.entries).sorted

/-! ## The extractor takes findings -/

namespace Extractor

def take (range : SourceRange) (x : Extractor) : Finding → Extractor
  | .item value => x.add range value
  | .report severity code message => x.report severity code message range

def takeAll (range : SourceRange) (findings : List Finding) (x : Extractor) : Extractor :=
  findings.foldl (take range) x

def takeContents (contents : NodeContents) (range : SourceRange) (x : Extractor) : Extractor :=
  (x.takeAll range contents.outright).withText contents.read range
    (fun value x => x.takeAll range (contents.inText value))

@[simp] theorem takeAll_nil (range : SourceRange) (x : Extractor) : x.takeAll range [] = x := rfl

@[simp] theorem takeAll_cons (range : SourceRange) (f : Finding) (rest : List Finding) (x : Extractor) :
    x.takeAll range (f :: rest) = (x.take range f).takeAll range rest := rfl

theorem takeAll_append (range : SourceRange) (first second : List Finding) (x : Extractor) :
    x.takeAll range (first ++ second) = (x.takeAll range first).takeAll range second :=
  List.foldl_append ..

theorem takeAll_map {α : Type} (range : SourceRange) (f : α → Finding) (values : List α) (x : Extractor) :
    x.takeAll range (values.map f) = values.foldl (fun x value => x.take range (f value)) x :=
  List.foldl_map ..

theorem takeAll_flatMap {α : Type} (range : SourceRange) (f : α → List Finding) (values : List α)
    (x : Extractor) :
    x.takeAll range (values.flatMap f) = values.foldl (fun x value => x.takeAll range (f value)) x := by
  induction values generalizing x with
  | nil => rfl
  | cons value rest ih => rw [List.flatMap_cons,takeAll_append,ih]; rfl

theorem withText_some (node : SyntaxNode) (range : SourceRange) (next : String → Extractor → Extractor)
    (x : Extractor) : x.withText (some node) range next =
      (x.text node range).1.elim (x.text node range).2 (fun value => next value (x.text node range).2) := by
  rw [withText]
  rcases x.text node range with ⟨value | value,y⟩ <;> rfl

theorem text_source (node : SyntaxNode) (range : SourceRange) (x : Extractor) :
    (x.text node range).2.source = x.source := by
  unfold text
  dsimp only
  split
  · split
    · rfl
    · unfold refuse
      split <;> rfl
  · rfl

theorem withText_congr {arg : Option SyntaxNode} {range : SourceRange}
    {next other : String → Extractor → Extractor} {x : Extractor}
    (h : ∀ value y, y.source = x.source → next value y = other value y) :
    x.withText arg range next = x.withText arg range other := by
  cases arg with
  | none => rfl
  | some node =>
    rw [withText_some,withText_some]
    cases (x.text node range).1 with
    | none => rfl
    | some value => exact h value _ (text_source node range x)

end Extractor

open Extractor

theorem addDependency_eq (kind : DependencyKind) (range : SourceRange) (x : Extractor) (raw : String) :
    addDependency kind range x raw = x.takeAll range (dependencyFindings kind range raw) := by
  unfold addDependency dependencyFindings
  split <;> rfl

theorem extractKind_eq (node : SyntaxNode) (command : Option String) (range : SourceRange) (x : Extractor) :
    extractKind node command range x =
      x.takeContents (kindContents x.source node command range) range := by
  unfold extractKind kindContents
  simp only [apply_ite (fun contents => Extractor.takeContents contents range x)]
  refine ite_congr rfl (fun _ => rfl) fun _ => ?_
  refine ite_congr rfl (fun _ => ?_) fun _ => ?_
  · simp only [takeContents,takeAll_nil,takeAll_map]
    rfl
  refine ite_congr rfl (fun _ => ?_) fun _ => ?_
  · exact withText_congr fun value y hsource => by rw [← hsource]; rfl
  refine ite_congr rfl (fun _ => ?_) fun _ => ?_
  · refine withText_congr fun value y _ => ?_
    by_cases hmath : value ∈ mathEnvironments
    · simp only [if_pos hmath]
      rfl
    · simp only [if_neg hmath]
      rfl
  refine ite_congr rfl (fun _ => ?_) fun _ => ?_
  · refine withText_congr fun value y _ => ?_
    by_cases hempty : value = ""
    · simp only [if_pos hempty]
      rfl
    · simp only [if_neg hempty]
      rfl
  refine ite_congr rfl (fun _ => ?_) fun _ => ?_
  · cases command with
    | none => rfl
    | some command =>
      refine withText_congr fun value y _ => ?_
      rw [takeAll_map]
      rfl
  refine ite_congr rfl (fun _ => ?_) fun _ => ?_
  · cases command <;> rfl
  refine ite_congr rfl (fun _ => ?_) fun _ => ?_
  · refine withText_congr fun value y _ => ?_
    have hstep : addDependency (dependencyKind node.kind command) range =
        fun x raw => x.takeAll range (dependencyFindings (dependencyKind node.kind command) range raw) :=
      funext fun x => funext fun raw => addDependency_eq ..
    rw [takeAll_flatMap,← hstep]
  refine ite_congr rfl (fun _ => ?_) fun _ => ?_
  · refine withText_congr fun value y _ => ?_
    by_cases hempty : trimEnd macroDelimiter (trimStart macroDelimiter value) = ""
    · simp only [if_pos hempty]
      rfl
    · simp only [if_neg hempty]
      rfl
  refine ite_congr rfl (fun _ => rfl) fun _ => ?_
  refine ite_congr rfl (fun _ => rfl) fun _ => ?_
  refine ite_congr rfl (fun _ => rfl) fun _ => ?_
  refine ite_congr rfl (fun _ => ?_) fun _ => rfl
  refine withText_congr fun value y _ => ?_
  simp only [commentFindings,takeAll_cons]
  cases (stripHead "!TeX " (trim (trimStart (· == '%') value))).bind (splitOnce '=') with
  | none => rfl
  | some directive => rfl

theorem take_source (range : SourceRange) (x : Extractor) (f : Finding) : (x.take range f).source = x.source := by
  cases f with
  | item value =>
    simp only [take,add,allow,refuse]
    by_cases hlimit : x.items < x.limits.maxSemanticItemsPerFile
    · simp only [if_pos hlimit]
    · simp only [if_neg hlimit]
      split <;> rfl
  | report severity code message => rfl

theorem takeAll_source (range : SourceRange) (findings : List Finding) (x : Extractor) :
    (x.takeAll range findings).source = x.source := by
  induction findings generalizing x with
  | nil => rfl
  | cons f rest ih => rw [takeAll_cons,ih,take_source]

theorem extractNode_eq (node : SyntaxNode) (range : SourceRange) (x : Extractor) :
    extractNode node range x =
      (x.takeAll range ((commandName x.source node).map (Finding.command range)).toList).takeContents
        (kindContents x.source node (commandName x.source node) range) range := by
  have hcommand : x.command node = commandName x.source node := rfl
  rw [extractNode,hcommand]
  cases commandName x.source node with
  | none => exact extractKind_eq ..
  | some name =>
    have hsource : (x.take range (.command range name)).source = x.source := take_source ..
    rw [← hsource]
    exact extractKind_eq ..

/-- What `walk` does at a node before its children is to take what the node holds. -/
theorem visit_eq (node : SyntaxNode) (x : Extractor) :
    visit node x = (SourceRange.fromTreeSitter node.range).map (fun range =>
      (x.takeAll range (nodeFindings node (commandName x.source node) range)).takeContents
        (kindContents x.source node (commandName x.source node) range) range) := by
  unfold visit
  cases SourceRange.fromTreeSitter node.range with
  | error e => rfl
  | ok range =>
    refine congrArg Except.ok ?_
    simp only [extractNode_eq,nodeFindings,takeAll_append]
    cases node.isError <;> cases node.isMissing <;> rfl

/-! ## Reports of the extractor -/

/-- The reports of a file that no limit causes. -/
def ownReports : List (DiagnosticSeverity × DiagnosticCode × String) :=
  [(.error,.syntaxError,"LaTeX syntax error"),(.error,.missingSyntax,"missing LaTeX syntax"),
    (.warning,.invalidUtf8SemanticText,"semantic text is not valid UTF-8"),
    (.information,.dynamicDependency,"dependency requires TeX expansion")]

def SemanticItem.range : SemanticItem → SourceRange
  | .documentClass value | .package value | .environment value | .macro_ value | .command value => value.range
  | .section_ value => value.range
  | .label value => value.range
  | .reference value => value.range
  | .citation value => value.range
  | .dependency value => value.range
  | .mathRegion value => value.range
  | .comment value => value.range
  | .directive value => value.range

/-- The finding has the range of its node, and no limit causes it. -/
def Finding.own (range : SourceRange) : Finding → Bool
  | .item value => value.range = range
  | .report severity code message => ownReports.contains (severity,code,message)

def isLimit (entry : Entry) : Bool :=
  match entry.2 with
  | .report _ code _ => code = .extractionLimitReached
  | .item _ => false

def isItem (entry : Entry) : Bool :=
  match entry.2 with
  | .item _ => true
  | .report .. => false

theorem isLimit_of_own {range : SourceRange} {finding : Finding} (h : finding.own range = true) :
    isLimit (range,finding) = false := by
  cases finding with
  | item value => rfl
  | report severity code message =>
    simp only [Finding.own,List.contains_eq_mem,decide_eq_true_eq] at h
    have hall : ∀ report ∈ ownReports, report.2.1 ≠ .extractionLimitReached := by decide
    simpa [isLimit] using hall _ h

theorem dependencyFindings_own (kind : DependencyKind) (range : SourceRange) (raw : String) :
    (dependencyFindings kind range raw).all (Finding.own range) = true := by
  unfold dependencyFindings
  split <;> simp [Finding.own,ownReports,SemanticItem.range]

theorem commentFindings_own (range : SourceRange) (text : String) :
    (commentFindings range text).all (Finding.own range) = true := by
  unfold commentFindings
  split <;> simp [Finding.own,SemanticItem.range]

structure NodeContents.Owned (range : SourceRange) (contents : NodeContents) : Prop where
  outright : contents.outright.all (Finding.own range) = true
  inText : ∀ value, (contents.inText value).all (Finding.own range) = true

theorem owned_ite {p : Prop} [Decidable p] {range : SourceRange} {a b : NodeContents} (ha : a.Owned range)
    (hb : b.Owned range) : (if p then a else b).Owned range := by
  split
  · exact ha
  · exact hb

theorem owned_read {range : SourceRange} {read : Option SyntaxNode} {inText : String → List Finding}
    (h : ∀ value, (inText value).all (Finding.own range) = true) : (NodeContents.mk [] read inText).Owned range :=
  ⟨rfl,h⟩

theorem kindContents_owned (source : Bytes) (node : SyntaxNode) (command : Option String)
    (range : SourceRange) : (kindContents source node command range).Owned range := by
  unfold kindContents
  refine owned_ite (owned_read fun _ => by simp [Finding.own,SemanticItem.range]) ?_
  refine owned_ite (owned_read fun _ => by simp [Finding.own,SemanticItem.range]) ?_
  refine owned_ite (owned_read fun _ => by simp [Finding.own,SemanticItem.range]) ?_
  refine owned_ite (owned_read fun _ => by split <;> simp [Finding.own,SemanticItem.range]) ?_
  refine owned_ite (owned_read fun _ => by split <;> simp [Finding.own,SemanticItem.range]) ?_
  refine owned_ite (owned_read fun _ => by simp [Finding.own,SemanticItem.range]) ?_
  refine owned_ite (owned_read fun _ => by simp [Finding.own,SemanticItem.range]) ?_
  refine owned_ite (owned_read fun _ => ?_) ?_
  · rw [List.all_flatMap]
    exact List.all_eq_true.mpr fun raw _ => dependencyFindings_own _ range raw
  refine owned_ite (owned_read fun _ => by dsimp only; split <;> simp [Finding.own,SemanticItem.range]) ?_
  refine owned_ite (owned_read fun _ => by simp [Finding.own,Finding.command,SemanticItem.range]) ?_
  refine owned_ite ⟨by simp [Finding.own,SemanticItem.range],fun _ => rfl⟩
    (owned_ite ⟨by simp [Finding.own,SemanticItem.range],fun _ => rfl⟩ ?_)
  exact owned_ite (owned_read (commentFindings_own range)) ⟨rfl,fun _ => rfl⟩

theorem nodeFindings_own (node : SyntaxNode) (command : Option String) (range : SourceRange) :
    (nodeFindings node command range).all (Finding.own range) = true := by
  unfold nodeFindings
  cases node.isError <;> cases node.isMissing <;> cases command <;>
    simp [Finding.own,Finding.command,ownReports,SemanticItem.range]

/-! ## Places -/

variable {source : Bytes}

mutual
def SyntaxNode.ranges : SyntaxNode → List NodeRange
  | .node _ _ _ _ _ range children => range :: rangesAll children

def SyntaxNode.rangesAll : List SyntaxNode → List NodeRange
  | [] => []
  | child :: rest => child.ranges ++ rangesAll rest
end

def RangeOf (ranges : List NodeRange) (range : SourceRange) : Prop :=
  ∃ nodeRange ∈ ranges, SourceRange.fromTreeSitter nodeRange = .ok range

theorem nodeFound_range (source : Bytes) (node : SyntaxNode) (range : SourceRange) :
    ∀ entry ∈ (nodeFound source node range).entries, entry.1 = range := by
  intro entry hentry
  rcases List.mem_append.mp hentry with h | h
  · obtain ⟨_,-,rfl⟩ := List.mem_map.mp h
    rfl
  · unfold readFound at h
    split at h
    · cases h
    · dsimp only at h
      split at h
      · obtain ⟨_,-,rfl⟩ := List.mem_map.mp h
        rfl
      · rw [List.mem_singleton.mp h]

mutual
theorem found_ranges (node : SyntaxNode) {all : Found} (h : found source node = .ok all) :
    ∀ entry ∈ all.entries, RangeOf node.ranges entry.1 := by
  obtain ⟨kind,fields,named,error,missing,range,children⟩ := node
  simp only [found,bind_ok,pure_ok] at h
  obtain ⟨sourceRange,hrange,rest,hrest,rfl⟩ := h
  intro entry hentry
  rw [SyntaxNode.ranges]
  rcases List.mem_append.mp hentry with h | h
  · rw [nodeFound_range _ _ _ entry h]
    exact ⟨range,List.mem_cons_self,hrange⟩
  · obtain ⟨nodeRange,hmem,heq⟩ := foundAll_ranges children hrest entry h
    exact ⟨nodeRange,List.mem_cons_of_mem _ hmem,heq⟩

theorem foundAll_ranges (nodes : List SyntaxNode) {all : Found} (h : foundAll source nodes = .ok all) :
    ∀ entry ∈ all.entries, RangeOf (SyntaxNode.rangesAll nodes) entry.1 := by
  cases nodes with
  | nil =>
    obtain rfl : Found.empty = all := Except.ok.inj h
    nofun
  | cons node rest =>
    simp only [foundAll,bind_ok,pure_ok] at h
    obtain ⟨first,hfirst,later,hlater,rfl⟩ := h
    intro entry hentry
    rw [SyntaxNode.rangesAll]
    rcases List.mem_append.mp hentry with h | h
    · obtain ⟨nodeRange,hmem,heq⟩ := found_ranges node hfirst entry h
      exact ⟨nodeRange,List.mem_append_left _ hmem,heq⟩
    · obtain ⟨nodeRange,hmem,heq⟩ := foundAll_ranges rest hlater entry h
      exact ⟨nodeRange,List.mem_append_right _ hmem,heq⟩
end

end LatexCore.Parser
