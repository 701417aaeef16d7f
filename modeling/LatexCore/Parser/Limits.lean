import LatexCore.Parser.Findings

/-! # The limits of an analysis

The extractor takes the findings of a file under two budgets, of items and of bytes of
text. What it refuses it reports once, so an analysis without that report is the
analysis without limits, and any other has a part of each of its lists.
-/
namespace LatexCore.Parser
open Core Foundation Workspace Extractor

/-! ## Budgets -/

def ParserLimits.textCap (limits : ParserLimits) : ℕ := min usizeMax limits.maxExtractedTextBytes

/-- The extractor has kept a part of what was found, with one report in place of the rest. -/
structure Taken (path : LogicalPath) (source : Bytes) (limits : ParserLimits) (all : Found)
    (kept : List Entry) (x : Extractor) : Prop where
  sameSource : x.source = source
  sameLimits : x.limits = limits
  analysis : x.analysis = build path kept
  own : all.entries.all (fun entry => entry.2.own entry.1) = true
  part : (kept.filter (!isLimit ·)).Sublist all.entries
  notes : kept.countP isLimit = if x.limited then 1 else 0
  complete : x.limited = false → kept = all.entries ∧ x.textBytes = all.textBytes
  items : x.items = kept.countP isItem
  itemsWithin : x.items ≤ limits.maxSemanticItemsPerFile
  bytesWithin : x.textBytes ≤ limits.textCap
  exceeded : x.limited = true → limits.maxSemanticItemsPerFile < all.entries.countP isItem ∨
    limits.textCap < all.textBytes

variable {path : LogicalPath} {source : Bytes} {limits : ParserLimits} {all more : Found}
  {kept : List Entry} {x : Extractor} {range : SourceRange}

theorem build_concat (path : LogicalPath) (entries : List Entry) (entry : Entry) :
    build path (entries ++ [entry]) = (build path entries).add entry :=
  List.foldl_append ..

theorem found_append_assoc (a b c : Found) : (a.append b).append c = a.append (b.append c) := by
  simp [Found.append,List.append_assoc,Nat.add_assoc]

theorem found_append_empty (a : Found) : a.append .empty = a := by
  simp [Found.append,Found.empty]

theorem taken_new (path : LogicalPath) (source : Bytes) (limits : ParserLimits) :
    Taken path source limits .empty [] (Extractor.new path source limits) where
  sameSource := rfl
  sameLimits := rfl
  analysis := rfl
  own := rfl
  part := List.Sublist.refl _
  notes := rfl
  complete _ := ⟨rfl,rfl⟩
  items := rfl
  itemsWithin := Nat.zero_le _
  bytesWithin := Nat.zero_le _
  exceeded := nofun

namespace Taken

theorem own_append (h : Taken path source limits all kept x) (hown : more.entries.all (fun entry => entry.2.own entry.1) = true) :
    (all.append more).entries.all (fun entry => entry.2.own entry.1) = true := by
  rw [Found.append,List.all_append,h.own,hown]
  rfl

theorem exceeded_append (h : limits.maxSemanticItemsPerFile < all.entries.countP isItem ∨
    limits.textCap < all.textBytes) (more : Found) :
    limits.maxSemanticItemsPerFile < (all.append more).entries.countP isItem ∨
      limits.textCap < (all.append more).textBytes := by
  rw [Found.append,List.countP_append]
  dsimp only
  omega

/-- A limited extractor passes findings over. -/
theorem skip (h : Taken path source limits all kept x) (hlimited : x.limited = true)
    (hown : more.entries.all (fun entry => entry.2.own entry.1) = true) : Taken path source limits (all.append more) kept x :=
  { h with
    own := h.own_append hown
    part := h.part.trans (List.sublist_append_left ..)
    complete := fun hfree => by rw [hlimited] at hfree; cases hfree
    exceeded := fun hlimit => exceeded_append (h.exceeded hlimit) more }

/-- A refusal is reported unless one has been, and the budget is less than what was found. -/
theorem refuse (h : Taken path source limits all kept x) (message : String)
    (hown : more.entries.all (fun entry => entry.2.own entry.1) = true)
    (hexceeded : x.limited = false →
      limits.maxSemanticItemsPerFile < (all.append more).entries.countP isItem ∨
        limits.textCap < (all.append more).textBytes) :
    ∃ kept', Taken path source limits (all.append more) kept' (x.refuse message range) := by
  unfold Extractor.refuse
  cases hlimited : x.limited with
  | true => exact ⟨kept,by rw [if_pos rfl]; exact h.skip hlimited hown⟩
  | false =>
    rw [if_neg Bool.false_ne_true]
    let note : Entry := (range,.report .warning .extractionLimitReached message)
    have hnote : isLimit note = true := by simp [note,isLimit]
    have hitem : isItem note = false := rfl
    refine ⟨kept ++ [note],h.sameSource,h.sameLimits,?_,h.own_append hown,?_,?_,?_,?_,h.itemsWithin,
      h.bytesWithin,fun _ => hexceeded hlimited⟩
    · rw [build_concat,← h.analysis]
      rfl
    · rw [List.filter_append,List.filter_singleton,hnote]
      rw [Bool.not_true,Bool.cond_false,List.append_nil]
      exact h.part.trans (List.sublist_append_left ..)
    · rw [List.countP_append,h.notes,hlimited,List.countP_singleton,hnote]
      rfl
    · intro hfree
      cases hfree
    · rw [List.countP_append,List.countP_singleton,hitem]
      exact h.items

theorem keep {y : Extractor} {entry : Entry} (h : Taken path source limits all kept x)
    (hown : entry.2.own entry.1 = true) (hsource : y.source = x.source) (hlimits : y.limits = x.limits)
    (hanalysis : y.analysis = x.analysis.add entry) (hlimited : y.limited = x.limited)
    (hbytes : y.textBytes = x.textBytes) (hitems : y.items = x.items + if isItem entry then 1 else 0)
    (hwithin : y.items ≤ limits.maxSemanticItemsPerFile) :
    Taken path source limits (all.append ⟨[entry],0⟩) (kept ++ [entry]) y := by
  have hnot : isLimit entry = false := isLimit_of_own hown
  refine ⟨hsource.trans h.sameSource,hlimits.trans h.sameLimits,?_,h.own_append (by simpa using hown),?_,?_,?_,?_,
    hwithin,hbytes ▸ h.bytesWithin,fun hlimit => exceeded_append (h.exceeded (hlimited ▸ hlimit)) _⟩
  · rw [hanalysis,build_concat,h.analysis]
  · rw [List.filter_append,List.filter_singleton,hnot]
    exact h.part.append (List.Sublist.refl _)
  · rw [List.countP_append,h.notes,List.countP_singleton,hnot,hlimited]
    simp
  · intro hfree
    obtain ⟨hkept,htext⟩ := h.complete (hlimited ▸ hfree)
    exact ⟨by rw [hkept]; rfl,hbytes.trans htext⟩
  · rw [hitems,List.countP_append,List.countP_singleton,h.items]

theorem take (h : Taken path source limits all kept x) {finding : Finding} (hown : finding.own range = true) :
    ∃ kept', Taken path source limits (all.append ⟨[(range,finding)],0⟩) kept' (x.take range finding) := by
  cases finding with
  | report severity code message =>
    exact ⟨_,h.keep hown rfl rfl rfl rfl rfl rfl h.itemsWithin⟩
  | item value =>
    rw [Extractor.take,Extractor.add,Extractor.allow]
    by_cases hroom : x.items < x.limits.maxSemanticItemsPerFile
    · rw [if_pos hroom]
      rw [h.sameLimits] at hroom
      exact ⟨_,h.keep hown rfl rfl rfl rfl rfl rfl hroom⟩
    · rw [if_neg hroom]
      refine h.refuse _ (by simpa using hown) fun hfree => .inl ?_
      have hall := (h.complete hfree).1
      have hitems := h.items
      rw [h.sameLimits] at hroom
      rw [hall] at hitems
      rw [Found.append,List.countP_append,List.countP_singleton,isItem,if_pos rfl]
      omega

theorem takeAll (h : Taken path source limits all kept x) {findings : List Finding}
    (hown : findings.all (Finding.own range) = true) :
    ∃ kept', Taken path source limits (all.append ⟨findings.map (Prod.mk range),0⟩) kept'
      (x.takeAll range findings) := by
  induction findings generalizing all kept x with
  | nil => exact ⟨kept,by rw [show (⟨[].map (Prod.mk range),0⟩ : Found) = .empty from rfl,found_append_empty]; exact h⟩
  | cons finding rest ih =>
    simp only [List.all_cons,Bool.and_eq_true] at hown
    obtain ⟨first,hfirst⟩ := h.take hown.1
    obtain ⟨later,hlater⟩ := ih hfirst hown.2
    rw [found_append_assoc] at hlater
    exact ⟨later,hlater⟩

theorem takeContents (h : Taken path source limits all kept x) {contents : NodeContents}
    (howned : contents.Owned range) :
    ∃ kept', Taken path source limits
      (all.append (Found.append ⟨contents.outright.map (Prod.mk range),0⟩ (readFound source contents range)))
      kept' (x.takeContents contents range) := by
  obtain ⟨first,hfirst⟩ := h.takeAll howned.outright
  rw [← found_append_assoc,Extractor.takeContents]
  generalize x.takeAll range contents.outright = y at hfirst ⊢
  cases hread : contents.read with
  | none => exact ⟨first,by rw [readFound,hread,found_append_empty]; exact hfirst⟩
  | some node =>
    obtain rfl := hfirst.sameSource
    rw [withText_some,readFound,hread]
    simp only [Extractor.text]
    cases hvalue : fromUtf8 (unwrapped (node.bytes y.source)) with
    | none => exact ⟨_,hfirst.keep (rfl : invalidText.own range = true) rfl rfl rfl rfl rfl rfl hfirst.itemsWithin⟩
    | some value =>
      dsimp only
      have hsame := hfirst.sameLimits
      split
      · next hroom =>
        have hcounted : Taken path y.source limits
            ((all.append _).append ⟨[],(unwrapped (node.bytes y.source)).length⟩) first
            { y with textBytes := y.textBytes + (unwrapped (node.bytes y.source)).length } :=
          { hfirst with
            own := hfirst.own_append rfl
            part := hfirst.part.trans (List.sublist_append_left ..)
            complete := fun hfree => by
              obtain ⟨hkept,hbytes⟩ := hfirst.complete hfree
              exact ⟨by rw [Found.append,List.append_nil]; exact hkept,by rw [Found.append,hbytes]⟩
            bytesWithin := by
              rw [hsame] at hroom
              exact le_min hroom.1 hroom.2
            exceeded := fun hlimit => exceeded_append (hfirst.exceeded hlimit) _ }
        obtain ⟨later,hlater⟩ := hcounted.takeAll (howned.inText (trim value))
        refine ⟨later,?_⟩
        rw [found_append_assoc] at hlater
        simpa [Found.append] using hlater
      · next hroom =>
        refine hfirst.refuse _ ?_ fun hfree => .inr ?_
        · rw [List.all_map]
          exact howned.inText (trim value)
        · rw [hsame] at hroom
          rw [Found.append,← (hfirst.complete hfree).2,ParserLimits.textCap]
          dsimp only
          omega

theorem visit (h : Taken path source limits all kept x) {node : SyntaxNode}
    (hrange : SourceRange.fromTreeSitter node.range = .ok range) :
    ∃ y kept', Parser.visit node x = .ok y ∧
      Taken path source limits (all.append (nodeFound source node range)) kept' y := by
  rw [visit_eq,hrange,h.sameSource]
  let contents : NodeContents :=
    { kindContents source node (commandName source node) range with
      outright := nodeFindings node (commandName source node) range ++
        (kindContents source node (commandName source node) range).outright }
  have howned := kindContents_owned source node (commandName source node) range
  have hcontents : contents.Owned range :=
    ⟨by rw [List.all_append,nodeFindings_own,howned.outright]; rfl,howned.inText⟩
  obtain ⟨kept',htaken⟩ := h.takeContents hcontents
  refine ⟨_,kept',rfl,?_⟩
  rw [Extractor.takeContents,takeAll_append] at htaken
  exact htaken

end Taken

mutual
/-- A walk fails where the findings cannot be placed, and otherwise takes them. -/
theorem walk_taken (node : SyntaxNode) {all : Found} {kept : List Entry} {x : Extractor}
    (h : Taken path source limits all kept x) :
    (∃ error, found source node = .error error ∧ walk node x = .error error) ∨
      ∃ more y kept', found source node = .ok more ∧ walk node x = .ok y ∧
        Taken path source limits (all.append more) kept' y := by
  obtain ⟨kind,fields,named,error,missing,range,children⟩ := node
  rw [found,walk]
  cases hrange : SourceRange.fromTreeSitter range with
  | error e =>
    refine .inl ⟨e,rfl,?_⟩
    rw [visit_eq]
    simp only [SyntaxNode.range,hrange]
    rfl
  | ok sourceRange =>
    obtain ⟨y,first,hvisit,hfirst⟩ : ∃ y kept', visit (.node kind fields named error missing range children) x = .ok y ∧
        Taken path source limits
          (all.append (nodeFound source (.node kind fields named error missing range children) sourceRange)) kept' y :=
      h.visit hrange
    rw [hvisit]
    rcases walkAll_taken children hfirst with ⟨e,hfound,hwalk⟩ | ⟨more,z,kept',hfound,hwalk,htaken⟩
    · exact .inl ⟨e,by simp only [bind,Except.bind,hfound],hwalk⟩
    · refine .inr ⟨_,z,kept',by simp only [bind,Except.bind,hfound]; rfl,hwalk,?_⟩
      rw [← found_append_assoc]
      exact htaken

theorem walkAll_taken (nodes : List SyntaxNode) {all : Found} {kept : List Entry} {x : Extractor}
    (h : Taken path source limits all kept x) :
    (∃ error, foundAll source nodes = .error error ∧ walkAll nodes x = .error error) ∨
      ∃ more y kept', foundAll source nodes = .ok more ∧ walkAll nodes x = .ok y ∧
        Taken path source limits (all.append more) kept' y := by
  cases nodes with
  | nil => exact .inr ⟨.empty,x,kept,rfl,rfl,by rw [found_append_empty]; exact h⟩
  | cons node rest =>
    rw [foundAll,walkAll]
    rcases walk_taken node h with ⟨e,hfound,hwalk⟩ | ⟨first,y,kept',hfound,hwalk,htaken⟩
    · exact .inl ⟨e,by rw [hfound]; rfl,by rw [hwalk]; rfl⟩
    · rw [hfound,hwalk]
      rcases walkAll_taken rest htaken with ⟨e,hrest,hwalkRest⟩ | ⟨later,z,kept',hrest,hwalkRest,htaken'⟩
      · exact .inl ⟨e,by simp only [bind,Except.bind,hrest],hwalkRest⟩
      · refine .inr ⟨_,z,kept',by simp only [bind,Except.bind,hrest]; rfl,hwalkRest,?_⟩
        rw [← found_append_assoc]
        exact htaken'
end

/-! ## Parts of analyses -/

/-- The numbers of items in the lists of an analysis, added up. -/
def FileAnalysis.itemCount (a : FileAnalysis) : ℕ :=
  a.documentClasses.length + a.packages.length + a.sections.length + a.environments.length +
    a.labels.length + a.references.length + a.citations.length + a.dependencies.length +
    a.macros.length + a.commands.length + a.mathRegions.length + a.comments.length + a.directives.length

def FileAnalysis.limitReports (a : FileAnalysis) : List ParserDiagnostic :=
  a.diagnostics.filter (fun diagnostic => diagnostic.code = .extractionLimitReached)

/-- Every list of items of the one is a subsequence of that of the other. -/
structure FileAnalysis.Within (a b : FileAnalysis) : Prop where
  path : a.path = b.path
  documentClasses : a.documentClasses.Sublist b.documentClasses
  packages : a.packages.Sublist b.packages
  sections : a.sections.Sublist b.sections
  environments : a.environments.Sublist b.environments
  labels : a.labels.Sublist b.labels
  references : a.references.Sublist b.references
  citations : a.citations.Sublist b.citations
  dependencies : a.dependencies.Sublist b.dependencies
  macros : a.macros.Sublist b.macros
  commands : a.commands.Sublist b.commands
  mathRegions : a.mathRegions.Sublist b.mathRegions
  comments : a.comments.Sublist b.comments
  directives : a.directives.Sublist b.directives

namespace FileAnalysis

theorem Within.refl (a : FileAnalysis) : a.Within a := by
  constructor
  · rfl
  all_goals exact List.Sublist.refl _

theorem Within.add_both {a b : FileAnalysis} (h : a.Within b) (entry : Entry) :
    (a.add entry).Within (b.add entry) := by
  obtain ⟨range,finding⟩ := entry
  cases finding with
  | report severity code message => exact { h with }
  | item value =>
    cases value with
    | documentClass value => exact { h with documentClasses := h.documentClasses.append (.refl _) }
    | package value => exact { h with packages := h.packages.append (.refl _) }
    | section_ value => exact { h with sections := h.sections.append (.refl _) }
    | environment value => exact { h with environments := h.environments.append (.refl _) }
    | label value => exact { h with labels := h.labels.append (.refl _) }
    | reference value => exact { h with references := h.references.append (.refl _) }
    | citation value => exact { h with citations := h.citations.append (.refl _) }
    | dependency value => exact { h with dependencies := h.dependencies.append (.refl _) }
    | macro_ value => exact { h with macros := h.macros.append (.refl _) }
    | command value => exact { h with commands := h.commands.append (.refl _) }
    | mathRegion value => exact { h with mathRegions := h.mathRegions.append (.refl _) }
    | comment value => exact { h with comments := h.comments.append (.refl _) }
    | directive value => exact { h with directives := h.directives.append (.refl _) }

theorem Within.add_right {a b : FileAnalysis} (h : a.Within b) (entry : Entry) : a.Within (b.add entry) := by
  obtain ⟨range,finding⟩ := entry
  cases finding with
  | report severity code message => exact { h with }
  | item value =>
    cases value with
    | documentClass value => exact { h with documentClasses := h.documentClasses.trans (List.sublist_append_left ..) }
    | package value => exact { h with packages := h.packages.trans (List.sublist_append_left ..) }
    | section_ value => exact { h with sections := h.sections.trans (List.sublist_append_left ..) }
    | environment value => exact { h with environments := h.environments.trans (List.sublist_append_left ..) }
    | label value => exact { h with labels := h.labels.trans (List.sublist_append_left ..) }
    | reference value => exact { h with references := h.references.trans (List.sublist_append_left ..) }
    | citation value => exact { h with citations := h.citations.trans (List.sublist_append_left ..) }
    | dependency value => exact { h with dependencies := h.dependencies.trans (List.sublist_append_left ..) }
    | macro_ value => exact { h with macros := h.macros.trans (List.sublist_append_left ..) }
    | command value => exact { h with commands := h.commands.trans (List.sublist_append_left ..) }
    | mathRegion value => exact { h with mathRegions := h.mathRegions.trans (List.sublist_append_left ..) }
    | comment value => exact { h with comments := h.comments.trans (List.sublist_append_left ..) }
    | directive value => exact { h with directives := h.directives.trans (List.sublist_append_left ..) }

/-- A report is not in a list of items. -/
theorem Within.add_limit {a b : FileAnalysis} (h : a.Within b) {entry : Entry} (hentry : isLimit entry = true) :
    (a.add entry).Within b := by
  obtain ⟨range,finding⟩ := entry
  cases finding with
  | report severity code message => exact { h with }
  | item value => cases hentry

theorem Within.build {kept all : List Entry} (hpart : (kept.filter (!isLimit ·)).Sublist all)
    {a b : FileAnalysis} (h : a.Within b) : (kept.foldl add a).Within (all.foldl add b) := by
  induction kept generalizing all a b with
  | nil =>
    induction all generalizing b with
    | nil => exact h
    | cons entry all ih => exact ih (List.nil_sublist _) (h.add_right entry)
  | cons entry kept ih =>
    cases hlimit : isLimit entry with
    | true =>
      rw [List.filter_cons_of_neg (by simp [hlimit])] at hpart
      exact ih hpart (h.add_limit hlimit)
    | false =>
      rw [List.filter_cons_of_pos (by simp [hlimit])] at hpart
      induction all generalizing b with
      | nil => cases hpart
      | cons other all ihall =>
        cases hpart with
        | cons _ hrest => exact ihall hrest (h.add_right other)
        | cons_cons _ hrest => exact ih hrest (h.add_both entry)

theorem itemCount_add (a : FileAnalysis) (entry : Entry) :
    (a.add entry).itemCount = a.itemCount + if isItem entry then 1 else 0 := by
  obtain ⟨range,finding⟩ := entry
  cases finding with
  | report severity code message => rfl
  | item value =>
    cases value <;> simp only [add,push,itemCount,isItem,List.length_append,List.length_singleton,if_true] <;> omega

theorem itemCount_build (path : LogicalPath) (entries : List Entry) :
    (Parser.build path entries).itemCount = entries.countP isItem := by
  induction entries using List.reverseRecOn with
  | nil => rfl
  | append_singleton entries entry ih =>
    rw [build_concat,itemCount_add,ih,List.countP_append,List.countP_singleton]

end FileAnalysis

def diagnosticOf (entry : Entry) : Option ParserDiagnostic :=
  match entry.2 with
  | .report severity code message => some ⟨severity,code,message,some entry.1⟩
  | .item _ => none

theorem diagnostics_build (path : LogicalPath) (entries : List Entry) :
    (build path entries).diagnostics = entries.filterMap diagnosticOf := by
  induction entries using List.reverseRecOn with
  | nil => rfl
  | append_singleton entries entry ih =>
    rw [build_concat,List.filterMap_append,← ih]
    obtain ⟨range,finding⟩ := entry
    cases finding with
    | report severity code message => rfl
    | item value => cases value <;> simp [FileAnalysis.add,FileAnalysis.push,diagnosticOf]

theorem limitReports_build (path : LogicalPath) (entries : List Entry) :
    (build path entries).sorted.limitReports.length = entries.countP isLimit := by
  have hperm : (build path entries).sorted.diagnostics.Perm (build path entries).diagnostics :=
    List.mergeSort_perm ..
  rw [FileAnalysis.limitReports,← List.countP_eq_length_filter,hperm.countP_eq,diagnostics_build,
    List.countP_filterMap]
  refine List.countP_congr fun entry _ => ?_
  obtain ⟨range,finding⟩ := entry
  cases finding <;> simp [diagnosticOf,isLimit]

/-! ## What a project relies on -/

def FileAnalysis.linked (a : FileAnalysis) : List SemanticItem :=
  a.labels.map .label ++ a.references.map .reference ++ a.citations.map .citation ++
    a.dependencies.map .dependency

theorem mem_linked_add {a : FileAnalysis} {entry : Entry} {item : SemanticItem}
    (h : item ∈ (a.add entry).linked) : item ∈ a.linked ∨ entry.2 = .item item := by
  obtain ⟨range,finding⟩ := entry
  cases finding with
  | report severity code message => exact .inl h
  | item value =>
    cases value <;>
      simp only [FileAnalysis.add,FileAnalysis.push,FileAnalysis.linked,List.map_append,List.mem_append,
        List.map_singleton,List.mem_singleton] at h ⊢ <;> grind

theorem mem_linked_build {entries : List Entry} {item : SemanticItem} (h : item ∈ (build path entries).linked) :
    ∃ entry ∈ entries, entry.2 = .item item := by
  induction entries using List.reverseRecOn with
  | nil => cases h
  | append_singleton entries entry ih =>
    rw [build_concat] at h
    rcases mem_linked_add h with h | h
    · obtain ⟨other,hmem,heq⟩ := ih h
      exact ⟨other,List.mem_append_left _ hmem,heq⟩
    · exact ⟨entry,by simp,h⟩

structure FileAnalysis.Placed (ranges : List NodeRange) (analysis : FileAnalysis) : Prop where
  reports : ∀ diagnostic ∈ analysis.diagnostics, diagnostic.code = .extractionLimitReached ∨
    ((diagnostic.severity,diagnostic.code,diagnostic.message) ∈ ownReports ∧
      ∃ range, diagnostic.range = some range ∧ RangeOf ranges range)
  limitReports : analysis.limitReports.length ≤ 1
  linked : ∀ item ∈ analysis.linked, RangeOf ranges item.range

theorem analyzeFile_placed {root : SyntaxNode} {analysis : FileAnalysis}
    (h : analyzeFile path source root limits = .ok analysis) : analysis.Placed root.ranges := by
  unfold analyzeFile at h
  rcases walk_taken root (taken_new path source limits) with
    ⟨error,-,hwalk⟩ | ⟨more,x,kept,hfound,hwalk,htaken⟩
  · rw [hwalk] at h
    cases h
  · rw [hwalk] at h
    obtain rfl : x.analysis.sorted = analysis := Except.ok.inj h
    have hall : Found.append .empty more = more := by simp [Found.append,Found.empty]
    rw [hall] at htaken
    have hplaced : ∀ entry ∈ kept, isLimit entry = false →
        entry.2.own entry.1 = true ∧ RangeOf root.ranges entry.1 := by
      intro entry hentry hnot
      have hmem := htaken.part.subset (List.mem_filter.mpr ⟨hentry,by rw [hnot]; rfl⟩)
      exact ⟨List.all_eq_true.mp htaken.own entry hmem,found_ranges root hfound entry hmem⟩
    rw [htaken.analysis]
    refine ⟨?_,?_,?_⟩
    · intro diagnostic hdiagnostic
      rw [FileAnalysis.sorted,List.mem_mergeSort,diagnostics_build] at hdiagnostic
      obtain ⟨⟨range,finding⟩,hentry,hof⟩ := List.mem_filterMap.mp hdiagnostic
      cases finding with
      | item value => cases hof
      | report severity code message =>
        obtain rfl := Option.some.inj hof
        by_cases hcode : code = .extractionLimitReached
        · exact .inl hcode
        · obtain ⟨hown,hrange⟩ := hplaced _ hentry (by simpa [isLimit] using hcode)
          exact .inr ⟨by simpa [Finding.own] using hown,range,rfl,hrange⟩
    · rw [limitReports_build,htaken.notes]
      split <;> omega
    · intro item hitem
      obtain ⟨⟨range,finding⟩,hentry,hof⟩ := mem_linked_build hitem
      dsimp only at hof
      subst hof
      obtain ⟨hown,hrange⟩ := hplaced _ hentry rfl
      rw [Finding.own,decide_eq_true_eq] at hown
      rwa [hown]

/-! ## The contract -/

def textBytes (source : Bytes) (root : SyntaxNode) : ℕ := ((found source root).toOption.map Found.textBytes).getD 0

/-- The limits of an analysis are kept and never silent: without the report of a limit it is the
analysis without limits, and otherwise it has one report and a part of each list. -/
theorem limits_never_silent (path : LogicalPath) (source : Bytes) (root : SyntaxNode) (limits : ParserLimits) :
    (∀ error, analyzeFile path source root limits = .error error ↔
      unlimitedAnalysis path source root = .error error) ∧
    ∀ analysis, analyzeFile path source root limits = .ok analysis →
      ∃ full, unlimitedAnalysis path source root = .ok full ∧
        (∃ x, walk root (Extractor.new path source limits) = .ok x ∧ analysis = x.analysis.sorted ∧
          x.textBytes ≤ limits.maxExtractedTextBytes) ∧
        analysis.itemCount ≤ limits.maxSemanticItemsPerFile ∧
        (analysis.limitReports = [] → analysis = full) ∧
        (analysis.limitReports ≠ [] → analysis.limitReports.length = 1 ∧ analysis.Within full) ∧
        (analysis.limitReports = [] ↔ full.itemCount ≤ limits.maxSemanticItemsPerFile ∧
          textBytes source root ≤ limits.textCap) := by
  unfold unlimitedAnalysis analyzeFile
  rcases walk_taken root (taken_new path source limits) with
    ⟨error,hfound,hwalk⟩ | ⟨more,x,kept,hfound,hwalk,htaken⟩
  · rw [hfound,hwalk]
    exact ⟨fun _ => Iff.rfl,nofun⟩
  · rw [hfound,hwalk]
    refine ⟨fun _ => ⟨nofun,nofun⟩,fun analysis hanalysis => ?_⟩
    obtain rfl : x.analysis.sorted = analysis := Except.ok.inj hanalysis
    have hall : Found.append .empty more = more := by simp [Found.append,Found.empty]
    rw [hall] at htaken
    have hcount : x.analysis.sorted.limitReports.length = if x.limited then 1 else 0 := by
      rw [htaken.analysis,limitReports_build,htaken.notes]
    have hnone : x.analysis.sorted.limitReports = [] ↔ x.limited = false := by
      rw [← List.length_eq_zero_iff,hcount]
      cases x.limited <;> simp
    have hitems : ∀ entries, (build path entries).sorted.itemCount = entries.countP isItem :=
      FileAnalysis.itemCount_build path
    have hbytes : textBytes source root = more.textBytes := by rw [textBytes,hfound]; rfl
    refine ⟨(build path more.entries).sorted,rfl,⟨x,rfl,rfl,htaken.bytesWithin.trans (min_le_right ..)⟩,
      ?_,?_,?_,?_⟩
    · rw [htaken.analysis,hitems,← htaken.items]
      exact htaken.itemsWithin
    · intro hreports
      rw [htaken.analysis,(htaken.complete (hnone.mp hreports)).1]
    · intro hreports
      refine ⟨by rw [hcount,if_pos (by simpa using mt hnone.mpr hreports)],?_⟩
      rw [htaken.analysis]
      exact { FileAnalysis.Within.build htaken.part (.refl (.empty path)) with }
    · rw [hnone,hitems,hbytes]
      constructor
      · intro hfree
        obtain ⟨hkept,htext⟩ := htaken.complete hfree
        rw [← hkept,← htaken.items,← htext]
        exact ⟨htaken.itemsWithin,htaken.bytesWithin⟩
      · rintro ⟨hwithin,hcap⟩
        by_contra hlimited
        rcases htaken.exceeded (by simpa using hlimited) with h | h <;> omega

end LatexCore.Parser
