import LatexCore.Parser.Passes

/-! # The graph of the sources and its cycles

An edge goes from a file to one that it names by an input, an include or a subfile. The
bibliography pass follows the edges from the main file until a pass over them adds
nothing. The cycle pass searches the graph depth first: it reports files on cycles only,
at least one in each component with a cycle and none twice, and it ends on every graph.
-/
namespace LatexCore.Parser
open Core Foundation Workspace Std Relation

/-! ## Edges -/

/-- The first file names the second by an input, an include or a subfile. -/
def SourceEdge (edges : List ProjectDependencyEdge) (a b : LogicalPath) : Prop :=
  ∃ edge ∈ edges, edge.from_ = a ∧ edge.source? = some b

variable {edges : List ProjectDependencyEdge} {mainFile file a b : LogicalPath}

theorem adjacency_concat (edges : List ProjectDependencyEdge) (edge : ProjectDependencyEdge) :
    adjacency (edges ++ [edge]) = addAdjacency (adjacency edges) edge := List.foldl_append ..

theorem mem_targets_insert (adjacency : PathMap PathSet) (c : LogicalPath) (set : PathSet) :
    b ∈ targets (adjacency.insert c set) a ↔ if c = a then b ∈ set else b ∈ targets adjacency a := by
  unfold targets
  rw [ExtTreeMap.getElem?_insert]
  by_cases h : c = a
  · subst h
    simp [ExtTreeSet.mem_toList]
  · rw [if_neg (by simpa using h),if_neg h]

theorem mem_targets_getD (adjacency : PathMap PathSet) :
    b ∈ targets adjacency a ↔ b ∈ adjacency[a]?.getD ∅ := by
  unfold targets
  cases adjacency[a]? with
  | none => simp
  | some set => simp [ExtTreeSet.mem_toList]

theorem mem_targets_add (adjacency : PathMap PathSet) (edge : ProjectDependencyEdge) :
    b ∈ targets (addAdjacency adjacency edge) a ↔
      b ∈ targets adjacency a ∨ edge.from_ = a ∧ edge.source? = some b := by
  unfold addAdjacency
  cases htarget : edge.source? with
  | none => simp
  | some target =>
    rw [mem_targets_insert]
    by_cases h : edge.from_ = a
    · subst h
      rw [if_pos rfl,ExtTreeSet.mem_insert,mem_targets_getD,Std.compare_eq_iff_eq]
      simp [or_comm]
    · simp [h]

theorem mem_targets : b ∈ targets (adjacency edges) a ↔ SourceEdge edges a b := by
  induction edges using List.reverseRecOn with
  | nil => simp [targets,adjacency,SourceEdge]
  | append_singleton edges edge ih =>
    rw [adjacency_concat,mem_targets_add,ih]
    simp [SourceEdge,or_and_right,exists_or]

theorem edge_targets : DepthFirst.Edge (targets (adjacency edges)) = SourceEdge edges := by
  funext a b
  exact propext mem_targets

theorem mem_keys_of_targets {adjacency : PathMap PathSet} (h : targets adjacency a ≠ []) :
    a ∈ adjacency.keys := by
  rw [ExtTreeMap.mem_keys,ExtTreeMap.mem_iff_isSome_getElem?]
  unfold targets at h
  cases hget : adjacency[a]? with
  | none => exact absurd (by rw [hget]; rfl) h
  | some set => rfl

/-! ## The files that the edges name -/

def named (edges : List ProjectDependencyEdge) : List LogicalPath :=
  edges.map ProjectDependencyEdge.from_ ++ edges.filterMap ProjectDependencyEdge.source?

theorem named_length (edges : List ProjectDependencyEdge) : (named edges).length ≤ 2 * edges.length := by
  have hle := List.length_filterMap_le ProjectDependencyEdge.source? edges
  rw [named,List.length_append,List.length_map]
  omega

theorem SourceEdge.target_named (h : SourceEdge edges a b) : b ∈ named edges := by
  obtain ⟨edge,hedge,-,htarget⟩ := h
  exact List.mem_append_right _ (List.mem_filterMap.mpr ⟨edge,hedge,htarget⟩)

theorem keys_named (h : a ∈ (adjacency edges).keys) : a ∈ named edges := by
  rw [ExtTreeMap.mem_keys] at h
  have hfrom : ∃ edge ∈ edges, edge.from_ = a := by
    induction edges using List.reverseRecOn with
    | nil => simp [adjacency] at h
    | append_singleton edges edge ih =>
      rw [adjacency_concat] at h
      have hcases : a ∈ adjacency edges ∨ edge.from_ = a := by
        unfold addAdjacency at h
        cases htarget : edge.source? with
        | none =>
          rw [htarget] at h
          exact .inl h
        | some target =>
          rw [htarget] at h
          rcases ExtTreeMap.mem_insert.mp h with h | h
          · exact .inr (Std.compare_eq_iff_eq.mp h)
          · exact .inl h
      rcases hcases with h | h
      · obtain ⟨other,hmem,heq⟩ := ih h
        exact ⟨other,List.mem_append_left _ hmem,heq⟩
      · exact ⟨edge,by simp,h⟩
  obtain ⟨edge,hedge,rfl⟩ := hfrom
  exact List.mem_append_left _ (List.mem_map_of_mem hedge)

/-! ## The reachable sources -/

def Reachable (edges : List ProjectDependencyEdge) (mainFile file : LogicalPath) : Prop :=
  ReflTransGen (SourceEdge edges) mainFile file

def members (set : PathSet) : Finset LogicalPath := set.toList.toFinset

theorem mem_members {set : PathSet} : file ∈ members set ↔ file ∈ set := by
  rw [members,List.mem_toFinset,ExtTreeSet.mem_toList]

theorem members_card (set : PathSet) : (members set).card = set.size := by
  have hnodup : set.toList.Nodup :=
    ExtTreeSet.distinct_toList.imp fun hne heq => hne (Std.compare_eq_iff_eq.mpr heq)
  rw [members,List.toFinset_card_of_nodup hnodup,ExtTreeSet.length_toList]

theorem mem_addSource {set : PathSet} {edge : ProjectDependencyEdge} :
    file ∈ addSource set edge ↔ file ∈ set ∨ edge.from_ ∈ set ∧ edge.source? = some file := by
  unfold addSource
  by_cases hfrom : edge.from_ ∈ set
  · rw [if_pos hfrom]
    cases edge.source? with
    | none => simp
    | some target =>
      rw [Option.elim_some,ExtTreeSet.mem_insert,Std.compare_eq_iff_eq]
      simp [hfrom,or_comm]
  · simp [hfrom]

theorem mem_pass_of_mem {set : PathSet} (h : file ∈ set) : file ∈ edges.foldl addSource set := by
  induction edges generalizing set with
  | nil => exact h
  | cons edge rest ih => exact ih (mem_addSource.mpr (.inl h))

theorem mem_pass_of_edge {set : PathSet} {target : LogicalPath} (hfile : file ∈ set)
    (hedge : SourceEdge edges file target) : target ∈ edges.foldl addSource set := by
  obtain ⟨edge,hmem,hfrom,htarget⟩ := hedge
  induction edges generalizing set with
  | nil => cases hmem
  | cons first rest ih =>
    rcases List.mem_cons.mp hmem with rfl | hmem
    · rw [List.foldl_cons]
      exact mem_pass_of_mem (mem_addSource.mpr (.inr ⟨hfrom ▸ hfile,htarget⟩))
    · exact ih (mem_addSource.mpr (.inl hfile)) hmem

def Sources (edges : List ProjectDependencyEdge) (mainFile : LogicalPath) (set : PathSet) : Prop :=
  mainFile ∈ set ∧ ∀ file ∈ set, Reachable edges mainFile file

theorem Sources.pass {set : PathSet} (h : Sources edges mainFile set) :
    Sources edges mainFile (edges.foldl addSource set) := by
  have hloop : ∀ (part : List ProjectDependencyEdge) (set : PathSet), part ⊆ edges →
      Sources edges mainFile set → Sources edges mainFile (part.foldl addSource set) := by
    intro part
    induction part with
    | nil => exact fun set _ h => h
    | cons edge rest ih =>
      intro set hsub h
      obtain ⟨hedge,hrest⟩ := List.cons_subset.mp hsub
      refine ih _ hrest ⟨mem_addSource.mpr (.inl h.1),fun file hfile => ?_⟩
      rcases mem_addSource.mp hfile with hfile | ⟨hfrom,htarget⟩
      · exact h.2 file hfile
      · exact (h.2 _ hfrom).tail ⟨edge,hedge,rfl,htarget⟩
  exact hloop edges set (List.Subset.refl _) h

theorem Sources.card_le {set : PathSet} (h : Sources edges mainFile set) : set.size ≤ 2 * edges.length + 1 := by
  have hsub : members set ⊆ (mainFile :: named edges).toFinset := by
    intro file hfile
    rw [List.mem_toFinset]
    rcases (h.2 file (mem_members.mp hfile)).cases_tail with heq | ⟨other,-,hedge⟩
    · exact heq ▸ List.mem_cons_self
    · exact List.mem_cons_of_mem _ hedge.target_named
  calc set.size = (members set).card := (members_card set).symm
    _ ≤ (mainFile :: named edges).length := (Finset.card_le_card hsub).trans (List.toFinset_card_le _)
    _ ≤ 2 * edges.length + 1 := Nat.succ_le_succ (named_length edges)

theorem sources_main (edges : List ProjectDependencyEdge) (mainFile : LogicalPath) :
    Sources edges mainFile ((∅ : PathSet).insert mainFile) := by
  refine ⟨ExtTreeSet.mem_insert_self,fun file hfile => ?_⟩
  rw [ExtTreeSet.mem_insert,Std.compare_eq_iff_eq] at hfile
  obtain rfl := hfile.resolve_right ExtTreeSet.not_mem_empty
  exact .refl

theorem size_le_pass (set : PathSet) : set.size ≤ (edges.foldl addSource set).size := by
  rw [← members_card,← members_card]
  exact Finset.card_le_card fun file hfile => mem_members.mpr (mem_pass_of_mem (mem_members.mp hfile))

theorem reachableSources_returns (mainFile : LogicalPath) (edges : List ProjectDependencyEdge) {fuel : ℕ}
    (hfuel : 2 * edges.length < fuel) : ∃ reachable, reachableSources fuel mainFile edges = some reachable := by
  have hmain : ((∅ : PathSet).insert mainFile).size = 1 := by simp [ExtTreeSet.size_insert]
  refine untilStable_returns (Sources edges mainFile) (fun _ => Sources.pass) (fun set _ => size_le_pass set)
    (fun _ => Sources.card_le) (sources_main edges mainFile) ?_
  omega

/-- The loop ends with the reachable files. -/
theorem mem_reachableSources {fuel : ℕ} {reachable : PathSet}
    (h : reachableSources fuel mainFile edges = some reachable) :
    file ∈ reachable ↔ Reachable edges mainFile file := by
  obtain ⟨set,hset,rfl,hsize⟩ :=
    untilStable_cases (Sources edges mainFile) (fun _ => Sources.pass) h (sources_main edges mainFile)
  refine ⟨hset.pass.2 file,fun hreach => ?_⟩
  have hsame : members set = members (edges.foldl addSource set) :=
    Finset.eq_of_subset_of_card_le
      (fun file hfile => mem_members.mpr (mem_pass_of_mem (mem_members.mp hfile)))
      (by rw [members_card,members_card,hsize])
  induction hreach with
  | refl => exact mem_pass_of_mem hset.1
  | tail _ hedge ih => exact mem_pass_of_edge (mem_members.mp (hsame ▸ mem_members.mpr ih)) hedge

/-! ## The search -/

/-- The search ends on every graph, with two units of fuel for each edge. -/
theorem cycleDiagnostics_returns (edges : List ProjectDependencyEdge) {fuel : ℕ}
    (hfuel : 2 * edges.length < fuel) : ∃ found, cycleDiagnostics fuel edges = some found := by
  have hcard : (named edges).toFinset.card < fuel :=
    ((List.toFinset_card_le _).trans (named_length edges)).trans_lt hfuel
  obtain ⟨s,hs⟩ := DepthFirst.search_returns
    (fun a _ b hb => List.mem_toFinset.mpr (mem_targets.mp hb).target_named)
    (fun a ha => List.mem_toFinset.mpr (keys_named ha)) hcard
  exact ⟨_,by rw [cycleDiagnostics,hs]; rfl⟩

theorem cycleDiagnostics_exact {fuel : ℕ} {found : List ProjectDiagnostic}
    (h : cycleDiagnostics fuel edges = some found) :
    ∃ reported : List LogicalPath, found = reported.map cycleDiagnostic ∧ reported.Nodup ∧
      (∀ a ∈ reported, TransGen (SourceEdge edges) a a) ∧
      ∀ a, TransGen (SourceEdge edges) a a → ∃ b ∈ reported,
        ReflTransGen (SourceEdge edges) a b ∧ ReflTransGen (SourceEdge edges) b a := by
  obtain ⟨s,hs,rfl⟩ := Option.map_eq_some_iff.mp h
  obtain ⟨hnodup,hcyclic,hevery⟩ := DepthFirst.search_exact hs
  rw [edge_targets] at hcyclic hevery
  exact ⟨s.reported,rfl,hnodup,hcyclic,hevery fun a => mem_keys_of_targets⟩

/-! ## The reports of an analysis -/

def isCycle (d : ProjectDiagnostic) : Bool := d.diagnostic.code = .dependencyCycle

variable {parsers : Parsers} {limits : ParserLimits} {source : ProjectSource} {parsed : Parsed}
  {d : ProjectDiagnostic}

theorem filter_isCycle_nil {l : List ProjectDiagnostic} (codes : List DiagnosticCode)
    (h : ∀ d ∈ l, d.diagnostic.code ∈ codes) (hcodes : .dependencyCycle ∉ codes) : l.filter isCycle = [] := by
  refine List.filter_eq_nil_iff.mpr fun d hd hcycle => hcodes ?_
  exact of_decide_eq_true hcycle ▸ h d hd

theorem produced_cycles (h : ParsedFrom parsers limits source parsed) :
    (produced source parsed).filter isCycle =
      (cycleDiagnostics (2 * (projectEdges source.files parsed.1).length + 2)
        (projectEdges source.files parsed.1)).getD [] := by
  have hfiles := filter_isCycle_nil fileCodes (fun d hd => fileDiagnostics_code h hd) (by decide)
  have hlabels := filter_isCycle_nil labelCodes (fun d hd => labelDiagnostics_code hd)
    (l := labelDiagnostics parsed.1) (by decide)
  have hcycles : ((cycleDiagnostics (2 * (projectEdges source.files parsed.1).length + 2)
      (projectEdges source.files parsed.1)).getD []).filter isCycle = _ :=
    List.filter_eq_self.mpr fun d hd => decide_eq_true (cycleDiagnostics_code hd)
  have hbibs : ((reachableSources (2 * (projectEdges source.files parsed.1).length + 2) source.mainFile
      (projectEdges source.files parsed.1)).elim [] (fun reachable =>
        bibliographyDiagnostics reachable parsed.1 parsed.2 (projectEdges source.files parsed.1))).filter
          isCycle = [] := by
    cases reachableSources (2 * (projectEdges source.files parsed.1).length + 2) source.mainFile
      (projectEdges source.files parsed.1) with
    | none => rfl
    | some reachable =>
      refine filter_isCycle_nil bibliographyCodes (fun d hd => ?_) (by decide)
      rw [Option.elim_some,bibliographyDiagnostics_eq,List.mem_append,List.mem_append] at hd
      rcases hd with (hd | hd) | hd
      · have hsub : [DiagnosticCode.bibtexSyntaxError,.invalidUtf8SemanticText] ⊆ bibliographyCodes := by decide
        exact hsub (bibliographyReports_code h hd)
      · have hmem : DiagnosticCode.duplicateBibtexKey ∈ bibliographyCodes := by decide
        exact duplicates_code hd ▸ hmem
      · have hmem : DiagnosticCode.unresolvedCitation ∈ bibliographyCodes := by decide
        exact citationReports_code hd ▸ hmem
  rw [produced]
  simp only [List.filter_append,hfiles,hlabels,hbibs,List.nil_append,List.append_nil]
  exact hcycles

theorem countP_destutter_le (l : List ProjectDiagnostic) (p : ProjectDiagnostic → Bool) :
    ((l.mergeSort ProjectDiagnostic.atMost).destutter (· ≠ ·)).countP p ≤ l.countP p :=
  ((List.destutter_sublist _ _).countP_le).trans_eq ((List.mergeSort_perm _ _).countP_eq p)

/-- A file is reported only on a cycle, each component with a cycle has a report, no file has two,
and the search ends on every graph. -/
theorem cycles_exact (parsers : Parsers) (limits : ParserLimits) (source : ProjectSource)
    (analysis : ProjectAnalysis) (h : analyze parsers limits source = .ok analysis) :
    (∀ d ∈ analysis.diagnostics, isCycle d = true →
      TransGen (SourceEdge analysis.dependencyGraph.edges) d.file d.file) ∧
    (∀ file, TransGen (SourceEdge analysis.dependencyGraph.edges) file file →
      ∃ d ∈ analysis.diagnostics, isCycle d = true ∧
        ReflTransGen (SourceEdge analysis.dependencyGraph.edges) file d.file ∧
        ReflTransGen (SourceEdge analysis.dependencyGraph.edges) d.file file) ∧
    (∀ file, analysis.diagnostics.countP (fun d => d.file = file && isCycle d) ≤ 1) ∧
    ∀ (edges : List ProjectDependencyEdge) (fuel : ℕ), 2 * edges.length < fuel →
      ∃ found, cycleDiagnostics fuel edges = some found := by
  obtain ⟨parsed,hparsed,rfl⟩ := analyze_ok h
  let edges := projectEdges source.files parsed.1
  obtain ⟨found,hfound⟩ := cycleDiagnostics_returns edges (Nat.lt_add_of_pos_right (Nat.succ_pos 1))
  obtain ⟨reported,rfl,hnodup,hcyclic,hevery⟩ := cycleDiagnostics_exact hfound
  have hcycles : (produced source parsed).filter isCycle = reported.map cycleDiagnostic := by
    rw [produced_cycles hparsed,hfound]
    rfl
  have hmem (d : ProjectDiagnostic) : d ∈ (assemble source parsed).diagnostics ∧ isCycle d = true ↔
      ∃ file ∈ reported, cycleDiagnostic file = d := by
    rw [mem_diagnostics,← List.mem_filter,hcycles,List.mem_map]
  refine ⟨fun d hd hcycle => ?_,fun file hfile => ?_,fun file => ?_,fun _ _ => cycleDiagnostics_returns _⟩
  · obtain ⟨file,hfile,rfl⟩ := (hmem d).mp ⟨hd,hcycle⟩
    exact hcyclic file hfile
  · obtain ⟨other,hother,hto,hback⟩ := hevery file hfile
    obtain ⟨hd,hcycle⟩ := (hmem _).mpr ⟨other,hother,rfl⟩
    exact ⟨_,hd,hcycle,hto,hback⟩
  · calc (assemble source parsed).diagnostics.countP (fun d => d.file = file && isCycle d)
        ≤ (produced source parsed).countP (fun d => d.file = file && isCycle d) := countP_destutter_le _ _
      _ = (reported.map cycleDiagnostic).countP (fun d => d.file = file) := by
          rw [← hcycles,List.countP_filter]
      _ = reported.count file := by
          rw [List.countP_map,List.count]
          rfl
      _ ≤ 1 := List.nodup_iff_count_le_one.mp hnodup file

/-! ## A file that includes itself -/

/-- The nodes of the one line of a source. -/
def lineNode (kind : String) (fields : List String) (first last : ℕ) (children : List SyntaxNode) : SyntaxNode :=
  .node kind fields true false false ⟨first,last,⟨0,first⟩,⟨0,last⟩⟩ children

def loopText : Bytes := "\\input\x7bmain.tex\x7d\\cite\x7ba,b,a\x7d".toUTF8.toList

def loopTree : SyntaxNode :=
  lineNode "source_file" [] 0 28 [
    lineNode "latex_include" [] 0 16 [
      lineNode "\\input" ["command"] 0 6 [],
      lineNode "curly_group_path" ["path"] 6 16 []],
    lineNode "citation" [] 16 28 [
      lineNode "\\cite" ["command"] 16 21 [],
      lineNode "curly_group_text_list" ["keys"] 21 28 []]]

def grammarOf (text : Bytes) (tree : SyntaxNode) : TreeSitter where
  Tree := Unit
  parse source _ := if source = text then some () else none
  edit _ _ := ()
  changedRanges _ _ := []
  rootNode _ := tree

def loopParsers : Parsers := ⟨grammarOf loopText loopTree,.ok (),grammarOf loopText loopTree,.ok ()⟩

def loopProject : ProjectSource := ⟨commentPath,(∅ : PathMap Bytes).insert commentPath loopText,by simp⟩

def loopEdge : ProjectDependencyEdge :=
  ⟨commentPath,.input,"main.tex",.projectFile commentPath,⟨0,16,⟨0,0⟩,⟨0,16⟩⟩⟩

def loopRange : SourceRange := ⟨16,28,⟨0,16⟩,⟨0,28⟩⟩

theorem loop_analysis : ∃ analysis, analyze loopParsers .default loopProject = .ok analysis ∧
    analysis.mainFile = commentPath ∧ analysis.dependencyGraph.edges = [loopEdge] ∧
    ∃ found, analysis.files[commentPath]? = some found ∧
      found.citations = [⟨"cite",["a","b","a"],loopRange⟩] := by
  have hall : (analyze loopParsers .default loopProject).toOption.map (fun analysis =>
      (analysis.mainFile,analysis.dependencyGraph.edges,
        (analysis.files[commentPath]?).map FileAnalysis.citations)) =
      some (commentPath,[loopEdge],some [⟨"cite",["a","b","a"],loopRange⟩]) := by decide +kernel
  cases h : analyze loopParsers .default loopProject with
  | error error =>
    rw [h] at hall
    cases hall
  | ok analysis =>
    rw [h] at hall
    obtain ⟨hmain,hrest⟩ := Prod.mk.inj (Option.some.inj hall)
    obtain ⟨hedges,hfile⟩ := Prod.mk.inj hrest
    exact ⟨analysis,rfl,hmain,hedges,Option.map_eq_some_iff.mp hfile⟩

theorem cycles_exact_loop : ∃ analysis, analyze loopParsers .default loopProject = .ok analysis ∧
    ∃ d ∈ analysis.diagnostics, isCycle d = true ∧
      TransGen (SourceEdge analysis.dependencyGraph.edges) d.file d.file := by
  obtain ⟨analysis,h,-,hedges,-⟩ := loop_analysis
  obtain ⟨hsound,hcomplete,-⟩ := cycles_exact _ _ _ _ h
  have hloop : TransGen (SourceEdge analysis.dependencyGraph.edges) commentPath commentPath :=
    .single ⟨loopEdge,hedges ▸ List.mem_singleton_self _,rfl,by decide⟩
  obtain ⟨d,hd,hcycle,-⟩ := hcomplete commentPath hloop
  exact ⟨analysis,h,d,hd,hcycle,hsound d hd hcycle⟩

end LatexCore.Parser
