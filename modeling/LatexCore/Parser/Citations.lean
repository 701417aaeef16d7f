import LatexCore.Parser.Cycles

/-! # Citations and bibliographies

The bibliography pass reads the bibliographies that the reachable sources request. Its
reports are compared with the graph: which citations no requested bibliography defines,
and which entries share their key. They do not depend on the order of the edges.
-/
namespace LatexCore.Parser
open Core Foundation Workspace Std Relation

variable {edges : List ProjectDependencyEdge} {mainFile path : LogicalPath}

/-! ## The requested bibliographies -/

def Requested (edges : List ProjectDependencyEdge) (mainFile path : LogicalPath) : Prop :=
  ∃ edge ∈ edges, edge.kind = .bibliography ∧ Reachable edges mainFile edge.from_ ∧
    edge.resolution = .projectFile path

def RequestedDynamically (edges : List ProjectDependencyEdge) (mainFile : LogicalPath) : Prop :=
  ∃ edge ∈ edges, edge.kind = .bibliography ∧ Reachable edges mainFile edge.from_ ∧
    edge.resolution = .dynamic

variable {reachable : PathSet}

theorem mem_addBibliography {found : PathSet} {edge : ProjectDependencyEdge} :
    path ∈ addBibliography reachable found edge ↔
      path ∈ found ∨ requestsBibliography reachable edge = true ∧ edge.resolution = .projectFile path := by
  unfold addBibliography
  by_cases hrequest : requestsBibliography reachable edge = true
  · rw [if_pos hrequest]
    cases edge.resolution with
    | projectFile other =>
      dsimp only
      rw [ExtTreeSet.mem_insert,Std.compare_eq_iff_eq]
      simp [hrequest,or_comm]
    | externalTex => simp
    | missing candidates => simp
    | dynamic => simp
  · simp [hrequest]

theorem mem_reachableBibs : path ∈ reachableBibs reachable edges ↔
    ∃ edge ∈ edges, requestsBibliography reachable edge = true ∧ edge.resolution = .projectFile path := by
  induction edges using List.reverseRecOn with
  | nil => simp [reachableBibs]
  | append_singleton edges edge ih =>
    rw [reachableBibs,List.foldl_append,List.foldl_cons,List.foldl_nil,mem_addBibliography,
      ← reachableBibs,ih]
    simp [or_and_right,exists_or]

section Reached
variable (hreach : ∀ {file}, file ∈ reachable ↔ Reachable edges mainFile file)
include hreach

theorem requestsBibliography_iff {edge : ProjectDependencyEdge} :
    requestsBibliography reachable edge = true ↔
      edge.kind = .bibliography ∧ Reachable edges mainFile edge.from_ := by
  rw [requestsBibliography,Bool.and_eq_true,decide_eq_true_eq,ExtTreeSet.contains_iff_mem,hreach]

theorem mem_reachableBibs_iff : path ∈ reachableBibs reachable edges ↔ Requested edges mainFile path := by
  rw [mem_reachableBibs]
  simp only [requestsBibliography_iff hreach,Requested,and_assoc]

theorem hasDynamicBibliography_iff :
    hasDynamicBibliography reachable edges = true ↔ RequestedDynamically edges mainFile := by
  simp only [hasDynamicBibliography,List.any_eq_true,Bool.and_eq_true,requestsBibliography_iff hreach,
    decide_eq_true_eq,RequestedDynamically,and_assoc]

end Reached

/-! ## Locations -/

def placesOf (found : List (String × Location)) (key : String) : List Location :=
  (found.filter (fun entry => entry.1 = key)).map Prod.snd

theorem placesOf_concat (found : List (String × Location)) (entry : String × Location) (key : String) :
    placesOf (found ++ [entry]) key = placesOf found key ++ if entry.1 = key then [entry.2] else [] := by
  unfold placesOf
  rw [List.filter_append,List.map_append,List.filter_singleton]
  by_cases h : entry.1 = key <;> simp [h]

theorem getElem?_locate (found : List (String × Location)) (key : String) :
    (locate found)[key]? = if placesOf found key = [] then none else some (placesOf found key) := by
  induction found using List.reverseRecOn with
  | nil => simp [locate,placesOf]
  | append_singleton found entry ih =>
    rw [locate,List.foldl_append,List.foldl_cons,List.foldl_nil,← locate,addLocation,
      ExtTreeMap.getElem?_insert,placesOf_concat]
    by_cases h : entry.1 = key
    · subst h
      rw [if_pos Std.ReflCmp.compare_self,if_pos rfl,if_neg (by simp),ih]
      by_cases hnil : placesOf found entry.1 = []
      · simp [hnil]
      · simp [hnil]
    · rw [if_neg (by simpa using h),if_neg h,List.append_nil,ih]

theorem mem_placesOf {found : List (String × Location)} {key : String} {location : Location} :
    location ∈ placesOf found key ↔ (key,location) ∈ found := by
  simp only [placesOf,List.mem_map,List.mem_filter,decide_eq_true_eq]
  constructor
  · rintro ⟨⟨other,place⟩,⟨hmem,rfl⟩,rfl⟩
    exact hmem
  · exact fun hmem => ⟨(key,location),⟨hmem,rfl⟩,rfl⟩

theorem contains_locate {found : List (String × Location)} {key : String} :
    (locate found).contains key = true ↔ ∃ entry ∈ found, entry.1 = key := by
  rw [ExtTreeMap.contains_iff_mem,ExtTreeMap.mem_iff_isSome_getElem?,getElem?_locate]
  constructor
  · intro h
    split at h
    · cases h
    · next hnil =>
      obtain ⟨location,hmem⟩ := List.exists_mem_of_ne_nil _ hnil
      exact ⟨(key,location),mem_placesOf.mp hmem,rfl⟩
  · rintro ⟨entry,hmem,rfl⟩
    rw [if_neg (List.ne_nil_of_mem (mem_placesOf.mpr hmem))]
    rfl

theorem mem_duplicates {code : DiagnosticCode} {text : String} {found : List (String × Location)}
    {d : ProjectDiagnostic} : d ∈ duplicates code text (locate found) ↔
      ∃ entry ∈ found, 1 < (placesOf found entry.1).length ∧
        d = ⟨entry.2.1,.warning,code,text ++ entry.1,some entry.2.2⟩ := by
  simp only [duplicates,List.mem_flatMap]
  constructor
  · rintro ⟨⟨key,places⟩,hentry,hmem⟩
    rw [ExtTreeMap.mem_toList_iff_getElem?_eq_some,getElem?_locate] at hentry
    split at hentry
    · cases hentry
    · obtain rfl := Option.some.inj hentry
      split at hmem
      · next hlength =>
        obtain ⟨location,hlocation,rfl⟩ := List.mem_map.mp hmem
        exact ⟨(key,location),mem_placesOf.mp hlocation,hlength,rfl⟩
      · cases hmem
  · rintro ⟨⟨key,location⟩,hentry,hlength,rfl⟩
    have hplace := mem_placesOf.mpr hentry
    refine ⟨(key,placesOf found key),?_,?_⟩
    · rw [ExtTreeMap.mem_toList_iff_getElem?_eq_some,getElem?_locate,if_neg (List.ne_nil_of_mem hplace)]
    · rw [if_pos hlength]
      exact List.mem_map.mpr ⟨location,hplace,rfl⟩

/-! ## Keys that are defined twice -/

def EntryAt (read : List (LogicalPath × BibtexAnalysis)) (key : String) (place : LogicalPath × ℕ) : Prop :=
  ∃ file ∈ read, file.1 = place.1 ∧ ∃ entry, file.2.entries[place.2]? = some entry ∧ entry.key = key

def spotsIn (key : String) (file : LogicalPath × BibtexAnalysis) : List (LogicalPath × ℕ) :=
  (file.2.entries.zipIdx.filter (fun entry => entry.1.key = key)).map (fun entry => (file.1,entry.2))

def keyedEntries (read : List (LogicalPath × BibtexAnalysis)) : List (String × Location) :=
  read.flatMap (fun file => file.2.entries.map (fun entry => (entry.key,file.1,entry.range)))

variable {read : List (LogicalPath × BibtexAnalysis)} {key : String}

theorem mem_spotsIn {file : LogicalPath × BibtexAnalysis} {place : LogicalPath × ℕ} :
    place ∈ spotsIn key file ↔
      file.1 = place.1 ∧ ∃ entry, file.2.entries[place.2]? = some entry ∧ entry.key = key := by
  obtain ⟨path,index⟩ := place
  simp only [spotsIn,List.mem_map,List.mem_filter,decide_eq_true_eq,Prod.exists,
    List.mk_mem_zipIdx_iff_getElem?,Prod.mk.injEq]
  constructor
  · rintro ⟨entry,other,⟨hget,hkey⟩,hpath,rfl⟩
    exact ⟨hpath,entry,hget,hkey⟩
  · rintro ⟨hpath,entry,hget,hkey⟩
    exact ⟨entry,index,⟨hget,hkey⟩,hpath,rfl⟩

theorem spotsIn_nodup (key : String) (file : LogicalPath × BibtexAnalysis) : (spotsIn key file).Nodup := by
  have hindices : (file.2.entries.zipIdx.map Prod.snd).Nodup := by
    rw [List.zipIdx_map_snd]
    exact List.nodup_range'
  have hsub : ((file.2.entries.zipIdx.filter (fun entry => entry.1.key = key)).map Prod.snd).Nodup :=
    hindices.sublist (List.filter_sublist.map _)
  have hpair : (spotsIn key file).map Prod.snd =
      (file.2.entries.zipIdx.filter (fun entry => entry.1.key = key)).map Prod.snd := by
    rw [spotsIn,List.map_map]
    rfl
  exact List.Nodup.of_map Prod.snd (hpair ▸ hsub)

theorem spotsIn_length (key : String) (file : LogicalPath × BibtexAnalysis) :
    (spotsIn key file).length =
      ((file.2.entries.map (fun entry => (entry.key,file.1,entry.range))).filter (·.1 = key)).length := by
  have hfst : (file.2.entries.zipIdx.map Prod.fst) = file.2.entries := List.zipIdx_map_fst ..
  rw [spotsIn,List.length_map,← List.countP_eq_length_filter,← List.countP_eq_length_filter,List.countP_map]
  calc file.2.entries.zipIdx.countP (fun entry => entry.1.key = key)
      = (file.2.entries.zipIdx.map Prod.fst).countP (fun entry => entry.key = key) := by
        rw [List.countP_map]
        rfl
    _ = file.2.entries.countP (fun entry => entry.key = key) := by rw [hfst]
    _ = _ := rfl

theorem placesOf_length (hread : (read.map Prod.fst).Nodup) : 1 < (placesOf (keyedEntries read) key).length ↔
    ∃ a b, a ≠ b ∧ EntryAt read key a ∧ EntryAt read key b := by
  have hnodup : (read.flatMap (spotsIn key)).Nodup := by
    refine List.nodup_flatMap.mpr ⟨fun file _ => spotsIn_nodup key file,?_⟩
    refine (List.pairwise_map.mp hread).imp fun hne => ?_
    intro place hfirst hsecond
    exact hne ((mem_spotsIn.mp hfirst).1.trans (mem_spotsIn.mp hsecond).1.symm)
  have hlength : (placesOf (keyedEntries read) key).length = (read.flatMap (spotsIn key)).length := by
    rw [placesOf,List.length_map,keyedEntries,List.filter_flatMap,List.length_flatMap,List.length_flatMap]
    exact congrArg List.sum (List.map_congr_left fun file _ => (spotsIn_length key file).symm)
  have hmem (place : LogicalPath × ℕ) : place ∈ read.flatMap (spotsIn key) ↔ EntryAt read key place := by
    simp only [List.mem_flatMap,mem_spotsIn,EntryAt]
  rw [hlength,← List.toFinset_card_of_nodup hnodup,Finset.one_lt_card]
  simp only [List.mem_toFinset,hmem]
  constructor
  · rintro ⟨a,ha,b,hb,hne⟩
    exact ⟨a,b,hne,ha,hb⟩
  · rintro ⟨a,b,hne,ha,hb⟩
    exact ⟨a,ha,b,hb,hne⟩

theorem mem_keyedEntries {location : Location} : (key,location) ∈ keyedEntries read ↔
    ∃ file ∈ read, ∃ entry ∈ file.2.entries, entry.key = key ∧ (file.1,entry.range) = location := by
  simp [keyedEntries]

theorem readBibs_nodup (bibliographies : PathMap BibtexAnalysis) (bibs : PathSet) :
    ((readBibs bibliographies bibs).map Prod.fst).Nodup := by
  have hnodup : bibs.toList.Nodup :=
    ExtTreeSet.distinct_toList.imp fun hne heq => hne (Std.compare_eq_iff_eq.mpr heq)
  refine hnodup.sublist ?_
  unfold readBibs
  induction bibs.toList with
  | nil => exact List.Sublist.refl _
  | cons path rest ih =>
    cases hget : bibliographies[path]? with
    | none =>
      rw [List.filterMap_cons_none (by rw [hget]; rfl)]
      exact ih.cons _
    | some analysis =>
      rw [List.filterMap_cons_some (by rw [hget]; rfl),List.map_cons]
      exact ih.cons_cons path

/-! ## The order of the edges -/

theorem sourceEdge_perm {edges' : List ProjectDependencyEdge} (h : edges.Perm edges') :
    SourceEdge edges = SourceEdge edges' := by
  funext a b
  simp only [SourceEdge,h.mem_iff]

theorem bibliographyDiagnostics_perm {edges' : List ProjectDependencyEdge} (h : edges.Perm edges')
    (mainFile : LogicalPath) (parsed : Parsed) {fuel : ℕ} (hfuel : 2 * edges.length < fuel) :
    (reachableSources fuel mainFile edges).map (bibliographyDiagnostics · parsed.1 parsed.2 edges) =
      (reachableSources fuel mainFile edges').map (bibliographyDiagnostics · parsed.1 parsed.2 edges') := by
  obtain ⟨first,hfirst⟩ := reachableSources_returns mainFile edges hfuel
  obtain ⟨second,hsecond⟩ := reachableSources_returns mainFile edges' (h.length_eq ▸ hfuel)
  have hsame : first = second := by
    refine ExtTreeSet.ext_mem fun file => ?_
    rw [mem_reachableSources hfirst,mem_reachableSources hsecond,Reachable,Reachable,sourceEdge_perm h]
  subst hsame
  have hbibs : reachableBibs first edges = reachableBibs first edges' := by
    refine ExtTreeSet.ext_mem fun path => ?_
    simp only [mem_reachableBibs,h.mem_iff]
  have hdynamic : hasDynamicBibliography first edges = hasDynamicBibliography first edges' := by
    rw [Bool.eq_iff_iff]
    simp only [hasDynamicBibliography,List.any_eq_true,h.mem_iff]
  rw [hfirst,hsecond,Option.map_some,Option.map_some,bibliographyDiagnostics,bibliographyDiagnostics,
    hbibs,hdynamic]

/-! ## The reports of an analysis -/

variable {parsers : Parsers} {limits : ParserLimits} {source : ProjectSource} {parsed : Parsed}
  {d : ProjectDiagnostic}

theorem projectEdges_from {files : PathMap FileAnalysis} {edge : ProjectDependencyEdge}
    (h : edge ∈ projectEdges source.files files) : ∃ analysis, files[edge.from_]? = some analysis := by
  rw [projectEdges,List.mem_mergeSort] at h
  obtain ⟨⟨path,analysis⟩,hfile,hmem⟩ := List.mem_flatMap.mp h
  obtain ⟨request,-,rfl⟩ := List.mem_map.mp hmem
  exact ⟨analysis,ExtTreeMap.mem_toList_iff_getElem?_eq_some.mp hfile⟩

theorem mem_produced (source : ProjectSource) (parsed : Parsed) :
    ∃ reachable, (∀ {file}, file ∈ reachable ↔
        Reachable (projectEdges source.files parsed.1) source.mainFile file) ∧
      ∀ {d}, d ∈ produced source parsed ↔
        d ∈ parsed.1.toList.flatMap (fileDiagnostics source.files) ∨
        d ∈ (cycleDiagnostics (2 * (projectEdges source.files parsed.1).length + 2)
          (projectEdges source.files parsed.1)).getD [] ∨
        d ∈ labelDiagnostics parsed.1 ∨
        d ∈ bibliographyReports reachable parsed (projectEdges source.files parsed.1) ∨
        d ∈ keyReports reachable parsed (projectEdges source.files parsed.1) ∨
        d ∈ citationReports reachable parsed (projectEdges source.files parsed.1) := by
  obtain ⟨reachable,hreachable⟩ := reachableSources_returns source.mainFile
    (projectEdges source.files parsed.1) (Nat.lt_add_of_pos_right (Nat.succ_pos 1))
  refine ⟨reachable,fun {file} => mem_reachableSources hreachable,fun {d} => ?_⟩
  rw [produced]
  simp only [hreachable,Option.elim_some,bibliographyDiagnostics_eq,List.mem_append,or_assoc]

section Reached
variable (hreach : ∀ {file}, file ∈ reachable ↔ Reachable edges mainFile file)
include hreach

theorem mem_readBibs_iff {bibliographies : PathMap BibtexAnalysis} {file : LogicalPath × BibtexAnalysis} :
    file ∈ readBibs bibliographies (reachableBibs reachable edges) ↔
      Requested edges mainFile file.1 ∧ bibliographies[file.1]? = some file.2 := by
  rw [mem_readBibs,mem_reachableBibs_iff hreach]

end Reached

theorem produced_file (h : d ∈ produced source parsed) : (∃ analysis, parsed.1[d.file]? = some analysis) ∨
    Requested (projectEdges source.files parsed.1) source.mainFile d.file := by
  obtain ⟨reachable,hreach,hmem⟩ := mem_produced source parsed
  rcases hmem.mp h with h | h | h | h | h | h
  · obtain ⟨⟨path,analysis⟩,hfile,h⟩ := List.mem_flatMap.mp h
    have hget := ExtTreeMap.mem_toList_iff_getElem?_eq_some.mp hfile
    rcases List.mem_append.mp h with h | h
    · obtain ⟨own,-,rfl⟩ := List.mem_map.mp h
      exact .inl ⟨analysis,hget⟩
    · obtain ⟨edge,hedge,hmissing⟩ := List.mem_filterMap.mp h
      obtain ⟨request,-,rfl⟩ := List.mem_map.mp hedge
      rw [missingDiagnostic_eq hmissing]
      exact .inl ⟨analysis,hget⟩
  · obtain ⟨found,hfound⟩ := cycleDiagnostics_returns (projectEdges source.files parsed.1)
      (Nat.lt_add_of_pos_right (Nat.succ_pos 1))
    rw [hfound] at h
    obtain ⟨reported,rfl,-,hcyclic,-⟩ := cycleDiagnostics_exact hfound
    obtain ⟨file,hfile,rfl⟩ := List.mem_map.mp h
    obtain ⟨-,⟨edge,hedge,rfl,-⟩,-⟩ := TransGen.head'_iff.mp (hcyclic file hfile)
    exact .inl (projectEdges_from hedge)
  · left
    rcases List.mem_append.mp h with h | h
    · obtain ⟨⟨key,location⟩,hentry,-,rfl⟩ := mem_duplicates.mp h
      obtain ⟨⟨path,analysis⟩,hfile,hlabel⟩ := List.mem_flatMap.mp hentry
      obtain ⟨label,-,heq⟩ := List.mem_map.mp hlabel
      obtain ⟨-,rfl⟩ := Prod.mk.inj heq
      exact ⟨analysis,ExtTreeMap.mem_toList_iff_getElem?_eq_some.mp hfile⟩
    · obtain ⟨⟨path,analysis⟩,hfile,h⟩ := List.mem_flatMap.mp h
      obtain ⟨reference,-,rfl⟩ := List.mem_map.mp h
      exact ⟨analysis,ExtTreeMap.mem_toList_iff_getElem?_eq_some.mp hfile⟩
  · obtain ⟨file,hfile,h⟩ := List.mem_flatMap.mp h
    obtain ⟨own,-,rfl⟩ := List.mem_map.mp h
    exact .inr ((mem_readBibs_iff hreach).mp hfile).1
  · obtain ⟨⟨key,location⟩,hentry,-,rfl⟩ := mem_duplicates.mp h
    obtain ⟨file,hfile,entry,-,-,rfl⟩ := mem_keyedEntries.mp hentry
    exact .inr ((mem_readBibs_iff hreach).mp hfile).1
  · unfold citationReports at h
    split at h
    · cases h
    · obtain ⟨path,-,h⟩ := List.mem_flatMap.mp h
      cases hget : parsed.1[path]? with
      | none =>
        rw [hget] at h
        cases h
      | some analysis =>
        rw [hget] at h
        obtain ⟨citation,-,h⟩ := List.mem_flatMap.mp h
        obtain ⟨key,-,rfl⟩ := List.mem_map.mp h
        exact .inl ⟨analysis,hget⟩

/-! ## Exactness -/

namespace ProjectAnalysis

def Cites (analysis : ProjectAnalysis) (file : LogicalPath) (range : SourceRange) (key : String) : Prop :=
  ∃ found, analysis.files[file]? = some found ∧
    ∃ citation ∈ found.citations, citation.range = range ∧ key ∈ citation.keys

def DefinedAt (analysis : ProjectAnalysis) (key : String) (place : LogicalPath × ℕ) : Prop :=
  Requested analysis.dependencyGraph.edges analysis.mainFile place.1 ∧
    ∃ bibliography, analysis.bibliographies[place.1]? = some bibliography ∧
      ∃ entry, bibliography.entries[place.2]? = some entry ∧ entry.key = key

def Undefined (analysis : ProjectAnalysis) (key : String) : Prop :=
  key ≠ "" ∧ key ≠ "*" ∧ ∀ place, ¬analysis.DefinedAt key place

/-- Two entries of requested bibliographies have the key. -/
def DefinedTwice (analysis : ProjectAnalysis) (key : String) : Prop :=
  ∃ a b, a ≠ b ∧ analysis.DefinedAt key a ∧ analysis.DefinedAt key b

end ProjectAnalysis

def duplicateKey (file : LogicalPath) (entry : BibtexEntry) : ProjectDiagnostic :=
  ⟨file,.warning,.duplicateBibtexKey,"duplicate BibTeX key: " ++ entry.key,some entry.range⟩

section Reached
variable (hreach : ∀ {file}, file ∈ reachable ↔
  Reachable (projectEdges source.files parsed.1) source.mainFile file)
include hreach

theorem definedAt_iff {place : LogicalPath × ℕ} : (assemble source parsed).DefinedAt key place ↔
    EntryAt (readBibs parsed.2 (reachableBibs reachable (projectEdges source.files parsed.1))) key place := by
  simp only [EntryAt,mem_readBibs_iff hreach]
  constructor
  · rintro ⟨hrequested,bibliography,hget,hentry⟩
    exact ⟨(place.1,bibliography),⟨hrequested,hget⟩,rfl,hentry⟩
  · rintro ⟨⟨path,bibliography⟩,⟨hrequested,hget⟩,rfl,hentry⟩
    exact ⟨hrequested,bibliography,hget,hentry⟩

theorem mem_keyReports : d ∈ keyReports reachable parsed (projectEdges source.files parsed.1) ↔
    ∃ file bibliography entry, Requested (projectEdges source.files parsed.1) source.mainFile file ∧
      parsed.2[file]? = some bibliography ∧ entry ∈ bibliography.entries ∧
      (assemble source parsed).DefinedTwice entry.key ∧ d = duplicateKey file entry := by
  have htwice (key : String) : 1 < (placesOf (keyedEntries (readBibs parsed.2
      (reachableBibs reachable (projectEdges source.files parsed.1)))) key).length ↔
        (assemble source parsed).DefinedTwice key := by
    rw [placesOf_length (readBibs_nodup _ _)]
    simp only [ProjectAnalysis.DefinedTwice,definedAt_iff hreach]
  rw [keyReports,definitions,mem_duplicates]
  constructor
  · rintro ⟨⟨key,location⟩,hmem,hlength,rfl⟩
    obtain ⟨⟨file,bibliography⟩,hfile,entry,hentry,rfl,rfl⟩ := mem_keyedEntries.mp hmem
    obtain ⟨hrequested,hget⟩ := (mem_readBibs_iff hreach).mp hfile
    exact ⟨file,bibliography,entry,hrequested,hget,hentry,(htwice _).mp hlength,rfl⟩
  · rintro ⟨file,bibliography,entry,hrequested,hget,hentry,hdefined,rfl⟩
    exact ⟨(entry.key,file,entry.range),
      mem_keyedEntries.mpr ⟨(file,bibliography),(mem_readBibs_iff hreach).mpr ⟨hrequested,hget⟩,entry,hentry,
        rfl,rfl⟩,(htwice _).mpr hdefined,rfl⟩

theorem undefinedKey_iff : undefinedKey (definitions (readBibs parsed.2
    (reachableBibs reachable (projectEdges source.files parsed.1)))) key = true ↔
      (assemble source parsed).Undefined key := by
  have hcontains : (definitions (readBibs parsed.2 (reachableBibs reachable
      (projectEdges source.files parsed.1)))).contains key = true ↔
        ∃ place, (assemble source parsed).DefinedAt key place := by
    rw [definitions,contains_locate]
    simp only [definedAt_iff hreach]
    constructor
    · rintro ⟨⟨other,location⟩,hmem,rfl⟩
      obtain ⟨file,hfile,entry,hentry,hkey,-⟩ := mem_keyedEntries.mp hmem
      obtain ⟨index,hindex⟩ := List.mem_iff_getElem?.mp hentry
      exact ⟨(file.1,index),file,hfile,rfl,entry,hindex,hkey⟩
    · rintro ⟨place,file,hfile,-,entry,hindex,hkey⟩
      exact ⟨(key,file.1,entry.range),
        mem_keyedEntries.mpr ⟨file,hfile,entry,List.mem_of_getElem? hindex,hkey,rfl⟩,rfl⟩
  simp only [undefinedKey,ProjectAnalysis.Undefined,Bool.and_eq_true,decide_eq_true_eq,Bool.not_eq_true',
    ← Bool.not_eq_true,hcontains,not_exists,and_assoc,ne_eq]

theorem mem_citationReports : d ∈ citationReports reachable parsed (projectEdges source.files parsed.1) ↔
    ∃ file range key, Reachable (projectEdges source.files parsed.1) source.mainFile file ∧
      (assemble source parsed).Cites file range key ∧ (assemble source parsed).Undefined key ∧
      ¬RequestedDynamically (projectEdges source.files parsed.1) source.mainFile ∧
      d = unresolvedCitation file range key := by
  rw [citationReports]
  by_cases hdynamic : RequestedDynamically (projectEdges source.files parsed.1) source.mainFile
  · simp [(hasDynamicBibliography_iff hreach).mpr hdynamic,hdynamic]
  · rw [if_neg (fun h => hdynamic ((hasDynamicBibliography_iff hreach).mp h))]
    constructor
    · intro h
      obtain ⟨file,hfile,h⟩ := List.mem_flatMap.mp h
      cases hget : parsed.1[file]? with
      | none =>
        rw [hget] at h
        cases h
      | some found =>
        rw [hget] at h
        obtain ⟨citation,hcitation,h⟩ := List.mem_flatMap.mp h
        obtain ⟨key,hkey,rfl⟩ := List.mem_map.mp h
        obtain ⟨hmem,hundefined⟩ := List.mem_filter.mp hkey
        exact ⟨file,citation.range,key,hreach.mp (ExtTreeSet.mem_toList.mp hfile),
          ⟨found,hget,citation,hcitation,rfl,hmem⟩,(undefinedKey_iff hreach).mp hundefined,hdynamic,rfl⟩
    · rintro ⟨file,range,key,hfile,⟨found,hget,citation,hcitation,rfl,hmem⟩,hundefined,-,rfl⟩
      refine List.mem_flatMap.mpr ⟨file,ExtTreeSet.mem_toList.mpr (hreach.mpr hfile),?_⟩
      have hget : parsed.1[file]? = some found := hget
      rw [hget]
      refine List.mem_flatMap.mpr ⟨citation,hcitation,List.mem_map.mpr ⟨key,?_,rfl⟩⟩
      exact List.mem_filter.mpr ⟨hmem,(undefinedKey_iff hreach).mpr hundefined⟩

end Reached

theorem mem_produced_code (h : ParsedFrom parsers limits source parsed) :
    ∃ reachable, (∀ {file}, file ∈ reachable ↔
        Reachable (projectEdges source.files parsed.1) source.mainFile file) ∧
      (∀ {d}, d ∈ produced source parsed ∧ d.diagnostic.code = .unresolvedCitation ↔
        d ∈ citationReports reachable parsed (projectEdges source.files parsed.1)) ∧
      ∀ {d}, d ∈ produced source parsed ∧ d.diagnostic.code = .duplicateBibtexKey ↔
        d ∈ keyReports reachable parsed (projectEdges source.files parsed.1) := by
  obtain ⟨reachable,hreach,hmem⟩ := mem_produced source parsed
  refine ⟨reachable,hreach,fun {d} => ⟨fun ⟨hd,hcode⟩ => ?_,fun hd => ?_⟩,
    fun {d} => ⟨fun ⟨hd,hcode⟩ => ?_,fun hd => ?_⟩⟩
  · rcases hmem.mp hd with hd | hd | hd | hd | hd | hd
    · exact absurd (hcode ▸ fileDiagnostics_code h hd) (by decide)
    · exact absurd (hcode ▸ cycleDiagnostics_code hd) (by decide)
    · exact absurd (hcode ▸ labelDiagnostics_code hd) (by decide)
    · exact absurd (hcode ▸ bibliographyReports_code h hd) (by decide)
    · exact absurd (hcode ▸ duplicates_code hd) (by decide)
    · exact hd
  · exact ⟨hmem.mpr (by simp only [hd,or_true]),citationReports_code hd⟩
  · rcases hmem.mp hd with hd | hd | hd | hd | hd | hd
    · exact absurd (hcode ▸ fileDiagnostics_code h hd) (by decide)
    · exact absurd (hcode ▸ cycleDiagnostics_code hd) (by decide)
    · exact absurd (hcode ▸ labelDiagnostics_code hd) (by decide)
    · exact absurd (hcode ▸ bibliographyReports_code h hd) (by decide)
    · exact hd
    · exact absurd (hcode ▸ citationReports_code hd) (by decide)
  · exact ⟨hmem.mpr (by simp only [hd,or_true,true_or]),duplicates_code hd⟩

/-- The citations without a definition and the keys with two are reported, exactly; no report is on a
bibliography that no reachable file requests; and the pass ends, whatever the order of the edges. -/
theorem citations_exact (parsers : Parsers) (limits : ParserLimits) (source : ProjectSource)
    (analysis : ProjectAnalysis) (h : analyze parsers limits source = .ok analysis) :
    (∀ d, d ∈ analysis.diagnostics ∧ d.diagnostic.code = .unresolvedCitation ↔
      ∃ file range key, Reachable analysis.dependencyGraph.edges analysis.mainFile file ∧
        analysis.Cites file range key ∧ analysis.Undefined key ∧
        ¬RequestedDynamically analysis.dependencyGraph.edges analysis.mainFile ∧
        d = unresolvedCitation file range key) ∧
    (∀ d, d ∈ analysis.diagnostics ∧ d.diagnostic.code = .duplicateBibtexKey ↔
      ∃ file bibliography entry, Requested analysis.dependencyGraph.edges analysis.mainFile file ∧
        analysis.bibliographies[file]? = some bibliography ∧ entry ∈ bibliography.entries ∧
        analysis.DefinedTwice entry.key ∧ d = duplicateKey file entry) ∧
    (∀ file ∈ analysis.bibliographies, ¬Requested analysis.dependencyGraph.edges analysis.mainFile file →
      ∀ d ∈ analysis.diagnostics, d.file ≠ file) ∧
    (∀ (edges edges' : List ProjectDependencyEdge) (mainFile : LogicalPath) (parsed : Parsed) (fuel : ℕ),
      edges.Perm edges' → 2 * edges.length < fuel →
        (reachableSources fuel mainFile edges).map (bibliographyDiagnostics · parsed.1 parsed.2 edges) =
          (reachableSources fuel mainFile edges').map
            (bibliographyDiagnostics · parsed.1 parsed.2 edges')) ∧
    ∀ (edges : List ProjectDependencyEdge) (mainFile : LogicalPath) (fuel : ℕ), 2 * edges.length < fuel →
      ∃ reachable, reachableSources fuel mainFile edges = some reachable ∧
        ∀ file, file ∈ reachable ↔ Reachable edges mainFile file := by
  obtain ⟨parsed,hparsed,rfl⟩ := analyze_ok h
  obtain ⟨reachable,hreach,hcitation,hkey⟩ := mem_produced_code hparsed
  refine ⟨fun d => ?_,fun d => ?_,fun file hfile hnot d hd heq => ?_,fun edges edges' mainFile parsed fuel hperm hfuel =>
    bibliographyDiagnostics_perm hperm mainFile parsed hfuel,fun edges mainFile fuel hfuel => ?_⟩
  · rw [mem_diagnostics,hcitation]
    exact mem_citationReports hreach
  · rw [mem_diagnostics,hkey]
    exact mem_keyReports hreach
  · rw [mem_diagnostics] at hd
    rcases produced_file hd with ⟨found,hget⟩ | hrequested
    · obtain ⟨bibliography,hbib⟩ := Option.isSome_iff_exists.mp (ExtTreeMap.mem_iff_isSome_getElem?.mp hfile)
      exact hparsed.disjoint (heq ▸ hget) hbib
    · exact hnot (heq ▸ hrequested)
  · obtain ⟨reachable,hreachable⟩ := reachableSources_returns mainFile edges hfuel
    exact ⟨reachable,hreachable,fun file => mem_reachableSources hreachable⟩

theorem loop_undefined {analysis : ProjectAnalysis} (h : analysis.dependencyGraph.edges = [loopEdge]) :
    ¬RequestedDynamically analysis.dependencyGraph.edges analysis.mainFile ∧
      ∀ key place, ¬analysis.DefinedAt key place := by
  have hnone : ∀ edge ∈ analysis.dependencyGraph.edges, edge.kind ≠ .bibliography := by
    rw [h]
    decide
  constructor
  · rintro ⟨edge,hedge,hkind,-⟩
    exact hnone edge hedge hkind
  · rintro key place ⟨⟨edge,hedge,hkind,-⟩,-⟩
    exact hnone edge hedge hkind

theorem citations_exact_loop : ∃ analysis, analyze loopParsers .default loopProject = .ok analysis ∧
    unresolvedCitation commentPath loopRange "a" ∈ analysis.diagnostics := by
  obtain ⟨analysis,h,hmain,hedges,found,hfile,hcitations⟩ := loop_analysis
  obtain ⟨hdynamic,hundefined⟩ := loop_undefined hedges
  obtain ⟨hunresolved,-⟩ := citations_exact _ _ _ _ h
  refine ⟨analysis,h,((hunresolved _).mpr ⟨commentPath,loopRange,"a",?_,?_,?_,hdynamic,rfl⟩).1⟩
  · exact hmain ▸ .refl
  · exact ⟨found,hfile,_,hcitations ▸ List.mem_singleton_self _,rfl,by decide⟩
  · exact ⟨by decide,by decide,hundefined "a"⟩

end LatexCore.Parser
