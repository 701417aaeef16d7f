import LatexCore.FrontMatter.Applied
import LatexCore.FrontMatter.Trees
import LatexCore.Papers.Restored

/-! # What an apply stores

A successful apply leaves the pin, the values and the sections of its request, one live
file at each requested path of the managed root and none at another, and an event after
which the workspace has the requested contents there.
-/
namespace LatexCore.FrontMatter
open Core Foundation Workspace Std
open Papers (PaperFile PaperFiles FrontMatterPin FrontMatterValue ExactRestoreState Response HeadState Tracks)
variable {db db' : Papers.Db} {x : WorkspaceId} {actor : UserId} {paperId : Uuid}

/-! ## Rows of a team -/

theorem insertValues_ok {values : List FrontMatterValueRecord}
    (h : insertValues actor paperId values db = .ok db') :
    ∃ table, db.frontMatterValues.Filled (values.map (fun value =>
        ((paperId,value.fieldKey),⟨value.valueJson,value.valueSource,actor⟩))) table ∧
      db' = { db with frontMatterValues := table } := by
  induction values generalizing db with
  | nil =>
    cases h
    exact ⟨_,.nil _,rfl⟩
  | cons value rest ih =>
    simp only [insertValues,bind_ok,require_ok] at h
    obtain ⟨_,_,_,_,table,hinsert,hrest⟩ := h
    obtain ⟨final,hfilled,rfl⟩ := ih hrest
    exact ⟨final,.cons hinsert hfilled,rfl⟩

theorem insertSections_ok {sections : List (String × Bool)}
    (h : insertSections actor paperId sections db = .ok db') :
    ∃ table, db.frontMatterSections.Filled (sections.map (fun item =>
        ((paperId,item.1),(item.2,actor)))) table ∧
      db' = { db with frontMatterSections := table } := by
  induction sections generalizing db with
  | nil =>
    cases h
    exact ⟨_,.nil _,rfl⟩
  | cons item rest ih =>
    simp only [insertSections,bind_ok,require_ok] at h
    obtain ⟨_,_,table,hinsert,hrest⟩ := h
    obtain ⟨final,hfilled,rfl⟩ := ih hrest
    exact ⟨final,.cons hinsert hfilled,rfl⟩

/-! ## Files -/

theorem tombstoneFile_kept (db : Papers.Db) {path : LogicalPath} {id : Uuid} (h : db.files.At (x,path) id) :
    Papers.Kept x db.files (Papers.tombstoneFile db id).files := by
  obtain ⟨file,hfile,hindex⟩ := h
  have hspace := (Papers.liveIndex_eq.mp hindex).2.1
  refine Papers.Rewritten.kept (Or.inr ⟨id,file.tombstone,
    Indexed.get?_updateWhere_key Papers.liveIndex_tombstone hfile,hspace,?_⟩)
  intro other hother
  rw [hfile] at hother
  cases hother
  exact hspace

theorem tombstoneFile_at {path : LogicalPath} {id : Uuid} (h : db.files.At (x,path) id) (q : LogicalPath)
    (k : Uuid) : (Papers.tombstoneFile db id).files.At (x,q) k ↔ q ≠ path ∧ db.files.At (x,q) k := by
  obtain ⟨file,hfile,hindex⟩ := h
  rw [Papers.tombstoneFile,Indexed.at_replaced (Indexed.get?_updateWhere_key Papers.liveIndex_tombstone hfile)]
  by_cases hk : k = id
  · subst hk
    rw [if_pos rfl]
    constructor
    · intro hnone
      cases hnone
    · rintro ⟨hne,hat⟩
      cases hat.key_unique ⟨file,hfile,hindex⟩
      exact absurd rfl hne
  · rw [if_neg hk]
    refine ⟨fun hat => ⟨?_,hat⟩,And.right⟩
    rintro rfl
    exact hk (hat.unique ⟨file,hfile,hindex⟩)

theorem bumpFile_at (db : Papers.Db) (id : Uuid) (q : LogicalPath) (k : Uuid) :
    (Papers.bumpFile db id).files.At (x,q) k ↔ db.files.At (x,q) k := by
  rw [Papers.bumpFile,Indexed.At,Indexed.At,Indexed.get?_updateWhere]
  cases db.files.get? k with
  | none => simp
  | some file =>
    by_cases hk : (k == id) = true
    · simp [hk,Papers.liveIndex,Papers.PaperFile.bump]
    · simp [hk]

theorem bumpFile_kept (db : Papers.Db) {path : LogicalPath} {id : Uuid} (h : db.files.At (x,path) id) :
    Papers.Kept x db.files (Papers.bumpFile db id).files := by
  obtain ⟨file,hfile,hindex⟩ := h
  have hspace := (Papers.liveIndex_eq.mp hindex).2.1
  refine Papers.Rewritten.kept (Or.inr ⟨id,file.bump,
    Indexed.get?_updateWhere_key Papers.liveIndex_bump hfile,hspace,?_⟩)
  intro other hother
  rw [hfile] at hother
  cases hother
  exact hspace

/-- The paths without a requested file are given up, the others stay under their identifiers. -/
structure Removed (x : WorkspaceId) (requested : List LogicalPath) (rows : List (LogicalPath × Uuid))
    (operations : List WorkspaceOperationV1) (db db' : Papers.Db) : Prop where
  operations : operations =
    ((rows.map Prod.fst).filter (fun path => !requested.contains path)).map .deleteFile
  kept : Papers.Kept x db.files db'.files
  live : ∀ q id, db'.files.At (x,q) id ↔
    db.files.At (x,q) id ∧ (q ∈ requested ∨ q ∉ rows.map Prod.fst)

theorem removeStale_ok {requested : List LogicalPath} {rows : List (LogicalPath × Uuid)}
    {operations : List WorkspaceOperationV1} (hlive : ∀ row ∈ rows, db.files.At (x,row.1) row.2)
    (hdistinct : (rows.map Prod.fst).Nodup) (h : removeStale requested rows db = (db',operations)) :
    (∃ files, db' = { db with files := files }) ∧ Removed x requested rows operations db db' := by
  induction rows generalizing db operations with
  | nil =>
    cases h
    exact ⟨⟨_,rfl⟩,⟨rfl,.refl x _,fun q id => by simp⟩⟩
  | cons row rest ih =>
    obtain ⟨path,fileId⟩ := row
    rw [List.map_cons,List.nodup_cons] at hdistinct
    have hat : db.files.At (x,path) fileId := hlive _ (List.mem_cons_self ..)
    have hlater : ∀ row ∈ rest, db.files.At (x,row.1) row.2 := fun row hrow =>
      hlive row (List.mem_cons_of_mem _ hrow)
    rw [removeStale] at h
    split at h
    · next hrequested =>
      obtain ⟨hframe,hremoved⟩ := ih hlater hdistinct.2 h
      refine ⟨hframe,⟨?_,hremoved.kept,?_⟩⟩
      · rw [hremoved.operations,List.map_cons,List.filter_cons_of_neg (by simpa using hrequested)]
      · intro q id
        rw [hremoved.live q id,List.map_cons,List.mem_cons]
        have hpath : path ∈ requested := List.contains_iff_mem.mp hrequested
        refine and_congr_right fun _ => ?_
        constructor
        · rintro (hq | hq)
          · exact .inl hq
          · by_cases hsame : q = path
            · exact .inl (hsame ▸ hpath)
            · exact .inr (not_or.mpr ⟨hsame,hq⟩)
        · rintro (hq | hq)
          · exact .inl hq
          · exact .inr (not_or.mp hq).2
    · next hrequested =>
      cases hrest : removeStale requested rest (Papers.tombstoneFile db fileId) with
      | mk after later =>
        rw [hrest] at h
        cases h
        have hothers : ∀ row ∈ rest, (Papers.tombstoneFile db fileId).files.At (x,row.1) row.2 := by
          refine fun row hrow => (tombstoneFile_at hat _ _).mpr ⟨?_,hlater row hrow⟩
          rintro rfl
          exact hdistinct.1 (List.mem_map.mpr ⟨row,hrow,rfl⟩)
        obtain ⟨⟨files,rfl⟩,hremoved⟩ := ih hothers hdistinct.2 hrest
        refine ⟨⟨files,rfl⟩,⟨?_,(tombstoneFile_kept db hat).trans hremoved.kept,?_⟩⟩
        · rw [hremoved.operations,List.map_cons,List.filter_cons_of_pos (by simpa using hrequested)]
          rfl
        · intro q id
          have hpath : path ∉ requested := fun hmem => hrequested (List.contains_iff_mem.mpr hmem)
          rw [hremoved.live q id,tombstoneFile_at hat,List.map_cons,List.mem_cons]
          constructor
          · rintro ⟨⟨hne,hold⟩,hq⟩
            exact ⟨hold,hq.imp_right fun hq => not_or.mpr ⟨hne,hq⟩⟩
          · rintro ⟨hold,hq | hq⟩
            · exact ⟨⟨fun he => hpath (he ▸ hq),hold⟩,.inl hq⟩
            · exact ⟨⟨(not_or.mp hq).1,hold⟩,.inr (not_or.mp hq).2⟩

structure Placed (x : WorkspaceId) (byPath : List (LogicalPath × Uuid)) (paths : List LogicalPath)
    (db db' : Papers.Db) : Prop where
  managed : ∀ q ∈ paths, inManagedRoot q = true
  distinct : paths.Nodup
  found : ∀ q ∈ paths, (∃ id, db.files.At (x,q) id) → q ∈ byPath.map Prod.fst
  kept : Papers.Kept x db.files db'.files
  live : ∀ q, (∃ id, db'.files.At (x,q) id) ↔ q ∈ paths ∨ ∃ id, db.files.At (x,q) id

theorem placeFile_ok {fresh : Uuid} {byPath byPath' : List (LogicalPath × Uuid)} {file : ManagedFrontMatterFile}
    (hlive : ∀ row ∈ byPath, row.1 = file.path → db.files.At (x,row.1) row.2)
    (h : placeFile x fresh byPath file db = .ok (byPath',db')) :
    (∃ files policies, db' = { db with files := files, policies := policies }) ∧
      byPath' = byPath.filter (fun other => other.1 ≠ file.path) ∧
      (∀ q id, db.files.At (x,q) id → db'.files.At (x,q) id) ∧ Placed x byPath [file.path] db db' := by
  simp only [placeFile,bind_ok,ensure_ok] at h
  obtain ⟨_,hmanaged,_,_,hplace⟩ := h
  cases hfind : byPath.find? (fun row => row.1 = file.path) with
  | some row =>
    rw [hfind] at hplace
    cases hplace
    have hrow : row ∈ byPath := List.mem_of_find?_eq_some hfind
    have hpath : row.1 = file.path := by simpa using List.find?_some hfind
    have hat := hlive row hrow hpath
    refine ⟨⟨_,_,rfl⟩,rfl,fun q id hold => (bumpFile_at db _ q id).mpr hold,?_⟩
    refine ⟨by simpa using hmanaged,List.nodup_singleton _,?_,bumpFile_kept db hat,?_⟩
    · intro q hq _
      rw [List.mem_singleton.mp hq,← hpath]
      exact List.mem_map_of_mem hrow
    · intro q
      refine (exists_congr fun id => bumpFile_at db row.2 q id).trans ⟨.inr,?_⟩
      rintro (hq | hq)
      · rw [List.mem_singleton.mp hq,← hpath]
        exact ⟨_,hat⟩
      · exact hq
  | none =>
    rw [hfind] at hplace
    simp only [bind_ok,mapError_ok,pure_ok,Prod.mk.injEq] at hplace
    obtain ⟨_,hinsert,rfl,rfl⟩ := hplace
    have hfree : ¬∃ id, db.files.At (x,file.path) id := by
      simp only [Papers.insertFile,bind_ok,ensure_ok,Bool.not_eq_true'] at hinsert
      rw [← Papers.occupied_iff,hinsert.choose_spec.1]
      exact Bool.false_ne_true
    obtain ⟨files,hfiles,rfl⟩ := Papers.insertFile_ok hinsert
    obtain ⟨hnone,hget⟩ := Indexed.insert?_eq_some hfiles
    have habsent : ∀ other ∈ byPath, other.1 ≠ file.path := by simpa using List.find?_eq_none.mp hfind
    refine ⟨⟨_,_,rfl⟩,(List.filter_eq_self.mpr (by simpa using habsent)).symm,?_,?_⟩
    · refine fun q id hold => (Indexed.at_replaced hget _ _).mpr ?_
      rw [if_neg]
      · exact hold
      · rintro rfl
        obtain ⟨_,hrow,_⟩ := hold
        rw [hnone] at hrow
        cases hrow
    · refine ⟨by simpa using hmanaged,List.nodup_singleton _,?_,(Papers.rewritten_insert hfiles).kept,?_⟩
      · intro q hq hold
        rw [List.mem_singleton.mp hq] at hold
        exact absurd hold hfree
      · intro q
        rw [List.mem_singleton]
        exact Papers.live_inserted hfiles q

theorem placeFiles_ok {fresh : ℕ → Uuid} {n : ℕ} {byPath : List (LogicalPath × Uuid)}
    {files : List ManagedFrontMatterFile}
    (hlive : ∀ row ∈ byPath, row.1 ∈ files.map (·.path) → db.files.At (x,row.1) row.2)
    (h : placeFiles x fresh n byPath files db = .ok db') :
    (∃ files policies, db' = { db with files := files, policies := policies }) ∧
      Placed x byPath (files.map (·.path)) db db' := by
  induction files generalizing n byPath db with
  | nil =>
    cases h
    exact ⟨⟨_,_,rfl⟩,⟨by simp,List.nodup_nil,by simp,.refl x _,by simp⟩⟩
  | cons file rest ih =>
    rw [placeFiles,bind_ok] at h
    obtain ⟨⟨later,middle⟩,hplace,hrest⟩ := h
    obtain ⟨⟨_,_,hmiddle⟩,hlater,hgrows,hfirst⟩ :=
      placeFile_ok (fun row hrow hpath => hlive row hrow (hpath ▸ List.mem_cons_self ..)) hplace
    have hrows : ∀ row ∈ later, row.1 ∈ rest.map (·.path) → middle.files.At (x,row.1) row.2 := by
      intro row hrow hpath
      rw [hlater] at hrow
      exact hgrows _ _ (hlive row (List.mem_filter.mp hrow).1 (List.mem_cons_of_mem _ hpath))
    obtain ⟨⟨files,policies,rfl⟩,hothers⟩ := ih hrows hrest
    have hhere : ∃ id, middle.files.At (x,file.path) id := (hfirst.live _).mpr (.inl (List.mem_singleton_self _))
    have hleft : ∀ q, q ∈ later.map Prod.fst ↔ q ∈ byPath.map Prod.fst ∧ q ≠ file.path := by
      intro q
      simp only [hlater,List.mem_map,List.mem_filter,decide_eq_true_eq]
      constructor
      · rintro ⟨row,⟨hrow,hne⟩,rfl⟩
        exact ⟨⟨row,hrow,rfl⟩,hne⟩
      · rintro ⟨⟨row,hrow,rfl⟩,hne⟩
        exact ⟨row,⟨hrow,hne⟩,rfl⟩
    have hnew : file.path ∉ rest.map (·.path) := by
      intro hmem
      exact ((hleft _).mp (hothers.found _ hmem hhere)).2 rfl
    refine ⟨⟨files,policies,by rw [hmiddle]⟩,?_⟩
    refine ⟨?_,List.nodup_cons.mpr ⟨hnew,hothers.distinct⟩,?_,hfirst.kept.trans hothers.kept,?_⟩
    · intro q hq
      rcases List.mem_cons.mp hq with rfl | hq
      · exact hfirst.managed _ (List.mem_singleton_self _)
      · exact hothers.managed q hq
    · intro q hq hold
      rcases List.mem_cons.mp hq with rfl | hq
      · exact hfirst.found _ (List.mem_singleton_self _) hold
      · exact ((hleft q).mp (hothers.found q hq ((hfirst.live q).mpr (.inr hold)))).1
    · intro q
      rw [hothers.live q,hfirst.live q,List.mem_singleton,List.map_cons,List.mem_cons,or_left_comm,or_assoc]

/-! ## The transaction -/

structure StoredRows (actor : UserId) (request : ApplyFrontMatterRequest) (db : Papers.Db) : Prop where
  pin : db.frontMatterPins.get? request.paperTeamId = some ⟨request.packId,request.dominantProgrammeCode,
    request.resolutionMethod,actor,"READY",.arr [],none⟩
  values : ∀ key row, db.frontMatterValues.get? (request.paperTeamId,key) = some row ↔
    ∃ value ∈ request.values, value.fieldKey = key ∧ row = ⟨value.valueJson,value.valueSource,actor⟩
  sections : ∀ key row, db.frontMatterSections.get? (request.paperTeamId,key) = some row ↔
    ∃ enabled, request.sections[key]? = some enabled ∧ row = (enabled,actor)

/-- What a successful apply does to the files of the workspace and to its log. -/
structure StoredFiles (x : WorkspaceId) (files : List ManagedFrontMatterFile)
    (db db' : Papers.Db) : Prop where
  managed : ∀ q ∈ files.map (·.path), inManagedRoot q = true
  distinct : (files.map (·.path)).Nodup
  kept : Papers.Kept x db.files db'.files
  live : ∀ q, (∃ id, db'.files.At (x,q) id) ↔
    q ∈ files.map (·.path) ∨ inManagedRoot q = false ∧ ∃ id, db.files.At (x,q) id
  event : ∃ (stale : List LogicalPath) (expected : WorkspaceVersion) (hops : _), stale.Nodup ∧
    (∀ q, q ∈ stale ↔ inManagedRoot q = true ∧ (∃ id, db.files.At (x,q) id) ∧ q ∉ files.map (·.path)) ∧
    Papers.Appended db.store db'.store x expected
      ⟨stale.map .deleteFile ++ files.map putManaged,hops⟩

theorem storeFrontMatter_ok {request : ApplyFrontMatterRequest}
    (h : storeFrontMatter actor request db = .ok db') :
    StoredRows actor request db' ∧ ∃ pins values sections, db' = { db with
      frontMatterPins := pins
      frontMatterValues := values
      frontMatterSections := sections } := by
  simp only [storeFrontMatter,upsertPin,bind_ok,ensure_ok,pure_ok] at h
  obtain ⟨_,⟨_,_,_,_,_,_,rfl⟩,_,hvalues,hsections⟩ := h
  obtain ⟨values,hvaluesFilled,rfl⟩ := insertValues_ok hvalues
  obtain ⟨sections,hsectionsFilled,rfl⟩ := insertSections_ok hsections
  refine ⟨⟨?_,?_,?_⟩,_,values,sections,rfl⟩
  · exact (Table.get?_upsert ..).trans (if_pos rfl)
  · intro key row
    have hentries : request.values.map (fun value =>
        (((request.paperTeamId,value.fieldKey),⟨value.valueJson,value.valueSource,actor⟩) :
          (Uuid × String) × FrontMatterValue)) =
        (request.values.map (fun value => (value.fieldKey,(⟨value.valueJson,value.valueSource,actor⟩ :
          FrontMatterValue)))).map (fun entry => ((request.paperTeamId,entry.1),entry.2)) := by
      rw [List.map_map]
      rfl
    rw [hentries] at hvaluesFilled
    refine hvaluesFilled.get?_group.trans ?_
    simp only [List.mem_map,Prod.mk.injEq]
    exact exists_congr fun value => and_congr_right fun _ => and_congr_right fun _ => eq_comm
  · intro key row
    have hentries : request.sections.toList.map (fun item =>
        (((request.paperTeamId,item.1),(item.2,actor)) : (Uuid × String) × (Bool × UserId))) =
        (request.sections.toList.map (fun item => (item.1,(item.2,actor)))).map
          (fun entry => ((request.paperTeamId,entry.1),entry.2)) := by
      rw [List.map_map]
      rfl
    rw [hentries] at hsectionsFilled
    refine hsectionsFilled.get?_group.trans ?_
    simp only [List.mem_map,Prod.mk.injEq,Prod.exists,ExtTreeMap.mem_toList_iff_getElem?_eq_some]
    constructor
    · rintro ⟨_,enabled,hitem,rfl,rfl⟩
      exact ⟨enabled,hitem,rfl⟩
    · rintro ⟨enabled,hitem,rfl⟩
      exact ⟨key,enabled,hitem,rfl,rfl⟩

theorem recordSafety_frame {request : ApplyFrontMatterRequest} {id : Uuid}
    (h : recordSafety actor request id db = .ok db') : ∃ queue, db' = { db with queue := queue } := by
  unfold recordSafety at h
  split at h
  · cases h
    exact ⟨_,rfl⟩
  · simp only [bind_ok,mapError_ok] at h
    obtain ⟨_,_,hinsert⟩ := h
    obtain ⟨_,_,_,rfl⟩ := Papers.insertPaperVersion_ok hinsert
    exact ⟨_,rfl⟩

theorem mem_managedFiles {path : LogicalPath} {id : Uuid} :
    (path,id) ∈ managedFiles db x ↔ inManagedRoot path = true ∧ db.files.At (x,path) id := by
  simp only [managedFiles,List.mem_map,List.mem_filter,Papers.mem_liveFiles,Prod.exists,Prod.mk.injEq]
  constructor
  · rintro ⟨_,file,⟨⟨hfile,hlive⟩,hmanaged⟩,rfl,rfl⟩
    exact ⟨hmanaged,file,hfile,hlive⟩
  · rintro ⟨hmanaged,file,hfile,hlive⟩
    obtain ⟨_,_,rfl⟩ := Papers.liveIndex_eq.mp hlive
    exact ⟨id,file,⟨⟨hfile,hlive⟩,hmanaged⟩,rfl,rfl⟩

theorem managedFiles_nodup (db : Papers.Db) (x : WorkspaceId) : ((managedFiles db x).map Prod.fst).Nodup := by
  rw [managedFiles,List.map_map]
  exact (Papers.liveFiles_nodup db x).sublist (List.filter_sublist.map _)

theorem applyRender_ok {compatible : Uuid → Bool} {request : ApplyFrontMatterRequest} {fresh : FreshRender}
    {version : ℕ} (hfiles : request.files ≠ [])
    (h : applyRender compatible actor request fresh db = .ok (db',version)) :
    StoredRows actor request db' ∧ StoredFiles request.workspaceId request.files db db' ∧
      db'.paperTeams = db.paperTeams := by
  simp only [applyRender,bind_ok,require_ok,ensure_ok,decide_eq_true_eq] at h
  obtain ⟨_,_,_,_,head,hhead,_,_,recorded,hrecorded,_,_,h⟩ := h
  obtain ⟨queue,rfl⟩ := recordSafety_frame hrecorded
  cases hremove : removeStale (request.files.map (·.path)) (managedFiles { db with queue := queue }
      request.workspaceId) { db with queue := queue } with
  | mk removed deletions =>
    rw [hremove] at h
    simp only [mapError_ok,pure_ok,Prod.mk.injEq] at h
    obtain ⟨placed,hplaced,_,hbound,store,hstore,final,hfinal,rfl,_⟩ := h
    obtain ⟨⟨files,rfl⟩,hremoved⟩ := removeStale_ok (fun row hrow => (mem_managedFiles.mp hrow).2)
      (managedFiles_nodup _ _) hremove
    have hleft : ∀ row ∈ managedFiles { db with queue := queue } request.workspaceId,
        row.1 ∈ request.files.map (·.path) → files.At (request.workspaceId,row.1) row.2 :=
      fun row hrow hpath => (hremoved.live _ _).mpr ⟨(mem_managedFiles.mp hrow).2,.inl hpath⟩
    obtain ⟨⟨files',policies,rfl⟩,hplaced⟩ := placeFiles_ok hleft hplaced
    obtain ⟨hrows,_,_,_,rfl⟩ := storeFrontMatter_ok hfinal
    have hpaths : ∀ q, q ∈ (managedFiles { db with queue := queue } request.workspaceId).map Prod.fst ↔
        inManagedRoot q = true ∧ ∃ id, db.files.At (request.workspaceId,q) id := by
      intro q
      rw [List.mem_map]
      constructor
      · rintro ⟨row,hrow,rfl⟩
        exact ⟨(mem_managedFiles.mp hrow).1,row.2,(mem_managedFiles.mp hrow).2⟩
      · rintro ⟨hmanaged,id,hat⟩
        exact ⟨(q,id),mem_managedFiles.mpr ⟨hmanaged,hat⟩,rfl⟩
    have hops : deletions ++ request.files.map putManaged ≠ [] := by
      simp [hfiles]
    refine ⟨hrows,⟨hplaced.managed,hplaced.distinct,hremoved.kept.trans hplaced.kept,?_,?_⟩,rfl⟩
    · intro q
      rw [hplaced.live q]
      constructor
      · rintro (hq | ⟨id,hat⟩)
        · exact .inl hq
        · obtain ⟨hold,hq | hq⟩ := (hremoved.live q id).mp hat
          · exact .inl hq
          · refine .inr ⟨?_,id,hold⟩
            rw [Bool.eq_false_iff]
            exact fun hmanaged => hq ((hpaths q).mpr ⟨hmanaged,id,hold⟩)
      · rintro (hq | ⟨hmanaged,id,hold⟩)
        · exact .inl hq
        · refine .inr ⟨id,(hremoved.live q id).mpr ⟨hold,.inr fun hq => ?_⟩⟩
          rw [((hpaths q).mp hq).1] at hmanaged
          cases hmanaged
    · rw [hremoved.operations] at hops hstore
      refine ⟨_,head.durableVersion,hops,(managedFiles_nodup _ _).filter _,?_,
        Papers.insertNextEvent_ok hhead hbound hstore⟩
      intro q
      rw [List.mem_filter,hpaths q]
      simp [and_assoc]

/-! ## The event -/

section Event
variable {files : List ManagedFrontMatterFile}

def entryOf (file : ManagedFrontMatterFile) : LogicalPath × FileEntryV1 :=
  (file.path,⟨file.blobHash,file.sizeBytes⟩)

theorem foldlM_putManaged (state : WorkspaceState) (hdistinct : (files.map (·.path)).Nodup) :
    ∃ next, (files.map putManaged).foldlM WorkspaceState.applyOperation state = .ok next ∧
      (∀ file ∈ files, next.files[file.path]? = some ⟨file.blobHash,file.sizeBytes⟩) ∧
      ∀ q, q ∉ files.map (·.path) → next.files[q]? = state.files[q]? := by
  have hkeys : (files.map entryOf).map Prod.fst = files.map (·.path) := by
    rw [List.map_map]
    rfl
  have hputs : (files.map entryOf).map Papers.putEntry = files.map putManaged := by
    rw [List.map_map]
    rfl
  have hentries : ((files.map entryOf).map Prod.fst).Nodup := by
    rw [hkeys]
    exact hdistinct
  obtain ⟨next,hnext,-,hput,hothers⟩ := Papers.foldlM_put state hentries
  rw [hputs] at hnext
  rw [hkeys] at hothers
  exact ⟨next,hnext,fun file hfile => hput _ (List.mem_map_of_mem hfile),hothers⟩

theorem StoredFiles.contents (h : StoredFiles x files db db') {state : WorkspaceState}
    (hstate : HeadState db'.store x state) :
    ∀ file ∈ files, state.files[file.path]? = some ⟨file.blobHash,file.sizeBytes⟩ := by
  obtain ⟨stale,expected,hops,-,-,happended⟩ := h.event
  obtain ⟨head,-,-,hlogged⟩ := happended.logged
  have hlog : db'.store.log x = db.store.log x ++ [recordOf expected
      ⟨stale.map .deleteFile ++ files.map putManaged,hops⟩] := by
    rw [hlogged.log,if_pos rfl]
  have hreplayed := hstate.replayed
  rw [List.take_length,hlog,List.foldlM_append,bind_ok] at hreplayed
  obtain ⟨before,-,hreplayed⟩ := hreplayed
  rw [List.foldlM_cons,bind_ok] at hreplayed
  obtain ⟨after,hevent,hafter⟩ := hreplayed
  cases hafter
  obtain ⟨applied,hfold,hsame⟩ := replayEvent_recordOf_ok hevent
  rw [List.foldlM_append,bind_ok] at hfold
  obtain ⟨emptied,-,hputs⟩ := hfold
  obtain ⟨next,hnext,hcontents,-⟩ := foldlM_putManaged emptied h.distinct
  rw [hputs,Except.ok.injEq] at hnext
  subst hnext
  rw [hsame]
  exact hcontents

end Event

/-! ## Renderings -/

def storedFile (codec : Codec) (file : RenderedFile) : ManagedFrontMatterFile :=
  ⟨file.path,codec.sha256 file.bytes,UInt64.ofNat file.bytes.length⟩

theorem putRendered_observed {codec : Codec} {files : List RenderedFile} {s t : Store}
    {stored : Except BlobStoreError (List ManagedFrontMatterFile)} (h : putRendered codec files s = (t,stored)) :
    Observed s t ∧ ∀ all, stored = .ok all → all = files.map (storedFile codec) := by
  induction files generalizing s stored with
  | nil =>
    cases h
    exact ⟨.refl _,fun all hall => by cases hall; rfl⟩
  | cons file rest ih =>
    rw [putRendered] at h
    split at h
    · cases h
      exact ⟨.refl _,fun all hall => by cases hall⟩
    · next middle result hwrite =>
      cases hrest : putRendered codec rest middle with
      | mk final later =>
        rw [hrest] at h
        cases h
        obtain ⟨hobserved,hlater⟩ := ih hrest
        refine ⟨(observed_writeVerified hwrite).trans hobserved,fun all hall => ?_⟩
        obtain ⟨-,rfl,-⟩ := writeVerified_ok hwrite
        cases later with
        | error e => cases hall
        | ok more =>
          rw [List.map_cons,← hlater more rfl]
          cases hall
          rfl

end LatexCore.FrontMatter
