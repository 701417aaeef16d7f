import LatexCore.Papers.Machine
import LatexCore.Workspace.Snapshot

/-! # What the edits change

The inversion of every transaction that changes files: the tables that it leaves
are the old ones with the named fields replaced. An append adds one event to the
log of one workspace, and an edit writes one row of the file table beside it.
-/
namespace LatexCore.Papers
open Core Foundation Workspace
open Collaboration (V2FilePolicy CollaborationUpdateInput)
variable {db db' : Db} {x : WorkspaceId} {actor : UserId}

/-! ## The log -/

structure Appended (s t : Store) (x : WorkspaceId) (expected : WorkspaceVersion)
    (mutation : WorkspaceMutationV1) : Prop where
  logged : ∃ head, s.heads.get? x = some head ∧ head.durableVersion = expected ∧
    Logged s t x (recordOf expected mutation) head.latestSnapshotVersion
  workspaces : t.workspaces = s.workspaces
  tenants : t.tenants = s.tenants
  users : t.users = s.users
  verifyOnRead : t.verifyOnRead = s.verifyOnRead

theorem insertNextEvent_ok {s t : Store} {head : HeadRow} {mutation : WorkspaceMutationV1}
    (hhead : s.heads.get? x = some head) (hbound : head.durableVersion < i64Max)
    (h : insertNextEvent s x actor head mutation.operations = .ok t) :
    Appended s t x head.durableVersion mutation := by
  simp only [insertNextEvent,bind_ok,mapError_ok,pure_ok] at h
  obtain ⟨middle,hinsert,rfl⟩ := h
  obtain ⟨events,hevents,rfl⟩ := insertEvent_ok hinsert
  refine ⟨⟨head,hhead,rfl,?_⟩,rfl,rfl,rfl,rfl⟩
  exact {
    log := log_insert hevents
    head := by
      rw [Table.get?_modify_self,hhead]
      rfl
    heads := fun y hy => Table.get?_modify_of_ne _ hy _
    blobs := rfl
    snapshots := rfl
    workspaceSnapshots := rfl
    bound := hbound }

theorem appendWorkspaceOperations_ok {expected version : WorkspaceVersion}
    {operations : List WorkspaceOperationV1} (hops : operations ≠ [])
    (h : appendWorkspaceOperations x actor expected operations db = .ok (db',version)) :
    version = expected + 1 ∧ ∃ store, Appended db.store store x expected ⟨operations,hops⟩ ∧
      db' = { db with store := store, queue := invalidateDesired db.queue x (expected + 1) } := by
  simp only [appendWorkspaceOperations,bind_ok,ensure_ok,require_ok,pure_ok,decide_eq_true_eq,
    Prod.mk.injEq] at h
  obtain ⟨_,_,head,hhead,_,rfl,_,hbound,store,hstore,rfl,rfl⟩ := h
  have happended : Appended db.store store x head.durableVersion ⟨operations,hops⟩ :=
    insertNextEvent_ok hhead hbound hstore
  exact ⟨rfl,store,happended,rfl⟩

/-! ## Rows of files and of the structural history -/

theorem insertFile_ok {id : Uuid} {path : LogicalPath} {taken : V2Error}
    (h : insertFile db id x path taken = .ok db') :
    ∃ files, db.files.insert? id ⟨x,path,1,false⟩ = some files ∧ db' = { db with files := files } := by
  simp only [insertFile,bind_ok,ensure_ok,require_ok,pure_ok] at h
  obtain ⟨_,_,files,hfiles,rfl⟩ := h
  exact ⟨files,hfiles,rfl⟩

theorem updateFile_ok {id : Uuid} {update : PaperFile → PaperFile} {error : V2Error}
    (h : updateFile db id update error = .ok db') :
    ∃ files, db.files.modify? id update = some files ∧ db' = { db with files := files } := by
  simp only [updateFile,bind_ok,require_ok,pure_ok] at h
  obtain ⟨files,hfiles,rfl⟩ := h
  exact ⟨files,hfiles,rfl⟩

theorem recordStructuralOperation_ok {id : Uuid} {operationType : String} {fileId : Option Uuid}
    {forward inverse : Value} {before after : ℕ}
    (h : recordStructuralOperation id x actor operationType fileId forward inverse before after db =
      .ok db') : ∃ operations, db' = { db with operations := operations } := by
  simp only [recordStructuralOperation,bind_ok,require_ok,pure_ok] at h
  obtain ⟨_,_,_,_,_,_,operations,_,rfl⟩ := h
  exact ⟨operations,rfl⟩

theorem lockAnyFile_ok {id : Uuid} {file : PaperFile} :
    lockAnyFile db id = .ok file ↔ db.files.get? id = some file := require_ok

theorem lockLiveFile_ok {id : Uuid} {file : PaperFile} :
    lockLiveFile db id = .ok file ↔ db.files.get? id = some file ∧ file.tombstoned = false := by
  simp only [lockLiveFile,bind_ok,lockAnyFile_ok,ensure_ok,pure_ok,Bool.not_eq_true']
  constructor
  · rintro ⟨_,hfile,_,hlive,rfl⟩
    exact ⟨hfile,hlive⟩
  · rintro ⟨hfile,hlive⟩
    exact ⟨file,hfile,(),hlive,rfl⟩

/-! ## The edits of a writer -/

inductive FileEdit (files : PaperFiles) (x : WorkspaceId) :
    PaperFiles → List WorkspaceOperationV1 → Prop
  | create (id : Uuid) (path : LogicalPath) (blobHash : BlobHash) (sizeBytes : UInt64)
      {files' : PaperFiles} (h : files.insert? id ⟨x,path,1,false⟩ = some files') :
      FileEdit files x files' [.putFile path blobHash sizeBytes]
  | save (id : Uuid) (file : PaperFile) (blobHash : BlobHash) (sizeBytes : UInt64)
      (hfile : files.get? id = some file) (hlive : liveIndex id file = some (x,file.path)) :
      FileEdit files x
        (files.updateWhere (fun k _ => k == id) PaperFile.bump liveIndex_bump)
        [.putFile file.path blobHash sizeBytes]
  | rename (id : Uuid) (file : PaperFile) (path : LogicalPath)
      (hfile : files.get? id = some file) (hlive : liveIndex id file = some (x,file.path))
      {files' : PaperFiles} (h : files.modify? id (PaperFile.moveTo path) = some files') :
      FileEdit files x files' [.renameFile file.path path]
  | delete (id : Uuid) (file : PaperFile)
      (hfile : files.get? id = some file) (hlive : liveIndex id file = some (x,file.path)) :
      FileEdit files x
        (files.updateWhere (fun k _ => k == id) PaperFile.tombstone liveIndex_tombstone)
        [.deleteFile file.path]
  | setMain (id : Uuid) (file : PaperFile)
      (hfile : files.get? id = some file) (hlive : liveIndex id file = some (x,file.path)) :
      FileEdit files x files [.setMainFile file.path]
  | revive (id : Uuid) (file : PaperFile) (blobHash : BlobHash) (sizeBytes : UInt64) (main : Bool)
      (hfile : files.get? id = some file) (hspace : file.workspaceId = x)
      {files' : PaperFiles} (h : files.modify? id PaperFile.revive = some files') :
      FileEdit files x files'
        (.putFile file.path blobHash sizeBytes :: if main then [.setMainFile file.path] else [])

theorem liveIndex_eq {id : Uuid} {file : PaperFile} {y : WorkspaceId} {path : LogicalPath} :
    liveIndex id file = some (y,path) ↔
      file.tombstoned = false ∧ file.workspaceId = y ∧ file.path = path := by
  unfold liveIndex
  cases file.tombstoned with
  | true => simp
  | false => simp

theorem liveIndex_self {id : Uuid} {file : PaperFile} (h : file.tombstoned = false) :
    liveIndex id file = some (file.workspaceId,file.path) := liveIndex_eq.mpr ⟨h,rfl,rfl⟩

/-- An edit of the files of a workspace with its event; besides them it changes the structural
history, the collaboration updates and the scheduler alone. -/
structure Edited (db db' : Db) (x : WorkspaceId) : Prop where
  intro ::
  exists_edit : ∃ expected operations hops store files history updates next,
    Appended db.store store x expected ⟨operations,hops⟩ ∧ FileEdit db.files x files operations ∧
      db' = { db with
        store := store
        queue := invalidateDesired db.queue x (expected + 1)
        files := files
        operations := history
        updates := updates
        nextUpdateId := next }

theorem createFileWithEvent_ok {expected : WorkspaceVersion} {path : LogicalPath}
    {blobHash : BlobHash} {sizeBytes : UInt64} {fresh : FreshFile} {r : Uuid × WorkspaceVersion}
    (h : createFileWithEvent x actor expected path blobHash sizeBytes fresh db = .ok (db',r)) :
    requireWriterWorkspaceAccess db actor x = .ok () ∧ Edited db db' x := by
  simp only [createFileWithEvent,bind_ok,pure_ok,Prod.exists,Prod.mk.injEq] at h
  obtain ⟨_,_,_,haccess,_,hinsert,_,_,happend,_,hrecord,rfl,_⟩ := h
  obtain ⟨files,hfiles,rfl⟩ := insertFile_ok hinsert
  obtain ⟨rfl,store,hstore,rfl⟩ := appendWorkspaceOperations_ok (List.cons_ne_nil _ _) happend
  obtain ⟨history,rfl⟩ := recordStructuralOperation_ok hrecord
  exact ⟨haccess,⟨expected,_,_,store,files,history,_,_,hstore,.create _ _ _ _ hfiles,rfl⟩⟩

theorem saveFileWithEvent_ok {id : Uuid} {expected version : WorkspaceVersion} {blobHash : BlobHash}
    {sizeBytes : UInt64}
    (h : saveFileWithEvent id actor expected blobHash sizeBytes db = .ok (db',version)) :
    ∃ x, requireWriterWorkspaceAccess db actor x = .ok () ∧ Edited db db' x := by
  simp only [saveFileWithEvent,bind_ok,pure_ok,Prod.exists,Prod.mk.injEq,lockLiveFile_ok] at h
  obtain ⟨file,⟨hfile,hlive⟩,_,haccess,_,_,_,_,happend,rfl,_⟩ := h
  obtain ⟨rfl,store,hstore,rfl⟩ := appendWorkspaceOperations_ok (List.cons_ne_nil _ _) happend
  exact ⟨_,haccess,⟨expected,_,_,store,_,_,_,_,hstore,.save id file _ _ hfile (liveIndex_self hlive),rfl⟩⟩

theorem renameFileWithEvent_ok {id operation : Uuid} {expected version : WorkspaceVersion}
    {path : LogicalPath}
    (h : renameFileWithEvent id actor expected path operation db = .ok (db',version)) :
    ∃ x, requireWriterWorkspaceAccess db actor x = .ok () ∧ Edited db db' x := by
  simp only [renameFileWithEvent,bind_ok,pure_ok,Prod.exists,Prod.mk.injEq,lockLiveFile_ok] at h
  obtain ⟨_,_,file,⟨hfile,hlive⟩,_,haccess,_,_,_,_,happend,_,hupdate,_,hrecord,rfl,_⟩ := h
  obtain ⟨rfl,store,hstore,rfl⟩ := appendWorkspaceOperations_ok (List.cons_ne_nil _ _) happend
  obtain ⟨files,hfiles,rfl⟩ := updateFile_ok hupdate
  obtain ⟨history,rfl⟩ := recordStructuralOperation_ok hrecord
  exact ⟨_,haccess,⟨expected,_,_,store,files,history,_,_,hstore,
    .rename id file path hfile (liveIndex_self hlive) hfiles,rfl⟩⟩

theorem deleteFileWithEvent_ok {id operation : Uuid} {expected version : WorkspaceVersion}
    {blobHash : BlobHash} {sizeBytes : UInt64} {wasMain : Bool}
    (h : deleteFileWithEvent id actor expected blobHash sizeBytes wasMain operation db =
      .ok (db',version)) :
    ∃ x, requireWriterWorkspaceAccess db actor x = .ok () ∧ Edited db db' x := by
  simp only [deleteFileWithEvent,bind_ok,pure_ok,Prod.exists,Prod.mk.injEq,lockLiveFile_ok] at h
  obtain ⟨file,⟨hfile,hlive⟩,_,haccess,_,_,_,_,happend,_,hrecord,rfl,_⟩ := h
  obtain ⟨rfl,store,hstore,rfl⟩ := appendWorkspaceOperations_ok (List.cons_ne_nil _ _) happend
  obtain ⟨history,rfl⟩ := recordStructuralOperation_ok hrecord
  exact ⟨_,haccess,⟨expected,_,_,store,_,history,_,_,hstore,
    .delete id file hfile (liveIndex_self hlive),rfl⟩⟩

theorem setMainWithEvent_ok {id operation : Uuid} {expected version : WorkspaceVersion}
    {previousMain : Option LogicalPath}
    (h : setMainWithEvent id actor expected previousMain operation db = .ok (db',version)) :
    ∃ x, requireWriterWorkspaceAccess db actor x = .ok () ∧ Edited db db' x := by
  simp only [setMainWithEvent,bind_ok,Prod.exists,lockLiveFile_ok] at h
  obtain ⟨file,⟨hfile,hlive⟩,_,haccess,_,_,_,_,happend,hrecord⟩ := h
  obtain ⟨rfl,store,hstore,rfl⟩ := appendWorkspaceOperations_ok (List.cons_ne_nil _ _) happend
  have hedit := FileEdit.setMain (x := file.workspaceId) id file hfile (liveIndex_self hlive)
  refine ⟨_,haccess,?_⟩
  split at hrecord
  · cases hrecord
    exact ⟨expected,_,_,store,_,_,_,_,hstore,hedit,rfl⟩
  · simp only [bind_ok,pure_ok,Prod.mk.injEq] at hrecord
    obtain ⟨_,hrecord,rfl,_⟩ := hrecord
    obtain ⟨history,rfl⟩ := recordStructuralOperation_ok hrecord
    exact ⟨expected,_,_,store,_,history,_,_,hstore,hedit,rfl⟩

theorem insertUpdates_ok {document : Collaboration.DocumentKey} {last r : ℕ}
    {inputs : List (CollaborationUpdateInput Bytes)}
    (h : insertUpdates document db last inputs = .ok (db',r)) :
    ∃ updates next, db' = { db with updates := updates, nextUpdateId := next } := by
  induction inputs generalizing db last with
  | nil =>
    cases h
    exact ⟨_,_,rfl⟩
  | cons input rest ih =>
    simp only [insertUpdates,bind_ok,ensure_ok] at h
    obtain ⟨_,_,_,_,hrest⟩ := h
    obtain ⟨updates,next,rfl⟩ := ih hrest
    exact ⟨updates,next,rfl⟩

/-- A batch puts the file of its document, whatever the status of the paper is. -/
theorem persistCollaborationBatch_ok {id : Uuid} {documentEpoch sequence : ℕ}
    {inputs : List (CollaborationUpdateInput Bytes)} {blobHash : BlobHash} {sizeBytes : UInt64}
    (h : persistCollaborationBatch x id documentEpoch inputs blobHash sizeBytes db =
      .ok (db',sequence)) : Edited db db' x := by
  simp only [persistCollaborationBatch,bind_ok,pure_ok,Prod.exists,Prod.mk.injEq,lockLiveFile_ok,
    ensure_ok,decide_eq_true_eq] at h
  obtain ⟨_,_,_,_,file,⟨hfile,hlive⟩,_,rfl,_,_,_,_,_,_,_,_,hupdates,head,_,_,_,happend,rfl,_⟩ := h
  obtain ⟨updates,next,rfl⟩ := insertUpdates_ok hupdates
  obtain ⟨_,store,hstore,rfl⟩ := appendWorkspaceOperations_ok (List.cons_ne_nil _ _) happend
  exact ⟨_,_,_,store,_,_,_,_,hstore,.save id file _ _ hfile (liveIndex_self hlive),rfl⟩

/-! ## Undo and redo -/

theorem occupied_iff {path : LogicalPath} :
    occupied db x path = true ↔ ∃ id, db.files.At (x,path) id := by
  simp only [occupied,List.any_eq_true,Bool.and_eq_true,beq_iff_eq,Bool.not_eq_true']
  constructor
  · rintro ⟨⟨id,file⟩,hmem,⟨hspace,hpath⟩,hlive⟩
    exact ⟨id,file,Table.mem_rows_iff.mp hmem,liveIndex_eq.mpr ⟨hlive,hspace,hpath⟩⟩
  · rintro ⟨id,file,hfile,hindex⟩
    obtain ⟨hlive,hspace,hpath⟩ := liveIndex_eq.mp hindex
    exact ⟨(id,file),Table.mem_rows_iff.mpr hfile,⟨hspace,hpath⟩,hlive⟩

theorem applyCreate_ok {payload : Value} {operations : List WorkspaceOperationV1}
    (h : applyCreate x payload db = .ok (db',operations)) :
    operations ≠ [] ∧ ∃ files, FileEdit db.files x files operations ∧ db' = { db with files := files } := by
  simp only [applyCreate,bind_ok,ensure_ok,pure_ok,lockAnyFile_ok,decide_eq_true_eq,
    Prod.mk.injEq] at h
  obtain ⟨id,_,_,_,_,_,blobHash,_,sizeBytes,_,file,hfile,_,⟨hspace,_,rfl⟩,_,_,_,hupdate,rfl,rfl⟩ := h
  obtain ⟨files,hfiles,rfl⟩ := updateFile_ok hupdate
  exact ⟨List.cons_ne_nil _ _,files,.revive id file blobHash sizeBytes _ hfile hspace hfiles,rfl⟩

theorem applyStructuralPayload_ok {payload : Value} {operations : List WorkspaceOperationV1}
    (h : applyStructuralPayload x payload db = .ok (db',operations)) :
    operations ≠ [] ∧ ∃ files, FileEdit db.files x files operations ∧ db' = { db with files := files } := by
  unfold applyStructuralPayload at h
  split at h
  · simp only [applyDelete,bind_ok,ensure_ok,pure_ok,lockAnyFile_ok,decide_eq_true_eq,
      Prod.mk.injEq] at h
    obtain ⟨id,_,_,_,_,_,_,_,file,hfile,_,⟨rfl,hlive,rfl,_⟩,rfl,rfl⟩ := h
    exact ⟨List.cons_ne_nil _ _,_,.delete id file hfile (liveIndex_self hlive),rfl⟩
  · exact applyCreate_ok h
  · exact applyCreate_ok h
  · simp only [applyRename,bind_ok,ensure_ok,pure_ok,lockAnyFile_ok,decide_eq_true_eq,
      Prod.mk.injEq] at h
    obtain ⟨id,_,_,_,target,_,_,_,_,_,_,_,file,hfile,_,⟨rfl,hlive,rfl,_⟩,_,hupdate,rfl,rfl⟩ := h
    obtain ⟨files,hfiles,rfl⟩ := updateFile_ok hupdate
    exact ⟨List.cons_ne_nil _ _,files,.rename id file target hfile (liveIndex_self hlive) hfiles,rfl⟩
  · simp only [applySetMain,bind_ok,ensure_ok,pure_ok,Prod.mk.injEq] at h
    obtain ⟨_,_,target,_,_,_,_,_,_,_,_,_,_,hoccupied,rfl,rfl⟩ := h
    obtain ⟨id,file,hfile,hlive⟩ := occupied_iff.mp hoccupied
    obtain ⟨_,_,rfl⟩ := liveIndex_eq.mp hlive
    exact ⟨List.cons_ne_nil _ _,_,.setMain id file hfile hlive,rfl⟩
  · cases h
  · cases h

theorem patchRevision_ok {id : Uuid} {fileId : Option Uuid} {redo : Bool}
    (h : patchRevision db id fileId redo = .ok db') :
    ∃ history, db' = { db with operations := history } := by
  unfold patchRevision at h
  split at h
  · cases h
    exact ⟨_,rfl⟩
  · simp only [bind_ok,pure_ok] at h
    obtain ⟨_,_,rfl⟩ := h
    exact ⟨_,rfl⟩

theorem applyStructuralHistory_ok {paperId : Uuid} {redo : Bool} {r : StructuralOperationResult}
    (h : applyStructuralHistory paperId x actor redo db = .ok (db',r)) :
    requireWriterWorkspaceAccess db actor x = .ok () ∧ Edited db db' x := by
  simp only [applyStructuralHistory,bind_ok,pure_ok,Prod.exists,Prod.mk.injEq] at h
  obtain ⟨_,haccess,_,_,_,_,_,_,_,head,_,_,operations,hpayload,_,hpatch,_,_,happend,rfl,_⟩ := h
  obtain ⟨hops,files,hedit,rfl⟩ := applyStructuralPayload_ok hpayload
  obtain ⟨history,rfl⟩ := patchRevision_ok hpatch
  obtain ⟨_,store,hstore,rfl⟩ := appendWorkspaceOperations_ok hops happend
  exact ⟨haccess,⟨head.durableVersion,operations,hops,store,files,_,_,_,hstore,hedit,rfl⟩⟩

/-! ## Creation with a new workspace -/

inductive Seeded (x : WorkspaceId) : PaperFiles → List LogicalPath → PaperFiles → Prop
  | nil (files : PaperFiles) : Seeded x files [] files
  | cons (id : Uuid) (path : LogicalPath) {files middle files' : PaperFiles}
      {rest : List LogicalPath} (h : files.insert? id ⟨x,path,1,false⟩ = some middle)
      (hrest : Seeded x middle rest files') : Seeded x files (path :: rest) files'

/-- The first event of a workspace, which puts its files and names one of them the main file. -/
def foundingMutation (seeds : List TemplateSeedFile) (main : LogicalPath) : WorkspaceMutationV1 :=
  ⟨seeds.map seedOperation ++ [.setMainFile main],by simp⟩

/-- A workspace that did not exist gets its first event and an identity row for each file. -/
structure Founded (db db' : Db) (x : WorkspaceId) : Prop where
  intro ::
  newWorkspace : db.store.workspaces.get? x = none
  newHead : db.store.heads.get? x = none
  workspaces : ∃ row, ∀ y, db'.store.workspaces.get? y =
    if y = x then some row else db.store.workspaces.get? y
  exists_seeds : ∃ seeds main, main ∈ seeds.map TemplateSeedFile.path ∧
    Logged db.store db'.store x (recordOf 0 (foundingMutation seeds main)) none ∧
    Seeded x db.files (seeds.map TemplateSeedFile.path) db'.files
  queue : db'.queue = db.queue
  documentEpochs : db'.documentEpochs = db.documentEpochs

theorem insertWorkspace_ok {s t : Store} {tenant : TenantId} {owner : UserId}
    {mutation : WorkspaceMutationV1}
    (h : insertWorkspace s tenant owner x mutation.operations = .ok t) :
    s.workspaces.get? x = none ∧ s.heads.get? x = none ∧
      (∀ y, t.workspaces.get? y = if y = x then some (tenant,owner) else s.workspaces.get? y) ∧
      Logged s t x (recordOf 0 mutation) none := by
  simp only [insertWorkspace,bind_ok,ensure_ok,require_ok,mapError_ok] at h
  obtain ⟨workspaces,hworkspaces,_,_,_,_,heads,hheads,hinsert⟩ := h
  obtain ⟨events,hevents,rfl⟩ := insertEvent_ok hinsert
  refine ⟨(Table.insert?_eq_some hworkspaces).1,(Table.insert?_eq_some hheads).1,
    Table.get?_insert? hworkspaces,?_⟩
  exact {
    log := log_insert hevents
    head := (Table.get?_insert? hheads x).trans (if_pos rfl)
    heads := fun y hy => (Table.get?_insert? hheads y).trans (if_neg hy)
    blobs := rfl
    snapshots := rfl
    workspaceSnapshots := rfl
    bound := by simp [recordOf,i64Max] }

theorem createInitialWorkspace_ok {tenant : TenantId} {owner : UserId} {main : LogicalPath}
    {blobHash : BlobHash} {sizeBytes : UInt64}
    (h : createInitialWorkspace db tenant owner x main blobHash sizeBytes = .ok db') :
    ∃ store, db' = { db with store := store } ∧ insertWorkspace db.store tenant owner x
      (foundingMutation [⟨main,blobHash,sizeBytes,.editable⟩] main).operations = .ok store := by
  simp only [createInitialWorkspace,bind_ok,pure_ok] at h
  obtain ⟨store,hstore,rfl⟩ := h
  exact ⟨store,rfl,hstore⟩

theorem insertPersonalPaper_ok {id : Uuid} {owner : UserId} {name : String}
    (h : insertPersonalPaper db id owner x name = .ok db') :
    ∃ papers, db.personalPapers.insert? id ⟨owner,x,name,.active⟩ = some papers ∧
      db' = { db with personalPapers := papers } := by
  simp only [insertPersonalPaper,bind_ok,require_ok,pure_ok] at h
  obtain ⟨_,_,papers,hpapers,rfl⟩ := h
  exact ⟨papers,hpapers,rfl⟩

theorem insertPaperTeam_ok {id : Uuid} {creator : UserId} {name : String}
    (h : insertPaperTeam db id creator x name = .ok db') :
    ∃ teams, db.paperTeams.insert? id ⟨x,name,.active,creator⟩ = some teams ∧
      db' = { db with paperTeams := teams } := by
  simp only [insertPaperTeam,bind_ok,require_ok,pure_ok] at h
  obtain ⟨_,_,teams,hteams,rfl⟩ := h
  exact ⟨teams,hteams,rfl⟩

theorem insertMember_ok {team : Uuid} {user : UserId} {member : PaperTeamMember} {taken : V2Error}
    (h : insertMember db team user member taken = .ok db') :
    ∃ members, db.members.insert? (team,user) member = some members ∧
      db' = { db with members := members } := by
  simp only [insertMember,bind_ok,require_ok,pure_ok] at h
  obtain ⟨_,_,members,hmembers,rfl⟩ := h
  exact ⟨members,hmembers,rfl⟩

theorem insertMembers_frame {team : Uuid} {assignedBy leader : UserId} {writers users : List UserId}
    (h : insertMembers team assignedBy leader writers users db = .ok db') :
    ∃ members, db' = { db with members := members } := by
  induction users generalizing db with
  | nil =>
    cases h
    exact ⟨_,rfl⟩
  | cons user rest ih =>
    rw [insertMembers,bind_ok] at h
    obtain ⟨middle,hinsert,hrest⟩ := h
    obtain ⟨_,_,rfl⟩ := insertMember_ok hinsert
    obtain ⟨members,rfl⟩ := ih hrest
    exact ⟨members,rfl⟩

theorem insertSeedFiles_ok {fileId : ℕ → Uuid} {n : ℕ} {seeds : List TemplateSeedFile}
    (h : insertSeedFiles x fileId n seeds db = .ok db') :
    ∃ files policies, Seeded x db.files (seeds.map TemplateSeedFile.path) files ∧
      db' = { db with files := files, policies := policies } := by
  induction seeds generalizing n db with
  | nil =>
    cases h
    exact ⟨_,_,.nil _,rfl⟩
  | cons seed rest ih =>
    rw [insertSeedFiles,bind_ok] at h
    obtain ⟨middle,hinsert,hrest⟩ := h
    obtain ⟨middleFiles,hmiddle,rfl⟩ := insertFile_ok hinsert
    obtain ⟨files,policies,hseeded,rfl⟩ := ih hrest
    exact ⟨files,policies,.cons _ _ hmiddle hseeded,rfl⟩

theorem createInitializedPersonalPaper_ok {owner : UserId} {tenant : TenantId} {name : String}
    {main : LogicalPath} {blobHash : BlobHash} {sizeBytes : UInt64} {id fileId : Uuid} {u : Unit}
    (h : createInitializedPersonalPaper owner tenant x name main blobHash sizeBytes id fileId db =
      .ok (db',u)) :
    Founded db db' x ∧ db'.paperTeams = db.paperTeams ∧
      db.personalPapers.insert? id ⟨owner,x,name,.active⟩ = some db'.personalPapers := by
  simp only [createInitializedPersonalPaper,bind_ok,pure_ok,Prod.mk.injEq] at h
  obtain ⟨_,_,_,_,_,_,_,hworkspace,_,hpaper,_,hfile,rfl,_⟩ := h
  obtain ⟨store,rfl,hstore⟩ := createInitialWorkspace_ok hworkspace
  obtain ⟨papers,hpapers,rfl⟩ := insertPersonalPaper_ok hpaper
  obtain ⟨files,hfiles,rfl⟩ := insertFile_ok hfile
  obtain ⟨hnew,hhead,hworkspaces,hlogged⟩ := insertWorkspace_ok hstore
  exact ⟨⟨hnew,hhead,⟨_,hworkspaces⟩,⟨_,main,List.mem_singleton_self _,hlogged,
    .cons fileId main hfiles (.nil _)⟩,rfl,rfl⟩,rfl,hpapers⟩

theorem createInitializedPaperTeam_ok {creator leader : UserId} {tenant : TenantId} {name : String}
    {writers mentors : List UserId} {main : LogicalPath} {blobHash : BlobHash} {sizeBytes : UInt64}
    {id fileId : Uuid} {u : Unit}
    (h : createInitializedPaperTeam creator tenant x name leader writers mentors main blobHash sizeBytes
      id fileId db = .ok (db',u)) :
    Founded db db' x ∧ db'.personalPapers = db.personalPapers ∧
      db.paperTeams.insert? id ⟨x,name,.active,creator⟩ = some db'.paperTeams := by
  simp only [createInitializedPaperTeam,bind_ok,pure_ok,Prod.mk.injEq] at h
  obtain ⟨_,_,_,_,_,_,_,_,_,_,_,_,_,_,_,hworkspace,_,hteam,_,hmembers,_,hfile,rfl,_⟩ := h
  obtain ⟨store,rfl,hstore⟩ := createInitialWorkspace_ok hworkspace
  obtain ⟨teams,hteams,rfl⟩ := insertPaperTeam_ok hteam
  obtain ⟨members,rfl⟩ := insertMembers_frame hmembers
  obtain ⟨files,hfiles,rfl⟩ := insertFile_ok hfile
  obtain ⟨hnew,hhead,hworkspaces,hlogged⟩ := insertWorkspace_ok hstore
  exact ⟨⟨hnew,hhead,⟨_,hworkspaces⟩,⟨_,main,List.mem_singleton_self _,hlogged,
    .cons fileId main hfiles (.nil _)⟩,rfl,rfl⟩,rfl,hteams⟩

theorem createTemplatePaperTeam_ok {admin leader : UserId} {tenant : TenantId} {name : String}
    {writers mentors : List UserId} {templateId : Uuid} {sourceIdentity : String}
    {main : LogicalPath} {seeds : List TemplateSeedFile} {id : Uuid} {fileId : ℕ → Uuid} {u : Unit}
    (h : createTemplatePaperTeam admin tenant x name leader writers mentors templateId sourceIdentity
      main seeds id fileId db = .ok (db',u)) :
    Founded db db' x ∧ db'.personalPapers = db.personalPapers ∧
      db.paperTeams.insert? id ⟨x,trim name,.active,admin⟩ = some db'.paperTeams := by
  simp only [createTemplatePaperTeam,bind_ok,pure_ok,Prod.mk.injEq,ensure_ok] at h
  obtain ⟨_,hvalid,_,_,_,_,_,_,_,_,_,_,_,_,_,_,store,hstore,_,hteam,_,hmembers,_,hfiles,_,_,pins,_,
    rfl,_⟩ := h
  obtain ⟨teams,hteams,rfl⟩ := insertPaperTeam_ok hteam
  obtain ⟨members,rfl⟩ := insertMembers_frame hmembers
  obtain ⟨files,policies,hseeded,rfl⟩ := insertSeedFiles_ok hfiles
  change insertWorkspace db.store tenant admin x (foundingMutation seeds main).operations = _ at hstore
  obtain ⟨hnew,hhead,hworkspaces,hlogged⟩ := insertWorkspace_ok hstore
  have hmain : main ∈ seeds.map TemplateSeedFile.path := by
    simp only [Bool.not_eq_true',Bool.or_eq_false_iff,Bool.not_eq_false',List.any_eq_true,
      beq_iff_eq] at hvalid
    obtain ⟨seed,hmem,hpath⟩ := hvalid.1.2
    exact List.mem_map.mpr ⟨seed,hmem,hpath⟩
  exact ⟨⟨hnew,hhead,⟨_,hworkspaces⟩,⟨seeds,main,hmain,hlogged,hseeded⟩,rfl,rfl⟩,rfl,hteams⟩

end LatexCore.Papers
