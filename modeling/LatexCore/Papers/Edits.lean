import LatexCore.Papers.Tables

/-! # Canonical edits

The transactions of a writer on one file. Each appends one event to the log of
the workspace and changes the identity table beside it; none of them replays the
log. An append compares the expected version with the head, and takes the
desired state and the pending build away from the scheduler of the paper.

The reversal of the latest structural operation of a writer, and its repetition.
A stored payload is applied against the identity table: a file is deleted or
renamed only at the revision that the payload expects, and restored only while
its path is free. The payload of the opposite direction then gets the revision
that the file now has.
-/
namespace LatexCore.Papers
open Core Foundation Workspace
open Collaboration (CollaborationUpdateInput)

def eventPayload (operations : List WorkspaceOperationV1) : Value :=
  .obj [("schema_version",.ofNat 1),("operations",.arr (operations.map WorkspaceOperationV1.toValue))]

def databaseError : PersistenceError → V2Error
  | .database constraint => .database constraint
  | _ => .database "workspace_events"

/-- The durable edit leaves no desired state and nothing pending. -/
def invalidateDesired (queue : Queue.Db) (workspaceId : WorkspaceId) (next : ℕ) : Queue.Db :=
  { queue with
    schedulers := queue.schedulers.modify workspaceId (fun s => { s with
      desiredStateHash := none
      desiredSourceSequence := some next
      pending := none }) }

def insertNextEvent (s : Store) (workspaceId : WorkspaceId) (actor : UserId) (head : HeadRow)
    (operations : List WorkspaceOperationV1) : Except V2Error Store := do
  let next := head.durableVersion + 1
  let s ← (insertEvent s workspaceId next
    ⟨head.durableVersion,eventTypeName,eventSchema,eventPayload operations,actor⟩).mapError
      databaseError
  pure { s with heads := s.heads.modify workspaceId (fun h => { h with durableVersion := next }) }

def appendWorkspaceOperations (workspaceId : WorkspaceId) (actor : UserId)
    (expected : WorkspaceVersion) (operations : List WorkspaceOperationV1) (db : Db) :
    Except V2Error (Db × WorkspaceVersion) := do
  toI64 expected "workspace version"
  let head ← require (db.store.heads.get? workspaceId) (.notFound "workspace")
  ensure (head.durableVersion = expected) (.versionConflict expected head.durableVersion)
  ensure (head.durableVersion < i64Max) (.integrity "workspace version overflow")
  let next := head.durableVersion + 1
  let store ← insertNextEvent db.store workspaceId actor head operations
  pure ({ db with store := store, queue := invalidateDesired db.queue workspaceId next },next)

/-! ## Payloads of the structural history -/

/-- An identifier in a payload. -/
def idToValue (id : Uuid) : Value := .ofNat id

def idFromValue : Value → Option Uuid
  | .num value => if 0 ≤ value then some value.toNat else none
  | _ => none

def revisionToValue (revision : ℕ) : Value := .ofNat revision

def revisionFromValue : Value → Option ℕ := idFromValue

def createPayload (fileId : Uuid) (path : LogicalPath) (blobHash : BlobHash) (sizeBytes : UInt64)
    (revision : ℕ) : Value :=
  .obj [("op",.str "create_file"),("file_id",idToValue fileId),("path",.str path.text),
    ("blob_hash",.str blobHash.toHex),("size_bytes",.ofNat sizeBytes.toNat),
    ("expected_revision",revisionToValue revision)]

def deletePayload (fileId : Uuid) (path : LogicalPath) (revision : ℕ) : Value :=
  .obj [("op",.str "delete_file"),("file_id",idToValue fileId),("path",.str path.text),
    ("expected_revision",revisionToValue revision)]

def restorePayload (fileId : Uuid) (path : LogicalPath) (blobHash : BlobHash) (sizeBytes : UInt64)
    (wasMain : Bool) (revision : ℕ) : Value :=
  .obj [("op",.str "restore_file"),("file_id",idToValue fileId),("path",.str path.text),
    ("blob_hash",.str blobHash.toHex),("size_bytes",.ofNat sizeBytes.toNat),
    ("was_main",.bool wasMain),("expected_revision",revisionToValue revision)]

def renamePayload (fileId : Uuid) (source target : LogicalPath) (revision : ℕ) : Value :=
  .obj [("op",.str "rename_file"),("file_id",idToValue fileId),("from",.str source.text),
    ("to",.str target.text),("expected_revision",revisionToValue revision)]

def setMainPayload (source target : LogicalPath) : Value :=
  .obj [("op",.str "set_main"),("from",.str source.text),("to",.str target.text)]

def recordStructuralOperation (id : Uuid) (workspaceId : WorkspaceId) (actor : UserId)
    (operationType : String) (fileId : Option Uuid) (forward inverse : Value) (before after : ℕ)
    (db : Db) : Except V2Error Db := do
  let paperId ← paperIdForWorkspace db workspaceId
  let operations := db.operations.updateWhere
    (fun _ o => o.workspaceId == workspaceId && o.state == .undone)
    (fun o => { o with state := .invalidated })
  toI64 before "workspace version"
  toI64 after "workspace version"
  let operations ← require (operations.insert? id
    ⟨paperId,workspaceId,actor,operationType,fileId,forward,inverse,before,after,.applied,none⟩)
    (.database "reversible_structural_operations_pkey")
  pure { db with operations := operations }

/-! ## The edits -/

/-- The identifiers that a transaction draws for a file and for the record of its operation. -/
structure FreshFile where
  file : Uuid
  operation : Uuid

def createFileWithEvent (workspaceId : WorkspaceId) (actor : UserId) (expected : WorkspaceVersion)
    (path : LogicalPath) (blobHash : BlobHash) (sizeBytes : UInt64) (fresh : FreshFile) (db : Db) :
    Except V2Error (Db × (Uuid × WorkspaceVersion)) := do
  rejectFrontMatterManagedPath path
  requireWriterWorkspaceAccess db actor workspaceId
  let db ← insertFile db fresh.file workspaceId path (.duplicateFilePath workspaceId path.text)
  let (db,version) ← appendWorkspaceOperations workspaceId actor expected
    [.putFile path blobHash sizeBytes] db
  let db ← recordStructuralOperation fresh.operation workspaceId actor "CREATE_FILE"
    (some fresh.file) (createPayload fresh.file path blobHash sizeBytes 1)
    (deletePayload fresh.file path 1) expected version db
  pure (db,(fresh.file,version))

def saveFileWithEvent (fileId : Uuid) (actor : UserId) (expected : WorkspaceVersion)
    (blobHash : BlobHash) (sizeBytes : UInt64) (db : Db) :
    Except V2Error (Db × WorkspaceVersion) := do
  let current ← lockLiveFile db fileId
  requireWriterWorkspaceAccess db actor current.workspaceId
  assertContentPolicy db fileId
  let (db,version) ← appendWorkspaceOperations current.workspaceId actor expected
    [.putFile current.path blobHash sizeBytes] db
  pure (bumpFile db fileId,version)

/-- What `rsplit_once('/')` leaves before the last separator. -/
def parent? (path : LogicalPath) : Option (List Char) :=
  match path.text.toList.reverse.dropWhile (fun c => c != '/') with
  | [] => none
  | _ :: rest => some rest.reverse

def renameType (source target : LogicalPath) : String :=
  if parent? source = parent? target then "RENAME_FILE" else "MOVE_FILE"

def renameFileWithEvent (fileId : Uuid) (actor : UserId) (expected : WorkspaceVersion)
    (path : LogicalPath) (operation : Uuid) (db : Db) : Except V2Error (Db × WorkspaceVersion) := do
  rejectFrontMatterManagedPath path
  let current ← lockLiveFile db fileId
  requireWriterWorkspaceAccess db actor current.workspaceId
  assertStructurePolicy db fileId
  let (db,version) ← appendWorkspaceOperations current.workspaceId actor expected
    [.renameFile current.path path] db
  let db ← updateFile db fileId (PaperFile.moveTo path)
    (.duplicateFilePath current.workspaceId path.text)
  let revision := current.revision + 1
  let db ← recordStructuralOperation operation current.workspaceId actor
    (renameType current.path path) (some fileId) (renamePayload fileId current.path path revision)
    (renamePayload fileId path current.path revision) expected version db
  pure (db,version)

def deleteFileWithEvent (fileId : Uuid) (actor : UserId) (expected : WorkspaceVersion)
    (blobHash : BlobHash) (sizeBytes : UInt64) (wasMain : Bool) (operation : Uuid) (db : Db) :
    Except V2Error (Db × WorkspaceVersion) := do
  let current ← lockLiveFile db fileId
  requireWriterWorkspaceAccess db actor current.workspaceId
  assertStructurePolicy db fileId
  let (db,version) ← appendWorkspaceOperations current.workspaceId actor expected
    [.deleteFile current.path] db
  let revision := current.revision + 1
  let db ← recordStructuralOperation operation current.workspaceId actor "DELETE_FILE" (some fileId)
    (deletePayload fileId current.path revision)
    (restorePayload fileId current.path blobHash sizeBytes wasMain revision) expected version
    (tombstoneFile db fileId)
  pure (db,version)

def setMainWithEvent (fileId : Uuid) (actor : UserId) (expected : WorkspaceVersion)
    (previousMain : Option LogicalPath) (operation : Uuid) (db : Db) :
    Except V2Error (Db × WorkspaceVersion) := do
  let current ← lockLiveFile db fileId
  requireWriterWorkspaceAccess db actor current.workspaceId
  assertMainPolicy db fileId
  let (db,version) ← appendWorkspaceOperations current.workspaceId actor expected
    [.setMainFile current.path] db
  match previousMain with
  | none => pure (db,version)
  | some previous =>
    let db ← recordStructuralOperation operation current.workspaceId actor "SET_MAIN" (some fileId)
      (setMainPayload previous current.path) (setMainPayload current.path previous) expected version
      db
    pure (db,version)

def insertUpdates (document : Collaboration.DocumentKey) (db : Db) (last : ℕ) :
    List (CollaborationUpdateInput Bytes) → Except V2Error (Db × ℕ)
  | [] => .ok (db,last)
  | input :: rest => do
    ensure (db.nextUpdateId ≤ i64Max) (.database "collaboration_updates_id_seq")
    ensure (!input.updateBytes.isEmpty) (.database "collaboration_updates_nonempty")
    insertUpdates document { db with
      updates := db.updates ++ [⟨db.nextUpdateId,document,input.actorUserId,input.updateBytes⟩]
      nextUpdateId := db.nextUpdateId + 1 } db.nextUpdateId rest

/-- `V2Repository::persist_collaboration_batch`, with the materialization of the document. -/
def persistCollaborationBatch (workspaceId : WorkspaceId) (fileId : Uuid) (documentEpoch : ℕ)
    (inputs : List (CollaborationUpdateInput Bytes)) (blobHash : BlobHash) (sizeBytes : UInt64)
    (db : Db) : Except V2Error (Db × ℕ) := do
  let last ← require inputs.getLast? (.integrity "empty collaboration durability batch")
  toI64 documentEpoch "collaboration epoch"
  let current ← lockLiveFile db fileId
  ensure (current.workspaceId = workspaceId) (.notFound "live paper file")
  assertContentPolicy db fileId
  let epoch ← require (db.documentEpochs.get? workspaceId) (.notFound "collaboration state")
  ensure (epoch = documentEpoch) (.conflict "collaboration document epoch")
  let (db,durableSequence) ← insertUpdates ⟨⟨workspaceId,fileId⟩,documentEpoch⟩ db 0 inputs
  let head ← require (db.store.heads.get? workspaceId) (.database "workspace_heads")
  let (db,_) ← appendWorkspaceOperations workspaceId last.actorUserId head.durableVersion
    [.putFile current.path blobHash sizeBytes] db
  pure (bumpFile db fileId,durableSequence)

/-! ## Undo and redo -/

/-- `payload_field`; a field that does not decode is reported with the decoder's own text. -/
def payloadField {α : Type} (payload : Value) (name : String) (decode : Value → Option α) :
    Except V2Error α := do
  let value ← require (payload.get? name) (.integrity ("structural payload missing " ++ name))
  require (decode value) (.integrity ("invalid structural payload field " ++ name))

def mainAfter (main : Option LogicalPath) (operation : Value) :
    Except V2Error (Option LogicalPath) :=
  match (operation.get? "op").bind Value.asStr? with
  | some "set_main_file" =>
    match operation.get? "path" with
    | none => pure none
    | some _ => do
      let path ← payloadField operation "path" pathFromValue
      pure (some path)
  | some "rename_file" => do
    let source ← payloadField operation "from" pathFromValue
    if main = some source then do
      let target ← payloadField operation "to" pathFromValue
      pure (some target)
    else pure main
  | some "delete_file" => do
    let path ← payloadField operation "path" pathFromValue
    pure (if main = some path then none else main)
  | _ => pure main

def payloadOperations (payload : Value) : List Value :=
  ((payload.get? "operations").bind Value.asArr?).getD []

def eventPayloads (s : Store) (workspaceId : WorkspaceId) : List Value :=
  (((s.events.rows.filter (fun r => r.1.1 == workspaceId)).insertionSort
    (fun a b => a.1.2 ≤ b.1.2))).map (fun r => r.2.payload)

def currentMainPath (db : Db) (workspaceId : WorkspaceId) : Except V2Error (Option LogicalPath) :=
  ((eventPayloads db.store workspaceId).flatMap payloadOperations).foldlM mainAfter none

def fileChanged : V2Error := .conflict "file changed since structural operation"

def applyDelete (workspaceId : WorkspaceId) (payload : Value) (db : Db) :
    Except V2Error (Db × List WorkspaceOperationV1) := do
  let fileId ← payloadField payload "file_id" idFromValue
  let path ← payloadField payload "path" pathFromValue
  rejectFrontMatterManagedPath path
  let expectedRevision ← payloadField payload "expected_revision" revisionFromValue
  let current ← lockAnyFile db fileId
  ensure (current.workspaceId = workspaceId ∧ current.tombstoned = false ∧ current.path = path ∧
    current.revision = expectedRevision) fileChanged
  pure (tombstoneFile db fileId,[.deleteFile path])

/-- The restoration of a created or deleted file, whatever its revision is. -/
def applyCreate (workspaceId : WorkspaceId) (payload : Value) (db : Db) :
    Except V2Error (Db × List WorkspaceOperationV1) := do
  let fileId ← payloadField payload "file_id" idFromValue
  let path ← payloadField payload "path" pathFromValue
  rejectFrontMatterManagedPath path
  let blobHash ← payloadField payload "blob_hash" digestFromValue
  let sizeBytes ← payloadField payload "size_bytes" sizeFromValue
  let current ← lockAnyFile db fileId
  ensure (current.workspaceId = workspaceId ∧ current.tombstoned = true ∧ current.path = path)
    (.conflict "file cannot be restored safely")
  ensure (!occupied db workspaceId path) (.conflict "restore path is occupied")
  let db ← updateFile db fileId PaperFile.revive (.database "paper_files_live_workspace_path_unique_idx")
  let wasMain := ((payload.get? "was_main").bind Value.asBool?).getD false
  let main := if wasMain then [.setMainFile path] else []
  pure (db,.putFile path blobHash sizeBytes :: main)

def applyRename (workspaceId : WorkspaceId) (payload : Value) (db : Db) :
    Except V2Error (Db × List WorkspaceOperationV1) := do
  let fileId ← payloadField payload "file_id" idFromValue
  let source ← payloadField payload "from" pathFromValue
  let target ← payloadField payload "to" pathFromValue
  rejectFrontMatterManagedPath source
  rejectFrontMatterManagedPath target
  let expectedRevision ← payloadField payload "expected_revision" revisionFromValue
  let current ← lockAnyFile db fileId
  ensure (current.workspaceId = workspaceId ∧ current.tombstoned = false ∧ current.path = source ∧
    current.revision = expectedRevision) fileChanged
  let db ← updateFile db fileId (PaperFile.moveTo target) (.duplicateFilePath workspaceId target.text)
  pure (db,[.renameFile source target])

def applySetMain (workspaceId : WorkspaceId) (payload : Value) (db : Db) :
    Except V2Error (Db × List WorkspaceOperationV1) := do
  let source ← payloadField payload "from" pathFromValue
  let target ← payloadField payload "to" pathFromValue
  rejectFrontMatterManagedPath source
  rejectFrontMatterManagedPath target
  let main ← currentMainPath db workspaceId
  ensure (main = some source) (.conflict "main file changed since structural operation")
  ensure (occupied db workspaceId target) (.conflict "prior main file is unavailable")
  pure (db,[.setMainFile target])

def applyStructuralPayload (workspaceId : WorkspaceId) (payload : Value) (db : Db) :
    Except V2Error (Db × List WorkspaceOperationV1) :=
  match (payload.get? "op").bind Value.asStr? with
  | some "delete_file" => applyDelete workspaceId payload db
  | some "create_file" | some "restore_file" => applyCreate workspaceId payload db
  | some "rename_file" => applyRename workspaceId payload db
  | some "set_main" => applySetMain workspaceId payload db
  | some _ => .error (.integrity "unknown structural payload operation")
  | none => .error (.integrity "structural payload missing op")

def historyCandidate (db : Db) (paperId : Uuid) (workspaceId : WorkspaceId) (actor : UserId)
    (redo : Bool) : Option (Uuid × StructuralOperation) :=
  let mine (state : HistoryState) (o : StructuralOperation) : Bool :=
    o.paperId == paperId && o.workspaceId == workspaceId && o.actorUserId == actor && o.state == state
  if redo then
    db.operations.best (fun _ o => mine .undone o)
      (fun a b => b.2.undoneAt.getD 0 < a.2.undoneAt.getD 0 ||
        (a.2.undoneAt == b.2.undoneAt && b.1 < a.1))
  else
    db.operations.best (fun _ o => mine .applied o)
      (fun a b => b.2.workspaceVersionBefore < a.2.workspaceVersionBefore ||
        (a.2.workspaceVersionBefore == b.2.workspaceVersionBefore && b.1 < a.1))

def latestStructural (db : Db) (workspaceId : WorkspaceId) : Option Uuid :=
  (db.operations.best (fun _ o => o.workspaceId == workspaceId && o.state == .applied)
    (fun a b => b.2.workspaceVersionBefore < a.2.workspaceVersionBefore ||
      (a.2.workspaceVersionBefore == b.2.workspaceVersionBefore && b.1 < a.1))).map Prod.fst

/-- The payload that a direction applies. -/
def StructuralOperation.payload (o : StructuralOperation) (redo : Bool) : Value :=
  if redo then o.forwardPayload else o.inversePayload

/-- `jsonb_set` of the expected revision in the payload of the opposite direction. -/
def StructuralOperation.expect (redo : Bool) (revision : ℕ) (o : StructuralOperation) :
    StructuralOperation :=
  if redo then
    { o with inversePayload := o.inversePayload.set "expected_revision" (revisionToValue revision) }
  else
    { o with forwardPayload := o.forwardPayload.set "expected_revision" (revisionToValue revision) }

def StructuralOperation.transition (redo : Bool) (now : Timestamp) (o : StructuralOperation) :
    StructuralOperation :=
  if redo then { o with state := .applied, undoneAt := none }
  else { o with state := .undone, undoneAt := some now }

def assertHistoryPolicy (db : Db) (o : StructuralOperation) : Except V2Error Unit :=
  match o.fileId with
  | none => pure ()
  | some fileId =>
    if o.operationType = "SET_MAIN" then assertMainPolicy db fileId
    else assertStructurePolicy db fileId

def patchRevision (db : Db) (id : Uuid) (fileId : Option Uuid) (redo : Bool) : Except V2Error Db :=
  match fileId with
  | none => pure db
  | some fileId => do
    let file ← require (db.files.get? fileId) (.database "paper_files")
    pure { db with operations := db.operations.modify id (fun o => o.expect redo file.revision) }

structure StructuralOperationResult where
  operationId : Uuid
  operationType : String
  fileId : Option Uuid
  version : WorkspaceVersion
  state : String
deriving DecidableEq

def applyStructuralHistory (paperId : Uuid) (workspaceId : WorkspaceId) (actor : UserId)
    (redo : Bool) (db : Db) : Except V2Error (Db × StructuralOperationResult) := do
  requireWriterWorkspaceAccess db actor workspaceId
  let (id,operation) ← require (historyCandidate db paperId workspaceId actor redo)
    (.conflict (if redo then "structural redo opportunity" else "structural undo opportunity"))
  assertHistoryPolicy db operation
  ensure (redo || latestStructural db workspaceId = some id)
    (.conflict "later structural change prevents undo")
  let head ← require (db.store.heads.get? workspaceId) (.notFound "workspace")
  let (db,operations) ← applyStructuralPayload workspaceId (operation.payload redo) db
  let db ← patchRevision db id operation.fileId redo
  let (db,version) ← appendWorkspaceOperations workspaceId actor head.durableVersion operations db
  let db := { db with operations := db.operations.modify id (fun o => o.transition redo db.now) }
  let state := if redo then "APPLIED" else "UNDONE"
  pure (db,⟨id,operation.operationType,operation.fileId,version,state⟩)

def structuralUndo (paperId : Uuid) (workspaceId : WorkspaceId) (actor : UserId) (db : Db) :
    Except V2Error (Db × StructuralOperationResult) :=
  applyStructuralHistory paperId workspaceId actor false db

def structuralRedo (paperId : Uuid) (workspaceId : WorkspaceId) (actor : UserId) (db : Db) :
    Except V2Error (Db × StructuralOperationResult) :=
  applyStructuralHistory paperId workspaceId actor true db

end LatexCore.Papers
