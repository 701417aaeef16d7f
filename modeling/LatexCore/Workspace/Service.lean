import LatexCore.Workspace.Repository
import LatexCore.Foundation.EventLog

/-! # Workspace service

The operations of a workspace as programs of blob and repository calls, in the
order the source makes them: blobs first, then the optimistic append of one
event. Restoring reads the head, starts from the latest snapshot or from the
empty state and replays the events that follow it.

The events of a workspace in the order they were stored, the checkpoints of
their replay from the empty state, and what a repository transaction does to
them. A recorded event is the one that replays to the state its mutation was
validated on, and a range of events is the part of the log between two versions.
-/
namespace LatexCore.Workspace
open Core Foundation

def eventTypeName : String := "workspace.mutation"
def eventSchema : ℕ := 1

structure WorkspaceCheckpoint where
  workspaceVersion : WorkspaceVersion
  snapshotId : SnapshotId
  manifestBlobHash : BlobHash
deriving DecidableEq

abbrev Service := ExceptT WorkspaceError (Program Call Call.Reply)

def ask {α : Type} (request : Call) (answer : request.Reply → Except WorkspaceError α) : Service α :=
  ExceptT.mk (.call request (fun reply => .done (answer reply)))

def attempt {α : Type} (result : Except WorkspaceError α) : Service α := ExceptT.mk (.done result)

def fromBlobs {α : Type} (reply : Except BlobStoreError α) : Except WorkspaceError α :=
  reply.mapError .blob

def fromRepository {α : Type} (reply : Except PersistenceError α) : Except WorkspaceError α :=
  reply.mapError mapPersistence

def replayEvent (state : WorkspaceState) (event : WorkspaceEventRecord) :
    Except WorkspaceError WorkspaceState := do
  let next ← require (checkedNext state.version) .versionOverflow
  ensure (event.sequence = next ∧ event.baseVersion = state.version)
    (.corruptPersistentEvent
      (some "workspace event sequence or base version is discontinuous"))
  ensure (event.eventType = eventTypeName) (.unsupportedEventType event.eventType)
  ensure (event.eventSchemaVersion = eventSchema)
    (.unsupportedEventSchema event.eventSchemaVersion)
  let payloadSchema := (event.payload.get? "schema_version").bind Value.asU64?
  ensure (payloadSchema = some eventSchema)
    (.unsupportedEventSchema ((payloadSchema.filter (fun version => version < 2 ^ 32)).getD 0))
  let mutation ← require (WorkspaceMutationV1.fromValue event.payload) (.corruptPersistentEvent none)
  state.apply mutation event.baseVersion

def versionDebug (version : WorkspaceVersion) : String :=
  "WorkspaceVersion(" ++ toString version ++ ")"

variable (codec : Codec)

def canonicalJsonBytes (manifest : WorkspaceManifestV1) : Bytes := codec.toVec manifest.toValue

def manifestSnapshotId (manifest : WorkspaceManifestV1) : SnapshotId :=
  codec.sha256 (canonicalJsonBytes codec manifest)

def readSnapshot (workspaceId : WorkspaceId) (snapshot : WorkspaceSnapshotRecord) (bytes : Bytes) :
    Except WorkspaceError WorkspaceState := do
  ensure (codec.sha256 bytes = snapshot.manifestBlobHash)
    (.corruptPersistentEvent (some "snapshot manifest blob hash mismatch"))
  let manifest ← require ((codec.fromSlice bytes).bind WorkspaceManifestV1.fromValue) .serialization
  let actual := manifestSnapshotId codec manifest
  ensure (actual = snapshot.snapshotId) (.snapshotMismatch snapshot.snapshotId actual)
  WorkspaceState.fromManifest workspaceId snapshot.workspaceVersion manifest

def restoreBase (workspaceId : WorkspaceId) :
    Option WorkspaceSnapshotRecord → Service WorkspaceState
  | some snapshot => do
    let bytes ← ask (.get snapshot.manifestBlobHash) fromBlobs
    attempt (readSnapshot codec workspaceId snapshot bytes)
  | none => pure (.empty workspaceId)

def replayTail (workspaceId : WorkspaceId) (target : WorkspaceVersion) (base : WorkspaceState) :
    Service WorkspaceState := do
  let events ← ask (.loadEvents workspaceId base.version target) fromRepository
  let state ← attempt (events.foldlM replayEvent base)
  attempt (ensure (state.version = target) (.corruptPersistentEvent (some
    ("replay ended at " ++ versionDebug state.version ++ ", expected " ++ versionDebug target))))
  pure state

def restore (workspaceId : WorkspaceId) : Service WorkspaceState := do
  let head ← ask (.loadHead workspaceId) fromRepository
  let base ← restoreBase codec workspaceId head.latestSnapshot
  replayTail workspaceId head.durableVersion base

def restoreExpected (workspaceId : WorkspaceId) (expected : WorkspaceVersion) :
    Service WorkspaceState := do
  let state ← restore codec workspaceId
  attempt (ensure (state.version = expected) (.versionConflict expected state.version))
  pure state

def validateAndAppend (state : WorkspaceState) (user : UserId) (expected : WorkspaceVersion)
    (mutation : WorkspaceMutationV1) : Service WorkspaceVersion := do
  let state ← attempt (state.apply mutation expected)
  ask (.appendEvent state.workspaceId user expected eventTypeName eventSchema mutation.toValue)
    fromRepository

def createFrom (tenant : TenantId) (owner : UserId) (workspaceId : WorkspaceId)
    (operations : List WorkspaceOperationV1) : Service WorkspaceState := do
  let mutation ← attempt (WorkspaceMutationV1.new operations)
  let state ← attempt ((WorkspaceState.empty workspaceId).apply mutation 0)
  let _ ← ask (.createWorkspaceWithInitialEvent tenant owner workspaceId eventTypeName eventSchema
    mutation.toValue) fromRepository
  pure state

def createWorkspace (tenant : TenantId) (owner : UserId) (workspaceId : WorkspaceId)
    (main : LogicalPath) (bytes : Bytes) : Service WorkspaceState := do
  let stored ← ask (.put bytes) fromBlobs
  createFrom tenant owner workspaceId
    [.putFile main stored.hash stored.sizeBytes,.setMainFile main]

def putFiles : List (LogicalPath × Bytes) → Service (List WorkspaceOperationV1)
  | [] => pure []
  | (path,bytes) :: rest => do
    let stored ← ask (.put bytes) fromBlobs
    let operations ← putFiles rest
    pure (.putFile path stored.hash stored.sizeBytes :: operations)

def createWorkspaceFromFiles (tenant : TenantId) (owner : UserId) (workspaceId : WorkspaceId)
    (files : List (LogicalPath × Bytes)) (main : Option LogicalPath) : Service WorkspaceState := do
  let operations ← putFiles files
  createFrom tenant owner workspaceId (operations ++ main.toList.map .setMainFile)

def putFile (workspaceId : WorkspaceId) (user : UserId) (expected : WorkspaceVersion)
    (path : LogicalPath) (bytes : Bytes) : Service WorkspaceVersion := do
  let state ← restore codec workspaceId
  let stored ← ask (.put bytes) fromBlobs
  attempt (ensure (state.version = expected) (.versionConflict expected state.version))
  let mutation ← attempt (WorkspaceMutationV1.new [.putFile path stored.hash stored.sizeBytes])
  validateAndAppend state user expected mutation

def mutate (workspaceId : WorkspaceId) (user : UserId) (expected : WorkspaceVersion)
    (operation : WorkspaceOperationV1) : Service WorkspaceVersion := do
  let state ← restoreExpected codec workspaceId expected
  let mutation ← attempt (WorkspaceMutationV1.new [operation])
  validateAndAppend state user expected mutation

def deleteFile (workspaceId : WorkspaceId) (user : UserId) (expected : WorkspaceVersion)
    (path : LogicalPath) : Service WorkspaceVersion :=
  mutate codec workspaceId user expected (.deleteFile path)

def renameFile (workspaceId : WorkspaceId) (user : UserId) (expected : WorkspaceVersion)
    (source target : LogicalPath) : Service WorkspaceVersion :=
  mutate codec workspaceId user expected (.renameFile source target)

def setMainFile (workspaceId : WorkspaceId) (user : UserId) (expected : WorkspaceVersion)
    (path : LogicalPath) : Service WorkspaceVersion :=
  mutate codec workspaceId user expected (.setMainFile path)

def forceSnapshot (workspaceId : WorkspaceId) : Service WorkspaceCheckpoint := do
  let state ← restore codec workspaceId
  let manifest ← attempt state.toManifest
  let canonical := canonicalJsonBytes codec manifest
  let snapshotId := manifestSnapshotId codec manifest
  let manifestBlobHash := codec.sha256 canonical
  let stored ← ask (.putVerified manifestBlobHash canonical) fromBlobs
  attempt (ensure (stored.hash = manifestBlobHash)
    (.corruptPersistentEvent (some "blob store returned a different manifest hash")))
  ask (.recordSnapshot workspaceId state.version snapshotId manifestBlobHash) fromRepository
  pure ⟨state.version,snapshotId,manifestBlobHash⟩

def readFile (workspaceId : WorkspaceId) (path : LogicalPath) : Service Bytes := do
  let state ← restore codec workspaceId
  let file ← attempt (require state.files[path]? (.fileNotFound path))
  let bytes ← ask (.get file.blobHash) fromBlobs
  attempt (ensure (bytes.length ≤ u64Max)
    (.invalidWorkspaceState "blob length exceeds u64"))
  let actual := UInt64.ofNat bytes.length
  attempt (ensure (actual = file.sizeBytes) (.blobSizeMismatch file.sizeBytes actual))
  pure bytes

inductive Operation
  | createWorkspace (tenant : TenantId) (owner : UserId) (workspaceId : WorkspaceId)
      (main : LogicalPath) (bytes : Bytes)
  | createWorkspaceFromFiles (tenant : TenantId) (owner : UserId) (workspaceId : WorkspaceId)
      (files : List (LogicalPath × Bytes)) (main : Option LogicalPath)
  | putFile (workspaceId : WorkspaceId) (user : UserId) (expected : WorkspaceVersion)
      (path : LogicalPath) (bytes : Bytes)
  | deleteFile (workspaceId : WorkspaceId) (user : UserId) (expected : WorkspaceVersion)
      (path : LogicalPath)
  | renameFile (workspaceId : WorkspaceId) (user : UserId) (expected : WorkspaceVersion)
      (source target : LogicalPath)
  | setMainFile (workspaceId : WorkspaceId) (user : UserId) (expected : WorkspaceVersion)
      (path : LogicalPath)
  | forceSnapshot (workspaceId : WorkspaceId)
  | restore (workspaceId : WorkspaceId)
  | readFile (workspaceId : WorkspaceId) (path : LogicalPath)

inductive Answer
  | state (state : WorkspaceState)
  | version (version : WorkspaceVersion)
  | checkpoint (checkpoint : WorkspaceCheckpoint)
  | bytes (bytes : Bytes)

def Operation.code : Operation → Program Call Call.Reply (Except WorkspaceError Answer)
  | .createWorkspace tenant owner workspaceId main bytes =>
    (Answer.state <$> Workspace.createWorkspace tenant owner workspaceId main bytes).run
  | .createWorkspaceFromFiles tenant owner workspaceId files main =>
    (Answer.state <$> Workspace.createWorkspaceFromFiles tenant owner workspaceId files main).run
  | .putFile workspaceId user expected path bytes =>
    (Answer.version <$> Workspace.putFile codec workspaceId user expected path bytes).run
  | .deleteFile workspaceId user expected path =>
    (Answer.version <$> Workspace.deleteFile codec workspaceId user expected path).run
  | .renameFile workspaceId user expected source target =>
    (Answer.version <$> Workspace.renameFile codec workspaceId user expected source target).run
  | .setMainFile workspaceId user expected path =>
    (Answer.version <$> Workspace.setMainFile codec workspaceId user expected path).run
  | .forceSnapshot workspaceId =>
    (Answer.checkpoint <$> Workspace.forceSnapshot codec workspaceId).run
  | .restore workspaceId => (Answer.state <$> Workspace.restore codec workspaceId).run
  | .readFile workspaceId path => (Answer.bytes <$> Workspace.readFile codec workspaceId path).run

abbrev World (ι : Type) := Clients Store ι Call Call.Reply (Except WorkspaceError Answer)
abbrev Label (ι : Type) := ClientLabel ι Operation

def step {ι : Type} [DecidableEq ι] : World ι → Label ι → World ι :=
  Clients.step (serve codec) (Operation.code codec)

def initial (ι : Type) (verifyOnRead : Bool) (tenants : List TenantId) (users : List UserId) :
    World ι := ⟨.initial verifyOnRead tenants users,fun _ => none⟩

/-- The blobs whose write a step performs. -/
def blobsPut {ι : Type} (w : World ι) (label : Label ι) : List Bytes :=
  (w.calls label).filterMap Call.puts

/-! ## The replayed log -/

def Store.log (s : Store) (workspaceId : WorkspaceId) : List WorkspaceEventRecord :=
  (s.events.rows.filter (fun r => r.1.1 == workspaceId)).map eventRecord

/-- The state that the first `n` events of a workspace lead to from the empty state. -/
abbrev Replayed (s : Store) (workspaceId : WorkspaceId) (n : ℕ) (state : WorkspaceState) : Prop :=
  Checkpoint replayEvent (.empty workspaceId) (s.log workspaceId) n state

def recordOf (base : WorkspaceVersion) (mutation : WorkspaceMutationV1) : WorkspaceEventRecord :=
  ⟨base + 1,base,eventTypeName,eventSchema,mutation.toValue⟩

theorem replayEvent_ok {state next : WorkspaceState} {event : WorkspaceEventRecord}
    (h : replayEvent state event = .ok next) :
    next.version = state.version + 1 ∧ next.workspaceId = state.workspaceId := by
  simp only [replayEvent,bind_ok,ensure_ok,require_ok,decide_eq_true_eq] at h
  obtain ⟨version,_,_,⟨_,hbase⟩,_,_,_,_,_,_,mutation,_,happly⟩ := h
  obtain ⟨_,hnext,hid⟩ := WorkspaceState.apply_ok happly
  rw [hbase] at hnext
  exact ⟨(checkedNext_eq_some.mp hnext).2,hid⟩

theorem replayEvent_recordOf {state next : WorkspaceState} {mutation : WorkspaceMutationV1}
    {expected : WorkspaceVersion} (h : state.apply mutation expected = .ok next) :
    replayEvent state (recordOf expected mutation) = .ok next := by
  obtain ⟨hversion,hnext,_⟩ := WorkspaceState.apply_ok h
  have hsucc := (checkedNext_eq_some.mp hnext).2
  have hschema := mutation.schemaVersion_toValue
  simp only [replayEvent,bind_ok,ensure_ok,require_ok,decide_eq_true_eq]
  refine ⟨next.version,hversion ▸ hnext,(),⟨hsucc.symm,hversion.symm⟩,(),rfl,(),rfl,(),?_,
    mutation,WorkspaceMutationV1.fromValue_toValue mutation,h⟩
  exact hschema

theorem replayEvent_recordOf_ok {state next : WorkspaceState} {mutation : WorkspaceMutationV1}
    {expected : WorkspaceVersion} (h : replayEvent state (recordOf expected mutation) = .ok next) :
    ∃ applied, mutation.operations.foldlM WorkspaceState.applyOperation state = .ok applied ∧
      next.files = applied.files := by
  simp only [replayEvent,bind_ok,require_ok] at h
  obtain ⟨_,_,_,_,_,_,_,_,_,_,same,hsame,happly⟩ := h
  change WorkspaceMutationV1.fromValue mutation.toValue = some same at hsame
  rw [WorkspaceMutationV1.fromValue_toValue,Option.some.injEq] at hsame
  subst hsame
  simp only [WorkspaceState.apply,bind_ok,pure_ok] at happly
  obtain ⟨_,_,applied,hfold,_,_,_,_,rfl⟩ := happly
  exact ⟨applied,hfold,rfl⟩

theorem Replayed.version {s : Store} {workspaceId : WorkspaceId} {n : ℕ} {state : WorkspaceState}
    (h : Replayed s workspaceId n state) :
    state.version = n ∧ state.workspaceId = workspaceId := by
  refine h.invariant (fun n state => state.version = n ∧ state.workspaceId = workspaceId)
    ⟨rfl,rfl⟩ ?_
  rintro k state event next ⟨hversion,hid⟩ hreplay
  obtain ⟨hnext,hid'⟩ := replayEvent_ok hreplay
  exact ⟨by rw [hnext,hversion],hid'.trans hid⟩

theorem insertEvent_ok {s t : Store} {workspaceId : WorkspaceId} {n : ℕ} {row : EventRow}
    (h : insertEvent s workspaceId n row = .ok t) :
    ∃ events, s.events.insert? (workspaceId,n) row = some events ∧ t = { s with events := events } := by
  simp only [insertEvent,bind_ok,ensure_ok,require_ok,pure_ok,decide_eq_true_eq] at h
  obtain ⟨_,_,_,_,_,_,_,_,events,hevents,_,_,rfl⟩ := h
  exact ⟨events,hevents,rfl⟩

theorem log_insert {s : Store} {workspaceId : WorkspaceId} {n : ℕ} {row : EventRow}
    {events : Table (WorkspaceId × ℕ) EventRow}
    (h : s.events.insert? (workspaceId,n) row = some events) (x : WorkspaceId) :
    { s with events := events }.log x =
      s.log x ++ if x = workspaceId then [eventRecord ((workspaceId,n),row)] else [] := by
  obtain ⟨_,hrows⟩ := Table.insert?_eq_some h
  simp only [Store.log,hrows,List.filter_append,List.map_append]
  by_cases hx : x = workspaceId
  · subst hx
    simp
  · have hx' : ¬workspaceId = x := fun he => hx he.symm
    simp [hx,hx']

/-- What the append of an event to a workspace changes, and what it leaves alone. -/
structure Logged (s t : Store) (workspaceId : WorkspaceId) (record : WorkspaceEventRecord)
    (latest : Option ℕ) : Prop where
  log : ∀ x, t.log x = s.log x ++ if x = workspaceId then [record] else []
  head : t.heads.get? workspaceId = some ⟨record.sequence,latest⟩
  heads : ∀ x, x ≠ workspaceId → t.heads.get? x = s.heads.get? x
  blobs : t.blobs = s.blobs
  snapshots : t.snapshots = s.snapshots
  workspaceSnapshots : t.workspaceSnapshots = s.workspaceSnapshots
  bound : record.sequence ≤ i64Max

theorem appendEvent_ok {s t : Store} {workspaceId : WorkspaceId} {user : UserId}
    {expected next : WorkspaceVersion} {mutation : WorkspaceMutationV1}
    (h : appendEvent workspaceId user expected eventTypeName eventSchema mutation.toValue s =
      .ok (t,next)) :
    ∃ head, s.heads.get? workspaceId = some head ∧ head.durableVersion = expected ∧
      Logged s t workspaceId (recordOf expected mutation) head.latestSnapshotVersion := by
  simp only [appendEvent,bind_ok,ensure_ok,require_ok,pure_ok,decide_eq_true_eq,
    checkedNext_eq_some,Prod.mk.injEq] at h
  obtain ⟨_,_,_,_,head,hhead,_,hversion,_,⟨_,rfl⟩,_,hbound,middle,hinsert,rfl,rfl⟩ := h
  obtain ⟨events,hevents,rfl⟩ := insertEvent_ok hinsert
  simp only [versionToDb,ensure_ok,decide_eq_true_eq] at hbound
  refine ⟨head,hhead,hversion,?_⟩
  exact {
    log := log_insert hevents
    head := by
      rw [Table.get?_modify_self,hhead]
      rfl
    heads := fun x hx => Table.get?_modify_of_ne _ hx _
    blobs := rfl
    snapshots := rfl
    workspaceSnapshots := rfl
    bound := hbound }

theorem createWorkspaceWithInitialEvent_ok {s t : Store} {tenant : TenantId} {owner : UserId}
    {workspaceId : WorkspaceId} {next : WorkspaceVersion} {mutation : WorkspaceMutationV1}
    (h : createWorkspaceWithInitialEvent tenant owner workspaceId eventTypeName eventSchema
      mutation.toValue s = .ok (t,next)) :
    s.heads.get? workspaceId = none ∧ Logged s t workspaceId (recordOf 0 mutation) none := by
  simp only [createWorkspaceWithInitialEvent,bind_ok,ensure_ok,require_ok,pure_ok,
    Prod.mk.injEq] at h
  obtain ⟨_,_,workspaces,_,_,_,_,_,heads,hheads,middle,hinsert,rfl,rfl⟩ := h
  obtain ⟨events,hevents,rfl⟩ := insertEvent_ok hinsert
  obtain ⟨hnone,_⟩ := Table.insert?_eq_some hheads
  refine ⟨hnone,?_⟩
  exact {
    log := log_insert hevents
    head := by
      rw [Table.get?_modify_self,Table.get?_insert? hheads,if_pos rfl]
      rfl
    heads := by
      intro x hx
      exact (Table.get?_modify_of_ne _ hx _).trans
        ((Table.get?_insert? hheads x).trans (if_neg hx))
    blobs := rfl
    snapshots := rfl
    workspaceSnapshots := rfl
    bound := by simp [recordOf,i64Max] }

theorem loadEvents_eq {s : Store} {workspaceId : WorkspaceId} {after through : WorkspaceVersion}
    (hnumber : (s.log workspaceId).map WorkspaceEventRecord.sequence =
      List.range' 1 (s.log workspaceId).length)
    (horder : after ≤ through) (hbound : through ≤ i64Max) :
    loadEvents s workspaceId after through =
      .ok (((s.log workspaceId).take through).drop after) := by
  have hwindow := filter_window WorkspaceEventRecord.sequence after through hnumber
  have hafter : after ≤ i64Max := Nat.le_trans horder hbound
  let rows := s.events.rows.filter
    (fun r => r.1.1 == workspaceId && (after < r.1.2 && r.1.2 ≤ through))
  have hrows : rows.map eventRecord = ((s.log workspaceId).take through).drop after := by
    rw [← hwindow,Store.log,List.filter_map,List.filter_filter]
    congr 1
    apply List.filter_congr
    intro r _
    rw [Bool.eq_iff_iff]
    simp only [eventRecord,Function.comp_apply,Bool.and_eq_true,decide_eq_true_eq]
    constructor
    · rintro ⟨hid,hafter,hthrough⟩
      exact ⟨decide_eq_true ⟨hafter,hthrough⟩,hid⟩
    · rintro ⟨hrange,hid⟩
      exact ⟨hid,of_decide_eq_true hrange⟩
  have hsorted : rows.Pairwise (fun a b => decide (a.1.2 ≤ b.1.2) = true) := by
    have hall : ((s.log workspaceId).map WorkspaceEventRecord.sequence).Pairwise (· ≤ ·) := by
      rw [hnumber]
      exact (List.pairwise_lt_range' 1).imp Nat.le_of_lt
    have hkept : rows.Sublist (s.events.rows.filter (fun r => r.1.1 == workspaceId)) := by
      have hsub : rows = (s.events.rows.filter (fun r => r.1.1 == workspaceId)).filter
          (fun r => after < r.1.2 && r.1.2 ≤ through) := by
        rw [List.filter_filter]
        apply List.filter_congr
        intro r _
        rw [Bool.and_comm]
      rw [hsub]
      exact List.filter_sublist
    rw [Store.log,List.map_map,List.pairwise_map] at hall
    exact (hall.sublist hkept).imp (fun hle => decide_eq_true hle)
  have hsort : rows.mergeSort (fun a b => decide (a.1.2 ≤ b.1.2)) = rows :=
    List.mergeSort_of_pairwise hsorted
  simp only [loadEvents,versionToDb,bind_ok,ensure_ok,pure_ok,decide_eq_true_eq]
  exact ⟨(),horder,(),hafter,(),hbound,by rw [← hrows]; exact congrArg _ hsort⟩

end LatexCore.Workspace
