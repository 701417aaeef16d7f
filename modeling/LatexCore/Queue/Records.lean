import LatexCore.Core.Types
import LatexCore.Foundation.Table
import LatexCore.Foundation.Transaction
import LatexCore.Foundation.Value

/-! # Rows of the compile queue and the build scheduler

The tables that the queue and the V2 build scheduler read and write in one
transaction, with the columns their statements use. A nullable column is an
option. The pending columns of the scheduler are null or set together, which is
a check of the schema, so they are one optional record here.
-/
namespace LatexCore.Queue
open Core Foundation

structure QueueLimits where
  globalRunning : ℕ
  perUserRunning : ℕ
  perUserOutstanding : ℕ
  leaseMillis : ℕ
  maxAttempts : ℕ
  globalRunning_pos : 0 < globalRunning
  perUserRunning_pos : 0 < perUserRunning
  perUserOutstanding_pos : 0 < perUserOutstanding
  leaseMillis_pos : 0 < leaseMillis
  maxAttempts_pos : 0 < maxAttempts

structure CompileInputs where
  snapshotId : SnapshotId
  compileKey : CompileKey
  engine : TexEngine
  texEnvironmentId : String
  latexmkProfile : String
  shellPolicy : ShellPolicy
  synctex : Bool
deriving DecidableEq

/-- A row of `compile_jobs` without its primary key. -/
structure Job where
  tenantId : TenantId
  userId : UserId
  workspaceId : WorkspaceId
  inputs : CompileInputs
  idempotencyKey : String
  costClass : CostClass
  priority : ℤ
  state : JobState
  workerId : Option WorkerId
  leaseUntil : Option Timestamp
  attemptCount : ℕ
  createdAt : Timestamp
  claimedAt : Option Timestamp
  startedAt : Option Timestamp
  finishedAt : Option Timestamp
  cancellationRequestedAt : Option Timestamp
  cancellationReason : Option String
  errorClass : Option String
  lastError : Option Value
  cacheSourceJobId : Option JobId

/-- A row of `compilation_artifacts` without its primary key. -/
structure Artifact where
  jobId : JobId
  compileKey : CompileKey
  kind : ArtifactKind
  logicalName : String
  blobHash : BlobHash
  sizeBytes : ℕ
  contentType : String
deriving DecidableEq

/-- A row of `compile_cache` without its primary key. -/
structure CacheRow where
  sourceJobId : JobId
  artifactManifestBlobHash : BlobHash
  lastAccessedAt : Timestamp
deriving DecidableEq

inductive BuildStatus
  | queued | running | succeeded | failed
deriving DecidableEq

/-- `b.status IN ('queued','running')`. -/
def BuildStatus.unfinished : BuildStatus → Bool
  | .queued | .running => true
  | _ => false

/-- A row of `v2_paper_builds` without its primary key. -/
structure Build where
  paperId : Uuid
  workspaceId : WorkspaceId
  compileJobId : JobId
  versionId : Uuid
  documentEpoch : ℕ
  sourceSequence : ℕ
  stateHash : String
  triggerType : String
  status : BuildStatus
  promotedAt : Option Timestamp
  createdAt : Timestamp
deriving DecidableEq

inductive VersionType
  | manualCheckpoint | compileCheckpoint | reviewRound | preRestoreSafety
  | adminRestoration | teamRevert | templateUpdate | frontMatterUpdate | submission
deriving DecidableEq

/-- A row of `paper_versions` without its primary key. -/
structure Version where
  paperId : Uuid
  workspaceId : WorkspaceId
  documentEpoch : ℕ
  versionNumber : ℕ
  versionType : VersionType
  createdByUserId : UserId
  workspaceVersion : ℕ
  snapshotId : SnapshotId
  manifest : Value
  stateHash : String

/-- The fourteen pending columns of a scheduler row, all set. -/
structure PendingBuild where
  manifest : Value
  stateHash : String
  sourceSequence : ℕ
  documentEpoch : ℕ
  tenantId : TenantId
  userId : UserId
  triggerType : String
  inputs : CompileInputs

/-- A row of `v2_paper_build_state` without its primary key. -/
structure Scheduler where
  paperId : Uuid
  desiredStateHash : Option String
  desiredSourceSequence : Option ℕ
  activeBuildId : Option Uuid
  currentBuildId : Option Uuid
  pending : Option PendingBuild

structure Db where
  jobs : Table JobId Job
  artifacts : Table ArtifactId Artifact
  cache : Table CompileKey CacheRow
  builds : Table Uuid Build
  versions : Table Uuid Version
  schedulers : Table WorkspaceId Scheduler

def Db.empty : Db := ⟨.empty,.empty,.empty,.empty,.empty,.empty⟩

inductive QueueError
  | invalidConfiguration (message : String)
  | admissionRejected (scope : String) (limit : ℕ)
  | idempotencyConflict
  | notFound
  | leaseLost
  | invalidState (state : String)
  | integrity (message : String)
  | database (constraint : String)
deriving DecidableEq

def QueueLimits.new (globalRunning perUserRunning perUserOutstanding leaseMillis maxAttempts : ℕ) :
    Except QueueError QueueLimits :=
  if h : 0 < globalRunning ∧ 0 < perUserRunning ∧ 0 < perUserOutstanding ∧ 0 < leaseMillis ∧
      0 < maxAttempts then
    .ok ⟨globalRunning,perUserRunning,perUserOutstanding,leaseMillis,maxAttempts,
      h.1,h.2.1,h.2.2.1,h.2.2.2.1,h.2.2.2.2⟩
  else .error (.invalidConfiguration "queue limits must all be greater than zero")

/-- The clock of one transaction: `now()`, the `statement_timestamp()` of its first guarded
statement, and that of the statements after it. -/
structure Clock where
  started : Timestamp
  checked : Timestamp
  finished : Timestamp

/-- The two identifiers that a transaction draws for a build and its version. -/
structure FreshIds where
  build : Uuid
  version : Uuid

def v2IdempotencyKey (build : Uuid) : String := "v2:" ++ uuidText build

/-- `if trigger == "manual" { 10 } else { 0 }`. -/
def triggerPriority (triggerType : String) : ℤ := if triggerType == "manual" then 10 else 0

/-- A job as every `INSERT INTO compile_jobs` leaves it. -/
def Job.queued (tenantId : TenantId) (userId : UserId) (workspaceId : WorkspaceId)
    (inputs : CompileInputs) (idempotencyKey : String) (costClass : CostClass) (priority : ℤ)
    (now : Timestamp) : Job where
  tenantId := tenantId
  userId := userId
  workspaceId := workspaceId
  inputs := inputs
  idempotencyKey := idempotencyKey
  costClass := costClass
  priority := priority
  state := .queued
  workerId := none
  leaseUntil := none
  attemptCount := 0
  createdAt := now
  claimedAt := none
  startedAt := none
  finishedAt := none
  cancellationRequestedAt := none
  cancellationReason := none
  errorClass := none
  lastError := none
  cacheSourceJobId := none

/-- `INSERT INTO compile_jobs`; a failed insertion names the constraint it violates. -/
def insertJob (db : Db) (id : JobId) (job : Job) : Except String Db := do
  ensure (db.jobs.count (fun _ j => j.userId == job.userId &&
    j.idempotencyKey == job.idempotencyKey) == 0) "compile_jobs_user_idempotency_unique"
  let jobs ← require (db.jobs.insert? id job) "compile_jobs_pkey"
  return { db with jobs }

/-- `COALESCE(max(version_number),0)+1`. -/
def nextVersionNumber (db : Db) (workspace : WorkspaceId) : ℕ :=
  (db.versions.rows.filter (fun r => r.2.workspaceId == workspace)).foldl
    (fun n r => max n r.2.versionNumber) 0 + 1

/-- `INSERT INTO paper_versions` of a compile checkpoint. -/
def insertVersion (db : Db) (id : Uuid) (version : Version) : Except String Db := do
  ensure (1 ≤ version.documentEpoch) "paper_versions_document_epoch_positive"
  ensure version.manifest.isObject "paper_versions_manifest_object"
  ensure (db.versions.count (fun _ v => v.workspaceId == version.workspaceId &&
    v.versionNumber == version.versionNumber) == 0)
    "paper_versions_workspace_number_unique"
  let versions ← require (db.versions.insert? id version) "paper_versions_pkey"
  return { db with versions }

/-- `INSERT INTO v2_paper_builds`. -/
def insertBuild (db : Db) (id : Uuid) (build : Build) : Except String Db := do
  ensure (db.builds.count (fun _ b => b.compileJobId == build.compileJobId ||
    b.versionId == build.versionId) == 0) "v2_paper_builds_unique"
  let builds ← require (db.builds.insert? id build) "v2_paper_builds_pkey"
  return { db with builds }

/-- The job of an enqueued state. -/
def snapshotJob (workspace : WorkspaceId) (source : PendingBuild) (build : Uuid) (now : Timestamp) :
    Job :=
  Job.queued source.tenantId source.userId workspace source.inputs (v2IdempotencyKey build) .normal
    (triggerPriority source.triggerType) now

/-- The checkpoint of an enqueued state. -/
def snapshotVersion (db : Db) (workspace : WorkspaceId) (paperId : Uuid) (source : PendingBuild) :
    Version where
  paperId := paperId
  workspaceId := workspace
  documentEpoch := source.documentEpoch
  versionNumber := nextVersionNumber db workspace
  versionType := .compileCheckpoint
  createdByUserId := source.userId
  workspaceVersion := source.sourceSequence
  snapshotId := source.inputs.snapshotId
  manifest := source.manifest
  stateHash := source.stateHash

/-- The build row of an enqueued state. -/
def snapshotBuild (workspace : WorkspaceId) (paperId : Uuid) (source : PendingBuild)
    (fresh : FreshIds) (now : Timestamp) : Build where
  paperId := paperId
  workspaceId := workspace
  compileJobId := fresh.build
  versionId := fresh.version
  documentEpoch := source.documentEpoch
  sourceSequence := source.sourceSequence
  stateHash := source.stateHash
  triggerType := source.triggerType
  status := .queued
  promotedAt := none
  createdAt := now

/-- The job, the checkpoint and the build row of one immutable state; `enqueue_build`
and the activation in `finalize_v2_build` run the same three statements. -/
def enqueueSnapshot (db : Db) (workspace : WorkspaceId) (paperId : Uuid) (source : PendingBuild)
    (fresh : FreshIds) (now : Timestamp) : Except String Db := do
  let version := snapshotVersion db workspace paperId source
  let db ← insertJob db fresh.build (snapshotJob workspace source fresh.build now)
  let db ← insertVersion db fresh.version version
  insertBuild db fresh.build (snapshotBuild workspace paperId source fresh now)

theorem insertJob_ok {db db' : Db} {id : JobId} {job : Job} (h : insertJob db id job = .ok db') :
    ∃ jobs, db.jobs.insert? id job = some jobs ∧ db' = { db with jobs } := by
  simp only [insertJob,bind_ok,ensure_ok,require_ok,pure_ok] at h
  obtain ⟨_,-,jobs,hj,rfl⟩ := h
  exact ⟨jobs,hj,rfl⟩

theorem insertVersion_ok {db db' : Db} {id : Uuid} {version : Version}
    (h : insertVersion db id version = .ok db') :
    ∃ versions, db.versions.insert? id version = some versions ∧ db' = { db with versions } := by
  simp only [insertVersion,bind_ok,ensure_ok,require_ok,pure_ok] at h
  obtain ⟨_,-,_,-,_,-,versions,hv,rfl⟩ := h
  exact ⟨versions,hv,rfl⟩

theorem insertBuild_ok {db db' : Db} {id : Uuid} {build : Build}
    (h : insertBuild db id build = .ok db') :
    ∃ builds, db.builds.insert? id build = some builds ∧ db' = { db with builds } := by
  simp only [insertBuild,bind_ok,ensure_ok,require_ok,pure_ok] at h
  obtain ⟨_,-,builds,hb,rfl⟩ := h
  exact ⟨builds,hb,rfl⟩

theorem insertJob_fresh {db db' : Db} {id : JobId} {job : Job} (h : insertJob db id job = .ok db')
    {k : JobId} {j : Job} (hj : db.jobs.get? k = some j) (huser : j.userId = job.userId) :
    j.idempotencyKey ≠ job.idempotencyKey := by
  simp only [insertJob,bind_ok,ensure_ok,beq_iff_eq] at h
  obtain ⟨_,hcount,-⟩ := h
  have hnone := Table.count_eq_zero.mp hcount k j hj
  rw [huser,beq_self_eq_true,Bool.true_and] at hnone
  exact beq_eq_false_iff_ne.mp hnone

/-- What a successful enqueue of a state changes. -/
structure Enqueued (workspace : WorkspaceId) (paperId : Uuid) (source : PendingBuild)
    (fresh : FreshIds) (now : Timestamp) (db db' : Db) : Prop where
  jobFresh : db.jobs.get? fresh.build = none
  keyFresh : ∀ k j, db.jobs.get? k = some j → j.userId = source.userId →
    j.idempotencyKey ≠ v2IdempotencyKey fresh.build
  buildFresh : db.builds.get? fresh.build = none
  jobs : ∀ k, db'.jobs.get? k =
    if k = fresh.build then some (snapshotJob workspace source fresh.build now) else db.jobs.get? k
  builds : ∀ k, db'.builds.get? k =
    if k = fresh.build then some (snapshotBuild workspace paperId source fresh now)
    else db.builds.get? k
  artifacts : db'.artifacts = db.artifacts
  cache : db'.cache = db.cache
  schedulers : db'.schedulers = db.schedulers

theorem enqueueSnapshot_ok {db db' : Db} {workspace : WorkspaceId} {paperId : Uuid}
    {source : PendingBuild} {fresh : FreshIds} {now : Timestamp}
    (h : enqueueSnapshot db workspace paperId source fresh now = .ok db') :
    Enqueued workspace paperId source fresh now db db' := by
  simp only [enqueueSnapshot,bind_ok] at h
  obtain ⟨db₁,h₁,db₂,h₂,h₃⟩ := h
  obtain ⟨jobs,hjobs,rfl⟩ := insertJob_ok h₁
  obtain ⟨versions,-,rfl⟩ := insertVersion_ok h₂
  obtain ⟨builds,hbuilds,rfl⟩ := insertBuild_ok h₃
  exact ⟨(Table.insert?_eq_some hjobs).1,fun _ _ hj huser => insertJob_fresh h₁ hj huser,
    (Table.insert?_eq_some hbuilds).1,
    Table.get?_insert? hjobs,Table.get?_insert? hbuilds,rfl,rfl,rfl⟩

end LatexCore.Queue
