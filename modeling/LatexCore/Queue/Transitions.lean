import LatexCore.Queue.Finalize
import Mathlib.Data.List.Sort

/-! # Transitions of the compile queue

Each repository call of the queue is one transaction on the tables. The row
functions mirror the `SET` clauses of the statements. A clock is part of the
input of a call, and so are the rows that other transactions keep locked, the
order of an unordered `SELECT` and the identifiers a transaction draws.
-/
namespace LatexCore.Queue
open Core Foundation

def QueueLimits.checkedLeaseMillis (limits : QueueLimits) : Except QueueError ℕ := do
  ensure (limits.leaseMillis ≤ i64Max) (.invalidConfiguration "lease duration is too large")
  return limits.leaseMillis

def Job.cancellationRequested (j : Job) : Bool := j.cancellationRequestedAt.isSome

/-- `state='running' AND worker_id=$2 AND lease_until>statement_timestamp()`. -/
def Job.heldBy (j : Job) (worker : WorkerId) (now : Timestamp) : Bool :=
  j.state == .running && j.workerId == some worker && j.leaseUntil.any (fun t => now < t)

/-- `state IN ('claimed','running') AND lease_until<=statement_timestamp()`. -/
def Job.expired (j : Job) (now : Timestamp) : Bool :=
  j.state.leased && j.leaseUntil.any (fun t => t ≤ now)

def Job.claimBy (j : Job) (worker : WorkerId) (leaseMillis : ℕ) (now : Timestamp) : Job :=
  { j with
    state := .running, workerId := some worker, leaseUntil := some (now + leaseMillis),
    claimedAt := some (j.claimedAt.getD now), startedAt := some (j.startedAt.getD now),
    attemptCount := j.attemptCount + 1 }

def Job.renew (j : Job) (leaseMillis : ℕ) (now : Timestamp) : Job :=
  { j with leaseUntil := some (now + leaseMillis) }

def Job.requestCancellation (j : Job) (reason : Option String) (now : Timestamp) : Job :=
  { j with
    state := if j.state = .queued then .cancelled else j.state,
    cancellationRequestedAt := some (j.cancellationRequestedAt.getD now),
    cancellationReason := j.cancellationReason <|> reason,
    finishedAt := if j.state = .queued then some now else j.finishedAt,
    workerId := if j.state = .queued then none else j.workerId,
    leaseUntil := if j.state = .queued then none else j.leaseUntil }

def infrastructureError (message : String) : Value :=
  .obj [("class",.str "infrastructure"),("message",.str message)]

def Job.recover (j : Job) (maxAttempts : ℕ) (now : Timestamp) : Job :=
  { j with
    state := if j.cancellationRequested then .cancelled
      else if maxAttempts ≤ j.attemptCount then .failed else .queued,
    workerId := none, leaseUntil := none,
    finishedAt := if j.cancellationRequested ∨ maxAttempts ≤ j.attemptCount then some now else none,
    errorClass := if j.cancellationRequested then some "cancelled"
      else if maxAttempts ≤ j.attemptCount then some "infrastructure" else j.errorClass,
    lastError := if j.cancellationRequested then j.lastError
      else if maxAttempts ≤ j.attemptCount then
        some (infrastructureError "worker lease expired; retry budget exhausted")
      else some (infrastructureError "worker lease expired; requeued") }

def Job.finish (j : Job) (state : JobState) (errorClass : Option String) (error : Option Value)
    (cacheSource : Option JobId) (now : Timestamp) : Job :=
  { j with
    state, workerId := none, leaseUntil := none, finishedAt := some now, errorClass,
    lastError := error, cacheSourceJobId := cacheSource }

def Job.requeue (j : Job) (error : Value) : Job :=
  { j with
    state := .queued, workerId := none, leaseUntil := none,
    errorClass := some "infrastructure", lastError := some error }

structure EnqueueRequest where
  jobId : JobId
  tenantId : TenantId
  userId : UserId
  workspaceId : WorkspaceId
  inputs : CompileInputs
  idempotencyKey : String
  costClass : CostClass
  priority : ℤ

/-- What the tables outside the queue answer to an admission. -/
structure EnqueueFacts where
  compileSubmit : Except QueueError Bool
  owned : Bool
  snapshotKnown : Bool
  references : Bool

def enqueue (limits : QueueLimits) (db : Db) (request : EnqueueRequest) (facts : EnqueueFacts)
    (clock : Clock) : Except QueueError (Db × JobId) := do
  let allowed ← facts.compileSubmit
  ensure allowed .notFound
  match db.jobs.rows.find? (fun r => r.2.userId == request.userId &&
      r.2.idempotencyKey == request.idempotencyKey) with
  | some (id,j) =>
    ensure (j.inputs == request.inputs) .idempotencyConflict
    return (db,id)
  | none =>
    ensure facts.owned .notFound
    ensure facts.snapshotKnown .notFound
    ensure (db.jobs.count (fun _ j => j.userId == request.userId && j.state.outstanding) <
      limits.perUserOutstanding) (.admissionRejected "per-user outstanding" limits.perUserOutstanding)
    ensure facts.references (.database "compile_jobs_foreign_keys")
    let db ← (insertJob db request.jobId (Job.queued request.tenantId request.userId
      request.workspaceId request.inputs request.idempotencyKey request.costClass request.priority
      clock.started)).mapError .database
    return (db,request.jobId)

/-- `ORDER BY j.priority DESC,j.created_at ASC,j.id ASC`. -/
def claimOrder (a b : JobId × Job) : Bool :=
  b.2.priority < a.2.priority || (a.2.priority == b.2.priority &&
    (a.2.createdAt < b.2.createdAt || (a.2.createdAt == b.2.createdAt && a.1 < b.1)))

def claimable (limits : QueueLimits) (db : Db) (locked : List JobId) (id : JobId) (j : Job) : Bool :=
  j.state == .queued &&
    db.jobs.count (fun _ active => active.userId == j.userId && active.state.leased) <
      limits.perUserRunning && !locked.contains id

def claimRow (db : Db) (id : JobId) (worker : WorkerId) (leaseMillis : ℕ) (now : Timestamp) : Db :=
  { db with
    jobs := db.jobs.modify id (fun j => j.claimBy worker leaseMillis now),
    builds := db.builds.updateWhere (fun _ b => b.compileJobId == id)
      (fun b => { b with status := .running }) }

def claim (limits : QueueLimits) (db : Db) (worker : WorkerId) (locked : List JobId) (clock : Clock) :
    Except QueueError (Db × Option (JobId × Job)) :=
  if limits.globalRunning ≤ db.jobs.count (fun _ j => j.state.leased) then .ok (db,none)
  else do
    let leaseMillis ← limits.checkedLeaseMillis
    match db.jobs.best (claimable limits db locked) claimOrder with
    | none => return (db,none)
    | some (id,j) =>
      ensure (j.attemptCount < i32Max) (.database "compile_jobs_attempt_count")
      return (claimRow db id worker leaseMillis clock.checked,
        some (id,j.claimBy worker leaseMillis clock.checked))

def renewLease (limits : QueueLimits) (db : Db) (job : JobId) (worker : WorkerId) (clock : Clock) :
    Except QueueError (Db × Unit) := do
  let leaseMillis ← limits.checkedLeaseMillis
  ensure ((db.jobs.get? job).any (fun j => j.heldBy worker clock.checked)) .leaseLost
  return ({ db with jobs := db.jobs.modify job (fun j => j.renew leaseMillis clock.checked) },())

def validReason (reason : Option String) : Bool :=
  reason.all (fun value => value != "" && value.utf8ByteSize ≤ 512)

def requestCancellation (db : Db) (job : JobId) (reason : Option String) (clock : Clock) :
    Except QueueError (Db × Unit) := do
  ensure (validReason reason) (.integrity "cancellation reason must be 1..=512 bytes")
  let j ← require (db.jobs.get? job) .notFound
  ensure j.state.outstanding (.invalidState "terminal")
  return ({ db with
    jobs := db.jobs.modify job (fun j => j.requestCancellation reason clock.checked) },())

/-- The finalizations of a recovery, each with the identifiers it draws. -/
def finalizeFailed (fresh : JobId → FreshIds) (clock : Clock) : List JobId → Db → Except QueueError Db
  | [], db => .ok db
  | job :: rest, db => do
    let db ← finalizeV2Build db job false (fresh job) clock
    finalizeFailed fresh clock rest db

def failedUnfinalized (db : Db) : List JobId :=
  db.jobs.select (fun id j => j.state == .failed && (buildOf db id).any (fun b => b.2.status.unfinished))

def recoverRows (limits : QueueLimits) (db : Db) (now : Timestamp) : Db :=
  { db with
    jobs := db.jobs.updateWhere (fun _ j => j.expired now) (fun j => j.recover limits.maxAttempts now) }

/-- `PostgresCompileQueue::recover_expired_leases`; `rank` orders the jobs it finalizes. -/
def recoverExpiredLeases (limits : QueueLimits) (db : Db) (rank : JobId → ℕ)
    (fresh : JobId → FreshIds) (clock : Clock) : Except QueueError (Db × ℕ) := do
  ensure (limits.maxAttempts ≤ i32Max) (.invalidConfiguration "max attempts too large")
  let recovered := recoverRows limits db clock.checked
  let final ← finalizeFailed fresh clock
    ((failedUnfinalized recovered).insertionSort (fun a b => rank a ≤ rank b)) recovered
  return (final,db.jobs.count (fun _ j => j.expired clock.checked))

def finish (db : Db) (job : JobId) (worker : WorkerId) (state : JobState)
    (errorClass : Option String) (error : Option Value) (cacheSource : Option JobId)
    (now : Timestamp) : Except QueueError Db := do
  ensure ((db.jobs.get? job).any (fun j => j.heldBy worker now)) .leaseLost
  ensure (error.all Value.isObject) (.database "compile_jobs_last_error_object")
  ensure (cacheSource.all (fun source => (db.jobs.get? source).isSome))
    (.database "compile_jobs_cache_source_fk")
  return { db with
    jobs := db.jobs.modify job (fun j => j.finish state errorClass error cacheSource now) }

/-- `assert_live_lease`; a cancelled job is finished and yields no compile key. -/
def assertLiveLease (db : Db) (job : JobId) (worker : WorkerId) (clock : Clock) :
    Except QueueError (Db × Option CompileKey) := do
  let j ← require (db.jobs.get? job) .notFound
  ensure (j.state == .running) (.invalidState j.state.text)
  ensure (j.heldBy worker clock.checked) .leaseLost
  if j.cancellationRequested then
    let db ← finish db job worker .cancelled (some "cancelled") none none clock.finished
    return (db,none)
  else return (db,some j.inputs.compileKey)

structure PersistedArtifact where
  artifactId : ArtifactId
  kind : ArtifactKind
  logicalName : String
  blobHash : BlobHash
  sizeBytes : ℕ
  contentType : String

def insertArtifacts (job : JobId) (key : CompileKey) :
    List PersistedArtifact → Table ArtifactId Artifact → Except QueueError (Table ArtifactId Artifact)
  | [], t => .ok t
  | a :: rest, t => do
    ensure (a.sizeBytes ≤ i64Max) (.integrity "artifact size exceeds PostgreSQL BIGINT")
    ensure (a.logicalName != "") (.database "compilation_artifacts_name_nonempty")
    ensure (1 ≤ a.contentType.length && a.contentType.length ≤ 255)
      (.database "compilation_artifacts_content_type_nonempty")
    ensure (t.count (fun _ row => row.jobId == job && row.kind == a.kind &&
      row.logicalName == a.logicalName) == 0) (.database "compilation_artifacts_job_kind_name_unique")
    let t ← require (t.insert? a.artifactId
      ⟨job,key,a.kind,a.logicalName,a.blobHash,a.sizeBytes,a.contentType⟩)
      (.database "compilation_artifacts_pkey")
    insertArtifacts job key rest t

structure CacheRecord where
  compileKey : CompileKey
  sourceJobId : JobId
  artifactManifestBlobHash : BlobHash

inductive CompletionOutcome
  | succeeded | cancelled
deriving DecidableEq

inductive InfrastructureOutcome
  | requeued | failed | cancelled
deriving DecidableEq

/-- `INSERT INTO compile_cache .. ON CONFLICT (compile_key) DO UPDATE SET last_accessed_at`. -/
def recordCache (cache : Table CompileKey CacheRow) (key : CompileKey) (job : JobId)
    (manifest : BlobHash) (now : Timestamp) : Table CompileKey CacheRow :=
  (cache.insert? key ⟨job,manifest,now⟩).getD
    (cache.modify key (fun row => { row with lastAccessedAt := now }))

def completeSuccess (db : Db) (job : JobId) (worker : WorkerId) (artifacts : List PersistedArtifact)
    (manifest : BlobHash) (fresh : FreshIds) (clock : Clock) :
    Except QueueError (Db × CompletionOutcome) := do
  match ← assertLiveLease db job worker clock with
  | (db,none) => return (db,.cancelled)
  | (db,some key) =>
    let rows ← insertArtifacts job key artifacts db.artifacts
    let cache := recordCache db.cache key job manifest clock.finished
    let db ← finish { db with artifacts := rows, cache } job worker .succeeded none none none
      clock.finished
    let db ← finalizeV2Build db job true fresh clock
    return (db,.succeeded)

def completeCachedSuccess (db : Db) (job : JobId) (worker : WorkerId) (record : CacheRecord)
    (artifacts : List PersistedArtifact) (fresh : FreshIds) (clock : Clock) :
    Except QueueError (Db × CompletionOutcome) := do
  match ← assertLiveLease db job worker clock with
  | (db,none) => return (db,.cancelled)
  | (db,some key) =>
    ensure (key == record.compileKey) (.integrity "cache key does not match job")
    let rows ← insertArtifacts job key artifacts db.artifacts
    let cache := db.cache.updateWhere (fun k row => k == key && row.sourceJobId == record.sourceJobId &&
      row.artifactManifestBlobHash == record.artifactManifestBlobHash)
      (fun row => { row with lastAccessedAt := clock.finished })
    let db ← finish { db with artifacts := rows, cache } job worker .succeeded none none
      (some record.sourceJobId) clock.finished
    let db ← finalizeV2Build db job true fresh clock
    return (db,.succeeded)

def completeCompileFailureWithArtifacts (db : Db) (job : JobId) (worker : WorkerId)
    (timedOut : Bool) (error : Value) (artifacts : List PersistedArtifact) (fresh : FreshIds)
    (clock : Clock) : Except QueueError (Db × CompletionOutcome) := do
  match ← assertLiveLease db job worker clock with
  | (db,none) => return (db,.cancelled)
  | (db,some key) =>
    let rows ← insertArtifacts job key artifacts db.artifacts
    let db ← finish { db with artifacts := rows } job worker (if timedOut then .timedOut else .failed)
      (some "compile") (some error) none clock.finished
    let db ← finalizeV2Build db job false fresh clock
    return (db,.succeeded)

def completeCompileFailure (db : Db) (job : JobId) (worker : WorkerId) (timedOut : Bool)
    (error : Value) (fresh : FreshIds) (clock : Clock) :
    Except QueueError (Db × CompletionOutcome) :=
  completeCompileFailureWithArtifacts db job worker timedOut error [] fresh clock

def completeInfrastructureFailure (limits : QueueLimits) (db : Db) (job : JobId) (worker : WorkerId)
    (error : Value) (fresh : FreshIds) (clock : Clock) :
    Except QueueError (Db × InfrastructureOutcome) := do
  match ← assertLiveLease db job worker clock with
  | (db,none) => return (db,.cancelled)
  | (db,some _) =>
    let j ← require (db.jobs.get? job) (.database "compile_jobs")
    if limits.maxAttempts ≤ j.attemptCount then
      let db ← finish db job worker .failed (some "infrastructure") (some error) none clock.finished
      let db ← finalizeV2Build db job false fresh clock
      return (db,.failed)
    else
      ensure error.isObject (.database "compile_jobs_last_error_object")
      return ({ db with
        jobs := db.jobs.updateWhere (fun k j => k == job && j.workerId == some worker &&
          j.state == .running) (fun j => j.requeue error) },.requeued)

def evictCacheIfMatches (db : Db) (record : CacheRecord) : Except QueueError (Db × Unit) :=
  .ok ({ db with
    cache := db.cache.deleteWhere (fun k row => k == record.compileKey &&
      row.sourceJobId == record.sourceJobId &&
      row.artifactManifestBlobHash == record.artifactManifestBlobHash) },())

end LatexCore.Queue
