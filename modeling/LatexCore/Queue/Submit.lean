import LatexCore.Core.Types
import LatexCore.Queue.Transitions

/-! # Submission of a V2 build

A submission installs the desired state of its paper and then reuses a
succeeded build of that state, joins the active build of that state, replaces
the pending state behind another active build, or enqueues a new build.

A run of the queue and its scheduler is a list of calls in the order in which their
transactions commit. A call that fails is rolled back and leaves the tables alone.
-/
namespace LatexCore.Queue
open Core Foundation

structure V2BuildRequest where
  paperId : Uuid
  workspaceId : WorkspaceId
  documentEpoch : ℕ
  sourceSequence : ℕ
  manifest : Value
  stateHash : String
  tenantId : TenantId
  userId : UserId
  triggerType : String
  inputs : CompileInputs

structure V2BuildSubmission where
  buildId : Option Uuid
  activeBuildId : Option Uuid
  stateHash : String
  status : String
  reused : Bool
deriving DecidableEq

/-- What the tables outside the scheduler answer: the status of the paper that the user may
build, and whether the referenced rows exist. -/
structure SubmitFacts where
  paperStatus : Option String
  references : Bool

def validateBuildRequest (request : V2BuildRequest) : Except V2Error Unit := do
  ensure (request.triggerType == "auto" || request.triggerType == "manual")
    (.integrity "invalid V2 build trigger")
  ensure (request.stateHash == request.inputs.snapshotId.toHex)
    (.integrity "state hash must equal canonical snapshot identity")
  ensure request.inputs.synctex (.integrity "V2 builds require SyncTeX")

/-- `require_build_access` of an active paper. -/
def requireBuildAccess (facts : SubmitFacts) : Except V2Error Unit := do
  let status ← require facts.paperStatus (.notFound "paper")
  ensure (status == "active") (.conflict "read-only paper")

/-- A scheduler row as `lock_scheduler` inserts it. -/
def Scheduler.new (paperId : Uuid) : Scheduler := ⟨paperId,none,none,none,none,none⟩

def lockScheduler (db : Db) (paperId : Uuid) (workspace : WorkspaceId) : Except V2Error Db := do
  let db := { db with
    schedulers := (db.schedulers.insert? workspace (.new paperId)).getD db.schedulers }
  let stored ← require (db.schedulers.get? workspace) (.database "v2_paper_build_state")
  ensure (stored.paperId == paperId) (.integrity "scheduler paper identity mismatch")
  return db

def setDesired (db : Db) (request : V2BuildRequest) : Db :=
  { db with
    schedulers := db.schedulers.modify request.workspaceId (fun s => { s with
      desiredStateHash := some request.stateHash,
      desiredSourceSequence := some request.sourceSequence }) }

def V2BuildRequest.pending (request : V2BuildRequest) : PendingBuild where
  manifest := request.manifest
  stateHash := request.stateHash
  sourceSequence := request.sourceSequence
  documentEpoch := request.documentEpoch
  tenantId := request.tenantId
  userId := request.userId
  triggerType := request.triggerType
  inputs := request.inputs

def hasArtifact (db : Db) (job : JobId) (p : Artifact → Bool) : Bool :=
  db.artifacts.rows.any (fun r => r.2.jobId == job && p r.2)

def reusable (db : Db) (workspace : WorkspaceId) (stateHash : String) (b : Build) : Bool :=
  b.workspaceId == workspace && b.stateHash == stateHash && b.status == .succeeded &&
    hasArtifact db b.compileJobId (fun a => a.kind == .pdf) &&
    hasArtifact db b.compileJobId (fun a => a.kind == .log) &&
    hasArtifact db b.compileJobId (fun a => a.kind == .synctex && 0 < a.sizeBytes)

/-- `ORDER BY b.created_at DESC LIMIT 1`; `rank` decides between equal times. -/
def reusableBuild (db : Db) (workspace : WorkspaceId) (stateHash : String) (rank : Uuid → ℕ) :
    Option (Uuid × Build) :=
  db.builds.best (fun _ b => reusable db workspace stateHash b)
    (fun a b => b.2.createdAt < a.2.createdAt ||
      (a.2.createdAt == b.2.createdAt && rank a.1 < rank b.1))

def activeBuild (db : Db) (workspace : WorkspaceId) : Option (Uuid × Build × Job) :=
  (db.schedulers.get? workspace).bind fun s =>
    s.activeBuildId.bind fun id =>
      (db.builds.get? id).bind fun b =>
        (db.jobs.get? b.compileJobId).map fun j => (id,b,j)

def clearPending (db : Db) (workspace : WorkspaceId) : Db :=
  { db with schedulers := db.schedulers.modify workspace (fun s => { s with pending := none }) }

def setPending (db : Db) (request : V2BuildRequest) : Db :=
  { db with
    schedulers := db.schedulers.modify request.workspaceId
      (fun s => { s with pending := some request.pending }) }

def clearPendingAndPromote (db : Db) (workspace : WorkspaceId) (build : Uuid) (now : Timestamp) : Db :=
  { db with
    schedulers := db.schedulers.modify workspace (fun s => { s with
      pending := none, activeBuildId := none, currentBuildId := some build }),
    builds := db.builds.modify build (fun b => { b with promotedAt := some (b.promotedAt.getD now) }) }

/-- The checks of a submission and the installation of its desired state. -/
def admitSubmission (db : Db) (request : V2BuildRequest) (facts : SubmitFacts) :
    Except V2Error Db := do
  validateBuildRequest request
  requireBuildAccess facts
  let db ← lockScheduler db request.paperId request.workspaceId
  toI64 request.sourceSequence "source sequence"
  return setDesired db request

def setActiveBuild (db : Db) (workspace : WorkspaceId) (build : Uuid) : Db :=
  { db with
    schedulers := db.schedulers.modify workspace (fun s => { s with activeBuildId := some build }) }

def startBuild (db : Db) (request : V2BuildRequest) (facts : SubmitFacts) (fresh : FreshIds)
    (clock : Clock) : Except V2Error Db := do
  ensure facts.references (.database "compile_jobs_foreign_keys")
  toI64 request.documentEpoch "document epoch"
  let db ← (enqueueSnapshot db request.workspaceId request.paperId request.pending fresh
    clock.started).mapError .database
  return setActiveBuild db request.workspaceId fresh.build

def submitV2Build (db : Db) (request : V2BuildRequest) (facts : SubmitFacts) (rank : Uuid → ℕ)
    (fresh : FreshIds) (clock : Clock) : Except V2Error (Db × V2BuildSubmission) := do
  let db ← admitSubmission db request facts
  match reusableBuild db request.workspaceId request.stateHash rank with
  | some (id,_) =>
    return (clearPendingAndPromote db request.workspaceId id clock.finished,
      ⟨some id,none,request.stateHash,"succeeded",true⟩)
  | none =>
    match activeBuild db request.workspaceId with
    | some (id,b,j) =>
      if b.stateHash = request.stateHash then
        return (clearPending db request.workspaceId,
          ⟨some id,some id,request.stateHash,j.state.text,true⟩)
      else
        toI64 request.documentEpoch "document epoch"
        ensure facts.references (.database "v2_paper_build_state_foreign_keys")
        ensure request.manifest.isObject (.database "v2_build_state_pending_manifest")
        return (setPending db request,⟨none,some id,request.stateHash,"pending",false⟩)
    | none =>
      let db ← startBuild db request facts fresh clock
      return (db,⟨some fresh.build,some fresh.build,request.stateHash,"queued",false⟩)

/-- The four ways a submission can succeed. -/
inductive Submitted (request : V2BuildRequest) (facts : SubmitFacts) (rank : Uuid → ℕ)
    (fresh : FreshIds) (clock : Clock) (db : Db) : Db → V2BuildSubmission → Prop
  | reused (id : Uuid) (b : Build)
      (h : reusableBuild db request.workspaceId request.stateHash rank = some (id,b)) :
      Submitted request facts rank fresh clock db
        (clearPendingAndPromote db request.workspaceId id clock.finished)
        ⟨some id,none,request.stateHash,"succeeded",true⟩
  | joined (id : Uuid) (b : Build) (j : Job)
      (h : reusableBuild db request.workspaceId request.stateHash rank = none)
      (ha : activeBuild db request.workspaceId = some (id,b,j)) (hb : b.stateHash = request.stateHash) :
      Submitted request facts rank fresh clock db (clearPending db request.workspaceId)
        ⟨some id,some id,request.stateHash,j.state.text,true⟩
  | parked (id : Uuid) (b : Build) (j : Job)
      (h : reusableBuild db request.workspaceId request.stateHash rank = none)
      (ha : activeBuild db request.workspaceId = some (id,b,j)) (hb : b.stateHash ≠ request.stateHash) :
      Submitted request facts rank fresh clock db (setPending db request)
        ⟨none,some id,request.stateHash,"pending",false⟩
  | started (db' : Db) (h : reusableBuild db request.workspaceId request.stateHash rank = none)
      (ha : activeBuild db request.workspaceId = none)
      (hs : startBuild db request facts fresh clock = .ok db') :
      Submitted request facts rank fresh clock db db'
        ⟨some fresh.build,some fresh.build,request.stateHash,"queued",false⟩

theorem submitV2Build_ok {db db' : Db} {request : V2BuildRequest} {facts : SubmitFacts}
    {rank : Uuid → ℕ} {fresh : FreshIds} {clock : Clock} {answer : V2BuildSubmission}
    (h : submitV2Build db request facts rank fresh clock = .ok (db',answer)) :
    ∃ mid, admitSubmission db request facts = .ok mid ∧
      Submitted request facts rank fresh clock mid db' answer := by
  simp only [submitV2Build,bind_ok] at h
  obtain ⟨mid,hmid,h⟩ := h
  refine ⟨mid,hmid,?_⟩
  split at h
  · next id b hr =>
    simp only [pure_ok] at h
    cases h
    exact .reused id b hr
  · next hr =>
    split at h
    · next id b j ha =>
      split at h
      · next hb =>
        simp only [pure_ok] at h
        cases h
        exact .joined id b j hr ha hb
      · next hb =>
        simp only [bind_ok,pure_ok] at h
        obtain ⟨_,-,_,-,_,-,h⟩ := h
        cases h
        exact .parked id b j hr ha hb
    · next ha =>
      simp only [bind_ok,pure_ok] at h
      obtain ⟨started,hs,h⟩ := h
      cases h
      exact .started _ hr ha hs

theorem lockScheduler_ok {db db' : Db} {paperId : Uuid} {workspace : WorkspaceId}
    (h : lockScheduler db paperId workspace = .ok db') :
    ∃ schedulers, db' = { db with schedulers } ∧
      schedulers.get? workspace = some ((db.schedulers.get? workspace).getD (.new paperId)) ∧
      ∀ w, w ≠ workspace → schedulers.get? w = db.schedulers.get? w := by
  simp only [lockScheduler,bind_ok,require_ok,ensure_ok,pure_ok] at h
  obtain ⟨stored,hs,_,-,rfl⟩ := h
  refine ⟨_,rfl,?_⟩
  cases hg : db.schedulers.get? workspace with
  | none =>
    obtain ⟨t,ht⟩ := Table.insert?_isSome hg (Scheduler.new paperId)
    have hget := Table.get?_insert? ht
    rw [ht]
    refine ⟨by simp [hget],?_⟩
    intro w hw
    simp [hget,hw]
  | some s =>
    have hnone : db.schedulers.insert? workspace (.new paperId) = none := by
      cases hi : db.schedulers.insert? workspace (.new paperId) with
      | none => rfl
      | some t => simp [(Table.insert?_eq_some hi).1] at hg
    rw [hnone]
    exact ⟨by simp [hg],fun w _ => rfl⟩

theorem admitSubmission_ok {db db' : Db} {request : V2BuildRequest} {facts : SubmitFacts}
    (h : admitSubmission db request facts = .ok db') :
    ∃ schedulers, db' = { db with schedulers } ∧
      schedulers.get? request.workspaceId =
        some { (db.schedulers.get? request.workspaceId).getD (.new request.paperId) with
          desiredStateHash := some request.stateHash,
          desiredSourceSequence := some request.sourceSequence } ∧
      ∀ w, w ≠ request.workspaceId → schedulers.get? w = db.schedulers.get? w := by
  simp only [admitSubmission,bind_ok,pure_ok] at h
  obtain ⟨_,-,_,-,locked,hl,_,-,rfl⟩ := h
  obtain ⟨schedulers,rfl,hself,hother⟩ := lockScheduler_ok hl
  refine ⟨_,rfl,by simp [hself],?_⟩
  intro w hw
  simp [Table.get?_modify,hw,hother w hw]

theorem startBuild_ok {db db' : Db} {request : V2BuildRequest} {facts : SubmitFacts}
    {fresh : FreshIds} {clock : Clock} (h : startBuild db request facts fresh clock = .ok db') :
    ∃ mid, Enqueued request.workspaceId request.paperId request.pending fresh clock.started db mid ∧
      db' = setActiveBuild mid request.workspaceId fresh.build := by
  simp only [startBuild,bind_ok,mapError_ok,pure_ok] at h
  obtain ⟨_,-,_,-,mid,hm,rfl⟩ := h
  exact ⟨mid,enqueueSnapshot_ok hm,rfl⟩

theorem lt_nextVersionNumber {db : Db} {workspace : WorkspaceId} {id : Uuid} {v : Version}
    (hv : db.versions.get? id = some v) (hw : v.workspaceId = workspace) :
    v.versionNumber < nextVersionNumber db workspace := by
  have hfold : ∀ (rows : List (Uuid × Version)) (n : ℕ),
      n ≤ rows.foldl (fun n r => max n r.2.versionNumber) n ∧
        ∀ r ∈ rows, r.2.versionNumber ≤ rows.foldl (fun n r => max n r.2.versionNumber) n := by
    intro rows
    induction rows with
    | nil => simp
    | cons first rest ih =>
      intro n
      obtain ⟨hstart,hrest⟩ := ih (max n first.2.versionNumber)
      refine ⟨le_trans (le_max_left ..) hstart,?_⟩
      intro r hr
      rcases List.mem_cons.mp hr with rfl | hr
      · exact le_trans (le_max_right ..) hstart
      · exact hrest r hr
  have hmem : (id,v) ∈ db.versions.rows.filter (fun r => r.2.workspaceId == workspace) :=
    List.mem_filter.mpr ⟨Table.mem_rows_iff.mpr hv,by simp [hw]⟩
  exact Nat.lt_succ_of_le ((hfold _ 0).2 (id,v) hmem)

/-- The tables have none of the identifiers that the transaction draws. -/
structure FreshFor (db : Db) (fresh : FreshIds) : Prop where
  job : db.jobs.get? fresh.build = none
  key : ∀ id j, db.jobs.get? id = some j → j.idempotencyKey ≠ v2IdempotencyKey fresh.build
  version : db.versions.get? fresh.version = none
  build : db.builds.get? fresh.build = none
  references : ∀ b row, db.builds.get? b = some row →
    row.compileJobId ≠ fresh.build ∧ row.versionId ≠ fresh.version

theorem enqueueSnapshot_isOk {db : Db} {fresh : FreshIds} (hf : FreshFor db fresh)
    {source : PendingBuild} (hepoch : 1 ≤ source.documentEpoch)
    (hmanifest : source.manifest.isObject = true) (workspace : WorkspaceId) (paperId : Uuid)
    (now : Timestamp) : ∃ db', enqueueSnapshot db workspace paperId source fresh now = .ok db' := by
  obtain ⟨jobs,hjobs⟩ := Table.insert?_isSome hf.job (snapshotJob workspace source fresh.build now)
  obtain ⟨versions,hversions⟩ :=
    Table.insert?_isSome hf.version (snapshotVersion db workspace paperId source)
  obtain ⟨builds,hbuilds⟩ :=
    Table.insert?_isSome hf.build (snapshotBuild workspace paperId source fresh now)
  have hjob : insertJob db fresh.build (snapshotJob workspace source fresh.build now) =
      .ok { db with jobs } := by
    simp only [insertJob,bind_ok,ensure_ok,require_ok,pure_ok,beq_iff_eq]
    refine ⟨(),Table.count_eq_zero.mpr ?_,jobs,hjobs,rfl⟩
    intro id j hj
    have hkey := hf.key id j hj
    simp [snapshotJob,Job.queued,hkey]
  have hversion : insertVersion { db with jobs } fresh.version
      (snapshotVersion db workspace paperId source) = .ok { db with jobs, versions } := by
    simp only [insertVersion,bind_ok,ensure_ok,require_ok,pure_ok,beq_iff_eq,decide_eq_true_eq]
    refine ⟨(),hepoch,(),hmanifest,(),Table.count_eq_zero.mpr ?_,versions,hversions,rfl⟩
    intro id v hv
    by_cases hw : v.workspaceId = workspace
    · have hlt := lt_nextVersionNumber hv hw
      simp [snapshotVersion,hw,Nat.ne_of_lt hlt]
    · simp [snapshotVersion,hw]
  have hbuild : insertBuild { db with jobs, versions } fresh.build
      (snapshotBuild workspace paperId source fresh now) = .ok { db with jobs, versions, builds } := by
    simp only [insertBuild,bind_ok,ensure_ok,require_ok,pure_ok,beq_iff_eq]
    refine ⟨(),Table.count_eq_zero.mpr ?_,builds,hbuilds,rfl⟩
    intro b row hrow
    obtain ⟨hj,hv⟩ := hf.references b row hrow
    simp [snapshotBuild,hj,hv]
  exact ⟨{ db with jobs, versions, builds },
    bind_ok.mpr ⟨_,hjob,bind_ok.mpr ⟨_,hversion,hbuild⟩⟩⟩

/-! ## The queue and its scheduler as one machine -/

inductive QueueOp
  | enqueue (request : EnqueueRequest) (facts : EnqueueFacts) (clock : Clock)
  | claim (worker : WorkerId) (locked : List JobId) (clock : Clock)
  | renewLease (job : JobId) (worker : WorkerId) (clock : Clock)
  | requestCancellation (job : JobId) (reason : Option String) (clock : Clock)
  | recoverExpiredLeases (rank : JobId → ℕ) (fresh : JobId → FreshIds) (clock : Clock)
  | completeSuccess (job : JobId) (worker : WorkerId) (artifacts : List PersistedArtifact)
      (manifest : BlobHash) (fresh : FreshIds) (clock : Clock)
  | completeCachedSuccess (job : JobId) (worker : WorkerId) (record : CacheRecord)
      (artifacts : List PersistedArtifact) (fresh : FreshIds) (clock : Clock)
  | completeCompileFailure (job : JobId) (worker : WorkerId) (timedOut : Bool) (error : Value)
      (artifacts : List PersistedArtifact) (fresh : FreshIds) (clock : Clock)
  | completeInfrastructureFailure (job : JobId) (worker : WorkerId) (error : Value)
      (fresh : FreshIds) (clock : Clock)
  | evictCache (record : CacheRecord)
  | submitV2Build (request : V2BuildRequest) (facts : SubmitFacts) (rank : Uuid → ℕ)
      (fresh : FreshIds) (clock : Clock)

def step (limits : QueueLimits) (db : Db) : QueueOp → Db
  | .enqueue request facts clock => commit (fun db => Queue.enqueue limits db request facts clock) db
  | .claim worker locked clock => commit (fun db => Queue.claim limits db worker locked clock) db
  | .renewLease job worker clock => commit (fun db => Queue.renewLease limits db job worker clock) db
  | .requestCancellation job reason clock =>
    commit (fun db => Queue.requestCancellation db job reason clock) db
  | .recoverExpiredLeases rank fresh clock =>
    commit (fun db => Queue.recoverExpiredLeases limits db rank fresh clock) db
  | .completeSuccess job worker artifacts manifest fresh clock =>
    commit (fun db => Queue.completeSuccess db job worker artifacts manifest fresh clock) db
  | .completeCachedSuccess job worker record artifacts fresh clock =>
    commit (fun db => Queue.completeCachedSuccess db job worker record artifacts fresh clock) db
  | .completeCompileFailure job worker timedOut error artifacts fresh clock =>
    commit (fun db =>
      completeCompileFailureWithArtifacts db job worker timedOut error artifacts fresh clock) db
  | .completeInfrastructureFailure job worker error fresh clock =>
    commit (fun db => Queue.completeInfrastructureFailure limits db job worker error fresh clock) db
  | .evictCache record => commit (fun db => evictCacheIfMatches db record) db
  | .submitV2Build request facts rank fresh clock =>
    commit (fun db => Queue.submitV2Build db request facts rank fresh clock) db

/-! Sample calls for the counterexamples and witnesses about concrete runs. -/

def zeroDigest : Digest :=
  ⟨"0000000000000000000000000000000000000000000000000000000000000000",by decide⟩

def oneDigest : Digest :=
  ⟨"1111111111111111111111111111111111111111111111111111111111111111",by decide⟩

def sampleLimits : QueueLimits := ⟨4,4,4,1000,3,by decide,by decide,by decide,by decide,by decide⟩

def sampleInputs (snapshot : SnapshotId) : CompileInputs :=
  ⟨snapshot,snapshot,.pdfLatex,"texlive","default",.safe,true⟩

def sampleRequest (snapshot : SnapshotId) : V2BuildRequest :=
  ⟨7,1,1,1,.obj [],snapshot.toHex,1,1,"auto",sampleInputs snapshot⟩

def sampleClock (t : Timestamp) : Clock := ⟨t,t,t⟩

/-- The submission of a state that draws the given identifier for its build. -/
def sampleSubmit (snapshot : SnapshotId) (build : Uuid) (t : Timestamp) : QueueOp :=
  .submitV2Build (sampleRequest snapshot) ⟨some "active",true⟩ id ⟨build,build + 100⟩ (sampleClock t)

def sampleArtifacts (first : ArtifactId) : List PersistedArtifact :=
  [⟨first,.pdf,"main.pdf",zeroDigest,1,"application/pdf"⟩,
    ⟨first + 1,.log,"main.log",zeroDigest,1,"text/plain"⟩,
    ⟨first + 2,.synctex,"main.synctex.gz",zeroDigest,1,"application/gzip"⟩]

def sampleSuccess (job : JobId) (worker : WorkerId) (fresh : Uuid) (t : Timestamp) : QueueOp :=
  .completeSuccess job worker (sampleArtifacts (job * 10)) zeroDigest ⟨fresh,fresh + 100⟩
    (sampleClock t)

end LatexCore.Queue
