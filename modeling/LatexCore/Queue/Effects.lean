import LatexCore.Queue.Submit

/-! # What a call can do

The inversion lemmas of the machine. A call changes each job row by at most one
of the transitions below, or claims one queued row under the limits, and it
writes artifacts for a job only in the transaction that finishes the job.
-/
namespace LatexCore.Queue
open Core Foundation

/-- A row as an insertion leaves it. -/
inductive Job.New : Job → Prop
  | queued (tenantId userId workspaceId inputs idempotencyKey costClass priority now) :
      Job.New (.queued tenantId userId workspaceId inputs idempotencyKey costClass priority now)

/-- The transitions that a call can make on a row, other than a claim. -/
inductive JobStep (limits : QueueLimits) (j : Job) : QueueOp → Job → Prop
  | renewed {op} (leaseMillis now) (h : j.state = .running) :
      JobStep limits j op (j.renew leaseMillis now)
  | cancellationRequested {job reason clock} (h : j.state.outstanding = true) :
      JobStep limits j (.requestCancellation job reason clock)
        (j.requestCancellation reason clock.checked)
  | recovered {op} (now) (h : j.state.leased = true) :
      JobStep limits j op (j.recover limits.maxAttempts now)
  | finished {op} (state errorClass error cacheSource now) (h : j.state = .running)
      (ht : state.terminal = true) :
      JobStep limits j op (j.finish state errorClass error cacheSource now)
  | requeued {op} (error) (h : j.state = .running) (ha : j.attemptCount < limits.maxAttempts) :
      JobStep limits j op (j.requeue error)

inductive RowChange (limits : QueueLimits) (op : QueueOp) : Option Job → Option Job → Prop
  | same (o) : RowChange limits op o o
  | new {j} (h : j.New) : RowChange limits op none (some j)
  | changed {j j'} (h : JobStep limits j op j') : RowChange limits op (some j) (some j')

/-- Every old job row is kept and every other row is a new one. -/
def JobsExtend (db db' : Db) : Prop :=
  ∀ k, db'.jobs.get? k = db.jobs.get? k ∨
    db.jobs.get? k = none ∧ ∃ j, db'.jobs.get? k = some j ∧ j.New

theorem JobsExtend.refl (db : Db) : JobsExtend db db := fun _ => Or.inl rfl

theorem JobsExtend.trans {a b c : Db} (hab : JobsExtend a b) (hbc : JobsExtend b c) :
    JobsExtend a c := by
  intro k
  rcases hab k with h | ⟨hn,j,hj,hnew⟩
  · rcases hbc k with h' | ⟨hn',j',hj',hnew'⟩
    · exact Or.inl (h'.trans h)
    · exact Or.inr ⟨h ▸ hn',j',hj',hnew'⟩
  · rcases hbc k with h' | ⟨hn',-⟩
    · exact Or.inr ⟨hn,j,h'.trans hj,hnew⟩
    · simp [hj] at hn'

theorem JobsExtend.kept {db db' : Db} (h : JobsExtend db db') {k : JobId} {j : Job}
    (hj : db.jobs.get? k = some j) : db'.jobs.get? k = some j := by
  rcases h k with he | ⟨hn,-⟩
  · exact he.trans hj
  · simp [hj] at hn

theorem RowChange.extend {limits : QueueLimits} {op : QueueOp} {o : Option Job} {db db' : Db}
    {k : JobId} (h : RowChange limits op o (db.jobs.get? k)) (he : JobsExtend db db') :
    RowChange limits op o (db'.jobs.get? k) := by
  rcases he k with hk | ⟨hn,j,hj,hnew⟩
  · exact hk ▸ h
  · rw [hj]
    rw [hn] at h
    cases h
    exact .new hnew

theorem JobsExtend.rowChange {limits : QueueLimits} {op : QueueOp} {db db' : Db}
    (he : JobsExtend db db') (k : JobId) : RowChange limits op (db.jobs.get? k) (db'.jobs.get? k) :=
  RowChange.extend (.same _) he

theorem Enqueued.extend {w : WorkspaceId} {paper : Uuid} {source : PendingBuild} {fresh : FreshIds}
    {now : Timestamp} {db db' : Db} (h : Enqueued w paper source fresh now db db') :
    JobsExtend db db' := by
  intro k
  rw [h.jobs k]
  by_cases hk : k = fresh.build
  · subst hk
    exact Or.inr ⟨h.jobFresh,_,if_pos rfl,.queued ..⟩
  · exact Or.inl (if_neg hk)

theorem finalizeV2Build_extend {db db' : Db} {job : JobId} {ok : Bool} {fresh : FreshIds}
    {clock : Clock} (h : finalizeV2Build db job ok fresh clock = .ok db') :
    JobsExtend db db' ∧ db'.artifacts = db.artifacts := by
  rcases finalizeV2Build_ok h with ⟨-,rfl⟩ | ⟨id,build,s,-,-,ha⟩
  · exact ⟨.refl _,rfl⟩
  · rcases activatePending_ok ha with ⟨-,rfl⟩ | ⟨source,mid,-,he,rfl⟩
    · exact ⟨fun k => Or.inl (by simp [setActive]),by simp [setActive]⟩
    · refine ⟨fun k => ?_,?_⟩
      · simpa [setActive] using he.extend k
      · simpa [setActive] using he.artifacts

theorem finalizeFailed_extend {fresh : JobId → FreshIds} {clock : Clock} {todo : List JobId}
    {db db' : Db} (h : finalizeFailed fresh clock todo db = .ok db') :
    JobsExtend db db' ∧ db'.artifacts = db.artifacts := by
  induction todo generalizing db with
  | nil =>
    cases h
    exact ⟨.refl _,rfl⟩
  | cons job rest ih =>
    simp only [finalizeFailed,bind_ok] at h
    obtain ⟨mid,hm,h⟩ := h
    obtain ⟨he,ha⟩ := finalizeV2Build_extend hm
    obtain ⟨he',ha'⟩ := ih h
    exact ⟨he.trans he',ha'.trans ha⟩

theorem Submitted.extend {request : V2BuildRequest} {facts : SubmitFacts} {rank : Uuid → ℕ}
    {fresh : FreshIds} {clock : Clock} {db db' : Db} {answer : V2BuildSubmission}
    (h : Submitted request facts rank fresh clock db db' answer) :
    JobsExtend db db' ∧ db'.artifacts = db.artifacts := by
  cases h with
  | reused id b hr => exact ⟨.refl _,rfl⟩
  | joined id b j hr ha hb => exact ⟨.refl _,rfl⟩
  | parked id b j hr ha hb => exact ⟨.refl _,rfl⟩
  | started _ hr ha hs =>
    obtain ⟨mid,he,rfl⟩ := startBuild_ok hs
    exact ⟨he.extend,he.artifacts⟩

theorem heldBy_iff {j : Job} {worker : WorkerId} {now : Timestamp} :
    j.heldBy worker now = true ↔
      j.state = .running ∧ j.workerId = some worker ∧ ∃ t, j.leaseUntil = some t ∧ now < t := by
  cases hl : j.leaseUntil <;> simp [Job.heldBy,hl,and_assoc]

theorem finish_ok {db db' : Db} {job : JobId} {worker : WorkerId} {state : JobState}
    {errorClass : Option String} {error : Option Value} {cacheSource : Option JobId}
    {now : Timestamp}
    (h : finish db job worker state errorClass error cacheSource now = .ok db') :
    ∃ j, db.jobs.get? job = some j ∧ j.heldBy worker now = true ∧
      db' = { db with
        jobs := db.jobs.modify job (fun j => j.finish state errorClass error cacheSource now) } := by
  simp only [finish,bind_ok,ensure_ok,pure_ok] at h
  obtain ⟨_,hheld,_,-,_,-,rfl⟩ := h
  cases hj : db.jobs.get? job with
  | none => simp [hj] at hheld
  | some j => exact ⟨j,rfl,by simpa [hj] using hheld,rfl⟩

inductive Completed (limits : QueueLimits) (job : JobId) (worker : WorkerId) (fresh : FreshIds)
    (clock : Clock) (db : Db) : Db → Prop
  | cancelled (j : Job) (hj : db.jobs.get? job = some j) (hc : j.cancellationRequested = true)
      (hheld : j.heldBy worker clock.checked = true) (hstill : j.heldBy worker clock.finished = true) :
      Completed limits job worker fresh clock db
        { db with
          jobs := db.jobs.modify job (fun j =>
            j.finish .cancelled (some "cancelled") none none clock.finished) }
  | settled (j : Job) (hj : db.jobs.get? job = some j) (hc : j.cancellationRequested = false)
      (hheld : j.heldBy worker clock.checked = true)
      (state : JobState) (hs : state = .succeeded ∨ state = .failed ∨ state = .timedOut)
      (errorClass : Option String) (error : Option Value) (cacheSource : Option JobId)
      (artifacts : List PersistedArtifact) (rows : Table ArtifactId Artifact)
      (hrows : insertArtifacts job j.inputs.compileKey artifacts db.artifacts = .ok rows)
      (cache : Table CompileKey CacheRow) (db' : Db)
      (hf : finalizeV2Build
        { db with
          jobs := db.jobs.modify job (fun j => j.finish state errorClass error cacheSource clock.finished),
          artifacts := rows, cache } job (state == .succeeded) fresh clock = .ok db') :
      Completed limits job worker fresh clock db db'
  | requeued (j : Job) (hj : db.jobs.get? job = some j) (hc : j.cancellationRequested = false)
      (hheld : j.heldBy worker clock.checked = true) (ha : j.attemptCount < limits.maxAttempts)
      (error : Value) :
      Completed limits job worker fresh clock db
        { db with jobs := db.jobs.modify job (fun j => j.requeue error) }

theorem assertLiveLease_ok {db db' : Db} {job : JobId} {worker : WorkerId} {clock : Clock}
    {key : Option CompileKey} (h : assertLiveLease db job worker clock = .ok (db',key)) :
    ∃ j, db.jobs.get? job = some j ∧ j.heldBy worker clock.checked = true ∧
      ((j.cancellationRequested = true ∧ key = none ∧
          finish db job worker .cancelled (some "cancelled") none none clock.finished = .ok db') ∨
        (j.cancellationRequested = false ∧ key = some j.inputs.compileKey ∧ db' = db)) := by
  simp only [assertLiveLease,bind_ok,require_ok,ensure_ok] at h
  obtain ⟨j,hj,_,-,_,hheld,h⟩ := h
  refine ⟨j,hj,hheld,?_⟩
  split at h
  · next hc =>
    simp only [bind_ok,pure_ok] at h
    obtain ⟨mid,hm,h⟩ := h
    cases h
    exact Or.inl ⟨hc,rfl,hm⟩
  · next hc =>
    simp only [pure_ok] at h
    cases h
    exact Or.inr ⟨by simpa using hc,rfl,rfl⟩

section Completions
variable {limits : QueueLimits} {db db' : Db} {job : JobId} {worker : WorkerId} {fresh : FreshIds}
  {clock : Clock}

theorem Completed.of_cancelled {j : Job} (hj : db.jobs.get? job = some j)
    (hheld : j.heldBy worker clock.checked = true) (hc : j.cancellationRequested = true)
    (h : finish db job worker .cancelled (some "cancelled") none none clock.finished = .ok db') :
    Completed limits job worker fresh clock db db' := by
  obtain ⟨j',hj',hstill,rfl⟩ := finish_ok h
  rw [hj] at hj'
  cases hj'
  exact .cancelled j hj hc hheld hstill

theorem completeSuccess_ok {artifacts : List PersistedArtifact} {manifest : BlobHash}
    {outcome : CompletionOutcome}
    (h : completeSuccess db job worker artifacts manifest fresh clock = .ok (db',outcome)) :
    Completed limits job worker fresh clock db db' := by
  simp only [completeSuccess,bind_ok] at h
  obtain ⟨⟨mid,key⟩,hlive,h⟩ := h
  obtain ⟨j,hj,hheld,⟨hc,rfl,hf⟩ | ⟨hc,rfl,rfl⟩⟩ := assertLiveLease_ok hlive
  · cases h
    exact .of_cancelled hj hheld hc hf
  · simp only [bind_ok,pure_ok] at h
    obtain ⟨rows,hrows,mid,hfin,last,hfinal,h⟩ := h
    cases h
    obtain ⟨_,-,-,rfl⟩ := finish_ok hfin
    exact .settled j hj hc hheld .succeeded (Or.inl rfl) _ _ _ _ rows hrows _ _ hfinal

theorem completeCachedSuccess_ok {record : CacheRecord} {artifacts : List PersistedArtifact}
    {outcome : CompletionOutcome}
    (h : completeCachedSuccess db job worker record artifacts fresh clock = .ok (db',outcome)) :
    Completed limits job worker fresh clock db db' := by
  simp only [completeCachedSuccess,bind_ok] at h
  obtain ⟨⟨mid,key⟩,hlive,h⟩ := h
  obtain ⟨j,hj,hheld,⟨hc,rfl,hf⟩ | ⟨hc,rfl,rfl⟩⟩ := assertLiveLease_ok hlive
  · cases h
    exact .of_cancelled hj hheld hc hf
  · simp only [bind_ok,pure_ok] at h
    obtain ⟨_,-,rows,hrows,mid,hfin,last,hfinal,h⟩ := h
    cases h
    obtain ⟨_,-,-,rfl⟩ := finish_ok hfin
    exact .settled j hj hc hheld .succeeded (Or.inl rfl) _ _ _ _ rows hrows _ _ hfinal

theorem completeCompileFailureWithArtifacts_ok {timedOut : Bool} {error : Value}
    {artifacts : List PersistedArtifact} {outcome : CompletionOutcome}
    (h : completeCompileFailureWithArtifacts db job worker timedOut error artifacts fresh clock =
      .ok (db',outcome)) : Completed limits job worker fresh clock db db' := by
  simp only [completeCompileFailureWithArtifacts,bind_ok] at h
  obtain ⟨⟨mid,key⟩,hlive,h⟩ := h
  obtain ⟨j,hj,hheld,⟨hc,rfl,hf⟩ | ⟨hc,rfl,rfl⟩⟩ := assertLiveLease_ok hlive
  · cases h
    exact .of_cancelled hj hheld hc hf
  · simp only [bind_ok,pure_ok] at h
    obtain ⟨rows,hrows,mid,hfin,last,hfinal,h⟩ := h
    cases h
    obtain ⟨_,-,-,rfl⟩ := finish_ok hfin
    cases timedOut with
    | false =>
      exact .settled j hj hc hheld .failed (Or.inr (Or.inl rfl)) _ _ _ _ rows hrows _ _ hfinal
    | true =>
      exact .settled j hj hc hheld .timedOut (Or.inr (Or.inr rfl)) _ _ _ _ rows hrows _ _ hfinal

theorem completeInfrastructureFailure_ok {error : Value} {outcome : InfrastructureOutcome}
    (h : completeInfrastructureFailure limits db job worker error fresh clock = .ok (db',outcome)) :
    Completed limits job worker fresh clock db db' := by
  simp only [completeInfrastructureFailure,bind_ok] at h
  obtain ⟨⟨mid,key⟩,hlive,h⟩ := h
  obtain ⟨j,hj,hheld,⟨hc,rfl,hf⟩ | ⟨hc,rfl,rfl⟩⟩ := assertLiveLease_ok hlive
  · cases h
    exact .of_cancelled hj hheld hc hf
  · simp only [bind_ok,require_ok] at h
    obtain ⟨j',hj',h⟩ := h
    rw [hj] at hj'
    cases hj'
    split at h
    · simp only [bind_ok,pure_ok] at h
      obtain ⟨mid,hfin,last,hfinal,h⟩ := h
      cases h
      obtain ⟨_,-,-,rfl⟩ := finish_ok hfin
      exact .settled j hj hc hheld .failed (Or.inr (Or.inl rfl)) _ _ _ [] _ rfl _ _ hfinal
    · next hbudget =>
      simp only [bind_ok,pure_ok] at h
      obtain ⟨_,-,h⟩ := h
      cases h
      have hrow : mid.jobs.updateWhere (fun k j => k == job && j.workerId == some worker &&
          j.state == .running) (fun j => j.requeue error) =
          mid.jobs.modify job (fun j => j.requeue error) := by
        apply Table.updateWhere_congr
        rintro ⟨k,v⟩ hr
        rw [Table.mem_rows_iff] at hr
        by_cases hk : k = job
        · subst hk
          rw [hj] at hr
          cases hr
          obtain ⟨hs,hw,-⟩ := heldBy_iff.mp hheld
          simp [hs,hw]
        · have hne : (k == job) = false := beq_eq_false_iff_ne.mpr hk
          simp only [hne,Bool.false_and]
      rw [hrow]
      exact .requeued j hj hc hheld (by omega) error

end Completions

def QueueOp.completes : QueueOp → Option (JobId × WorkerId × FreshIds × Clock)
  | .completeSuccess job worker _ _ fresh clock => some (job,worker,fresh,clock)
  | .completeCachedSuccess job worker _ _ fresh clock => some (job,worker,fresh,clock)
  | .completeCompileFailure job worker _ _ _ fresh clock => some (job,worker,fresh,clock)
  | .completeInfrastructureFailure job worker _ fresh clock => some (job,worker,fresh,clock)
  | _ => none

/-- What one committed call can leave behind. -/
inductive Stepped (limits : QueueLimits) (db : Db) : QueueOp → Db → Prop
  | idle (op : QueueOp) : Stepped limits db op db
  | enqueued {request facts clock} (j : Job) (hnew : j.New) (jobs : Table JobId Job)
      (h : db.jobs.insert? request.jobId j = some jobs) :
      Stepped limits db (.enqueue request facts clock) { db with jobs }
  | claimed {worker locked clock} (id : JobId) (j : Job) (hj : db.jobs.get? id = some j)
      (hq : j.state = .queued) (leaseMillis : ℕ)
      (hglobal : db.jobs.count (fun _ j => j.state.leased) < limits.globalRunning)
      (huser : db.jobs.count (fun _ active => active.userId == j.userId && active.state.leased) <
        limits.perUserRunning) :
      Stepped limits db (.claim worker locked clock) (claimRow db id worker leaseMillis clock.checked)
  | renewed {job worker clock} (j : Job) (hj : db.jobs.get? job = some j)
      (hheld : j.heldBy worker clock.checked = true) (leaseMillis : ℕ) :
      Stepped limits db (.renewLease job worker clock)
        { db with jobs := db.jobs.modify job (fun j => j.renew leaseMillis clock.checked) }
  | cancellationRequested {job reason clock} (j : Job) (hj : db.jobs.get? job = some j)
      (ho : j.state.outstanding = true) (hr : validReason reason = true) :
      Stepped limits db (.requestCancellation job reason clock)
        { db with jobs := db.jobs.modify job (fun j => j.requestCancellation reason clock.checked) }
  | recovered {rank fresh clock} (hmax : limits.maxAttempts ≤ i32Max) (todo : List JobId)
      (htodo : todo.Perm (failedUnfinalized (recoverRows limits db clock.checked))) (db' : Db)
      (h : finalizeFailed fresh clock todo (recoverRows limits db clock.checked) = .ok db') :
      Stepped limits db (.recoverExpiredLeases rank fresh clock) db'
  | completed {op} (job : JobId) (worker : WorkerId) (fresh : FreshIds) (clock : Clock)
      (hop : op.completes = some (job,worker,fresh,clock)) (db' : Db)
      (h : Completed limits job worker fresh clock db db') : Stepped limits db op db'
  | evicted {record} (cache : Table CompileKey CacheRow) :
      Stepped limits db (.evictCache record) { db with cache }
  | submitted {request facts rank fresh clock} (mid : Db)
      (ha : admitSubmission db request facts = .ok mid) (db' : Db) (answer : V2BuildSubmission)
      (h : Submitted request facts rank fresh clock mid db' answer) :
      Stepped limits db (.submitV2Build request facts rank fresh clock) db'

theorem enqueue_ok {limits : QueueLimits} {db db' : Db} {request : EnqueueRequest}
    {facts : EnqueueFacts} {clock : Clock} {id : JobId}
    (h : enqueue limits db request facts clock = .ok (db',id)) :
    Stepped limits db (.enqueue request facts clock) db' := by
  simp only [enqueue,bind_ok,ensure_ok] at h
  obtain ⟨_,-,_,-,h⟩ := h
  split at h
  · simp only [bind_ok,ensure_ok,pure_ok] at h
    obtain ⟨_,-,h⟩ := h
    cases h
    exact .idle _
  · simp only [bind_ok,ensure_ok,mapError_ok,pure_ok] at h
    obtain ⟨_,-,_,-,_,-,_,-,mid,hm,h⟩ := h
    cases h
    obtain ⟨jobs,hjobs,rfl⟩ := insertJob_ok hm
    exact .enqueued _ (.queued ..) jobs hjobs

theorem claim_ok {limits : QueueLimits} {db db' : Db} {worker : WorkerId} {locked : List JobId}
    {clock : Clock} {answer : Option (JobId × Job)}
    (h : claim limits db worker locked clock = .ok (db',answer)) :
    Stepped limits db (.claim worker locked clock) db' := by
  unfold claim at h
  split at h
  · cases h
    exact .idle _
  · next hglobal =>
    simp only [bind_ok] at h
    obtain ⟨leaseMillis,-,h⟩ := h
    split at h
    · cases h
      exact .idle _
    · next id j hbest =>
      simp only [bind_ok,pure_ok] at h
      obtain ⟨_,-,h⟩ := h
      cases h
      obtain ⟨hj,hc⟩ := Table.best_mem hbest
      simp only [claimable,Bool.and_eq_true,beq_iff_eq,decide_eq_true_eq] at hc
      exact .claimed id j hj hc.1.1 leaseMillis (by omega) hc.1.2

/-- Every call commits one of these effects. -/
theorem step_stepped (limits : QueueLimits) (db : Db) (op : QueueOp) :
    Stepped limits db op (step limits db op) := by
  cases op with
  | enqueue request facts clock =>
    rw [step]
    exact commit_cases (Stepped limits db _) (.idle _) (fun db' id h => enqueue_ok h)
  | claim worker locked clock =>
    rw [step]
    exact commit_cases (Stepped limits db _) (.idle _) (fun db' answer h => claim_ok h)
  | renewLease job worker clock =>
    rw [step]
    refine commit_cases (Stepped limits db _) (.idle _) ?_
    intro db' _ h
    simp only [renewLease,bind_ok,ensure_ok,pure_ok] at h
    obtain ⟨leaseMillis,-,_,hheld,h⟩ := h
    cases h
    cases hj : db.jobs.get? job with
    | none => simp [hj] at hheld
    | some j => exact .renewed j hj (by simpa [hj] using hheld) leaseMillis
  | requestCancellation job reason clock =>
    rw [step]
    refine commit_cases (Stepped limits db _) (.idle _) ?_
    intro db' _ h
    simp only [requestCancellation,bind_ok,require_ok,ensure_ok,pure_ok] at h
    obtain ⟨_,hr,j,hj,_,ho,h⟩ := h
    cases h
    exact .cancellationRequested j hj ho hr
  | recoverExpiredLeases rank fresh clock =>
    rw [step]
    refine commit_cases (Stepped limits db _) (.idle _) ?_
    intro db' count h
    simp only [recoverExpiredLeases,bind_ok,ensure_ok,pure_ok,decide_eq_true_eq] at h
    obtain ⟨_,hmax,final,hf,h⟩ := h
    cases h
    exact .recovered hmax _ (List.perm_insertionSort _ _) db' hf
  | completeSuccess job worker artifacts manifest fresh clock =>
    rw [step]
    exact commit_cases (Stepped limits db _) (.idle _) (fun db' _ h => .completed _ _ _ _ rfl db' (completeSuccess_ok h))
  | completeCachedSuccess job worker record artifacts fresh clock =>
    rw [step]
    exact commit_cases (Stepped limits db _) (.idle _)
      (fun db' _ h => .completed _ _ _ _ rfl db' (completeCachedSuccess_ok h))
  | completeCompileFailure job worker timedOut error artifacts fresh clock =>
    rw [step]
    exact commit_cases (Stepped limits db _) (.idle _)
      (fun db' _ h => .completed _ _ _ _ rfl db' (completeCompileFailureWithArtifacts_ok h))
  | completeInfrastructureFailure job worker error fresh clock =>
    rw [step]
    exact commit_cases (Stepped limits db _) (.idle _)
      (fun db' _ h => .completed _ _ _ _ rfl db' (completeInfrastructureFailure_ok h))
  | evictCache record =>
    rw [step]
    refine commit_cases (Stepped limits db _) (.idle _) ?_
    intro db' _ h
    cases h
    exact .evicted _
  | submitV2Build request facts rank fresh clock =>
    rw [step]
    refine commit_cases (Stepped limits db _) (.idle _) ?_
    intro db' answer h
    obtain ⟨mid,ha,hs⟩ := submitV2Build_ok h
    exact .submitted mid ha db' answer hs

end LatexCore.Queue
