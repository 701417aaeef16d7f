import LatexCore.Queue.Invariants

/-! # Lease fencing of a worker fleet

Every loop of a worker pool claims and executes one attempt at a time under the
worker identifier of its pool, and the number of an attempt is the attempt count
that its claim returned. As long as no loop claims a job whose earlier attempt
another loop of its pool still executes, only the latest attempt of a job can
complete it.
-/
namespace LatexCore.Queue
open Core Foundation
variable {limits : QueueLimits} {db db' : Db} {op : QueueOp}

abbrev LoopId := ℕ

/-- Where `run_once` stands with its claimed job: before the cache lookup, while the compiler
runs under `compile_with_lease`, or on the way to `infrastructure_failure` after an error. -/
inductive Phase
  | claimed | compiling | aborting
deriving DecidableEq

inductive LoopState
  | idle
  | attempt (job : JobId) (number : ℕ) (phase : Phase)
deriving DecidableEq

/-- The completion calls of `run_once` without the job and the worker. -/
inductive LoopCall
  | success (artifacts : List PersistedArtifact) (manifest : BlobHash) (fresh : FreshIds) (clock : Clock)
  | cachedSuccess (record : CacheRecord) (artifacts : List PersistedArtifact) (fresh : FreshIds)
      (clock : Clock)
  | compileFailure (timedOut : Bool) (error : Value) (artifacts : List PersistedArtifact)
      (fresh : FreshIds) (clock : Clock)
  | infrastructureFailure (error : Value) (fresh : FreshIds) (clock : Clock)

/-- The completion calls that `run_once` can make in a phase. -/
def LoopCall.allowed : LoopCall → Phase → Bool
  | .cachedSuccess .., .claimed => true
  | .success .., .compiling => true
  | .compileFailure .., .compiling => true
  | .infrastructureFailure .., _ => true
  | _, _ => false

def LoopCall.complete (limits : QueueLimits) (db : Db) (job : JobId) (worker : WorkerId) :
    LoopCall → Except QueueError Db
  | .success artifacts manifest fresh clock =>
    (completeSuccess db job worker artifacts manifest fresh clock).map Prod.fst
  | .cachedSuccess record artifacts fresh clock =>
    (completeCachedSuccess db job worker record artifacts fresh clock).map Prod.fst
  | .compileFailure timedOut error artifacts fresh clock =>
    (completeCompileFailureWithArtifacts db job worker timedOut error artifacts fresh clock).map Prod.fst
  | .infrastructureFailure error fresh clock =>
    (completeInfrastructureFailure limits db job worker error fresh clock).map Prod.fst

def LoopCall.queueOp (job : JobId) (worker : WorkerId) : LoopCall → QueueOp
  | .success artifacts manifest fresh clock => .completeSuccess job worker artifacts manifest fresh clock
  | .cachedSuccess record artifacts fresh clock =>
    .completeCachedSuccess job worker record artifacts fresh clock
  | .compileFailure timedOut error artifacts fresh clock =>
    .completeCompileFailure job worker timedOut error artifacts fresh clock
  | .infrastructureFailure error fresh clock =>
    .completeInfrastructureFailure job worker error fresh clock

/-- What follows a completion call: an error of a cache hit ends in `infrastructure_failure`,
every other outcome ends the cycle. -/
def LoopCall.next (job : JobId) (number : ℕ) (result : Except QueueError Db) : LoopCall → LoopState
  | .cachedSuccess .. =>
    match result with
    | .ok _ => .idle
    | .error _ => .attempt job number .aborting
  | _ => .idle

/-- The tables, and what every loop executes. -/
structure Fleet where
  db : Db
  loops : LoopId → LoopState

def Fleet.setLoop (f : Fleet) (l : LoopId) (state : LoopState) : Fleet :=
  { f with loops := fun k => if k = l then state else f.loops k }

inductive FleetOp
  | claim (l : LoopId) (locked : List JobId) (clock : Clock)
  | cacheMiss (l : LoopId)
  | renew (l : LoopId) (clock : Clock)
  | complete (l : LoopId) (call : LoopCall)
  | abandon (l : LoopId)
  | external (op : QueueOp)

/-- The calls that no worker loop makes: admissions, cancellations, recoveries and evictions. -/
def QueueOp.external : QueueOp → Bool
  | .enqueue .. | .requestCancellation .. | .recoverExpiredLeases .. | .evictCache .. |
    .submitV2Build .. => true
  | _ => false

/-- One step of one loop or of the environment; `workerOf` gives the pool of a loop. -/
def fleetStep (limits : QueueLimits) (workerOf : LoopId → WorkerId) (f : Fleet) : FleetOp → Fleet
  | .claim l locked clock =>
    match f.loops l, claim limits f.db (workerOf l) locked clock with
    | .idle, .ok (db,some (job,j)) =>
      { f with db }.setLoop l (.attempt job j.attemptCount .claimed)
    | _, _ => f
  | .cacheMiss l =>
    match f.loops l with
    | .attempt job number .claimed => f.setLoop l (.attempt job number .compiling)
    | _ => f
  | .renew l clock =>
    match f.loops l with
    | .attempt job number .compiling =>
      match renewLease limits f.db job (workerOf l) clock with
      | .ok (db,_) => { f with db }
      | .error _ => f.setLoop l (.attempt job number .aborting)
    | _ => f
  | .complete l call =>
    match f.loops l with
    | .attempt job number phase =>
      if call.allowed phase then
        let result := call.complete limits f.db job (workerOf l)
        { f with db := result.toOption.getD f.db }.setLoop l (call.next job number result)
      else f
    | .idle => f
  | .abandon l => f.setLoop l .idle
  | .external op => if op.external then { f with db := step limits f.db op } else f

def Fleet.executes (f : Fleet) (l : LoopId) (job : JobId) : Prop :=
  ∃ number phase, f.loops l = .attempt job number phase

/-- A completion that takes effect comes from the latest attempt of its job, and one of an
earlier attempt fails with a lost lease or an invalid state and changes nothing. -/
def Fenced (limits : QueueLimits) (workerOf : LoopId → WorkerId) (f : Fleet) : FleetOp → Prop
  | .complete l call => ∀ job number phase j, f.loops l = .attempt job number phase →
    call.allowed phase = true → f.db.jobs.get? job = some j →
      ((∃ db', call.complete limits f.db job (workerOf l) = .ok db') → number = j.attemptCount) ∧
      (number < j.attemptCount →
        (∃ e, call.complete limits f.db job (workerOf l) = .error e ∧
          (e = .leaseLost ∨ ∃ state, e = .invalidState state)) ∧
        (fleetStep limits workerOf f (.complete l call)).db = f.db)
  | _ => True

/-- The loop is about to claim a job of which another loop with its worker identifier still
executes an earlier attempt. -/
def ReclaimsExecuted (limits : QueueLimits) (workerOf : LoopId → WorkerId) (f : Fleet) : FleetOp → Prop
  | .claim l locked _ => ∃ job j other, f.loops l = .idle ∧
    f.db.jobs.best (claimable limits f.db locked) claimOrder = some (job,j) ∧ other ≠ l ∧
      workerOf other = workerOf l ∧ f.executes other job
  | _ => False

/-- An executed attempt is no later than the latest one, and it is the latest one while its
worker holds the job. -/
def AttemptsNumbered (workerOf : LoopId → WorkerId) (f : Fleet) : Prop :=
  ∀ l job number phase, f.loops l = .attempt job number phase →
    ∃ j, f.db.jobs.get? job = some j ∧ number ≤ j.attemptCount ∧
      (j.state = .running → j.workerId = some (workerOf l) → number = j.attemptCount)

theorem JobStep.lease {j j' : Job} (h : JobStep limits j op j') :
    j'.attemptCount = j.attemptCount ∧
      (j'.state = .running → j.state = .running ∧ j'.workerId = j.workerId) := by
  cases h with
  | renewed leaseMillis now hr => exact ⟨rfl,fun _ => ⟨hr,rfl⟩⟩
  | cancellationRequested ho =>
    refine ⟨rfl,?_⟩
    by_cases hq : j.state = .queued <;> simp [Job.requestCancellation,hq]
  | recovered now hl =>
    refine ⟨rfl,?_⟩
    intro hs
    simp only [Job.recover] at hs
    split at hs
    · cases hs
    · split at hs <;> cases hs
  | finished state errorClass error cacheSource now hr ht =>
    refine ⟨rfl,?_⟩
    rintro rfl
    cases ht
  | requeued error hr ha => exact ⟨rfl,fun hs => by cases hs⟩

theorem RowChange.lease {j : Job} {o : Option Job} (h : RowChange limits op (some j) o) :
    ∃ j', o = some j' ∧ j'.attemptCount = j.attemptCount ∧
      (j'.state = .running → j.state = .running ∧ j'.workerId = j.workerId) := by
  cases h with
  | same => exact ⟨j,rfl,rfl,fun hs => ⟨hs,rfl⟩⟩
  | changed hstep => exact ⟨_,rfl,hstep.lease⟩

theorem AttemptsNumbered.rows {workerOf : LoopId → WorkerId} {f : Fleet}
    (h : AttemptsNumbered workerOf f)
    (hrows : ∀ k, RowChange limits op (f.db.jobs.get? k) (db'.jobs.get? k)) :
    AttemptsNumbered workerOf { f with db := db' } := by
  intro l job number phase hl
  obtain ⟨j,hj,hle,hlatest⟩ := h l job number phase hl
  obtain ⟨j',hj',hcount,hlease⟩ := (hj ▸ hrows job).lease
  refine ⟨j',hj',hcount ▸ hle,?_⟩
  intro hs hw
  obtain ⟨hrunning,hworker⟩ := hlease hs
  exact (hlatest hrunning (hworker ▸ hw)).trans hcount.symm

theorem AttemptsNumbered.setLoop {workerOf : LoopId → WorkerId} {f : Fleet}
    (h : AttemptsNumbered workerOf f) (l : LoopId) (state : LoopState)
    (hnew : ∀ job number phase, state = .attempt job number phase →
      ∃ j, f.db.jobs.get? job = some j ∧ number ≤ j.attemptCount ∧
        (j.state = .running → j.workerId = some (workerOf l) → number = j.attemptCount)) :
    AttemptsNumbered workerOf (f.setLoop l state) := by
  intro k job number phase hk
  simp only [Fleet.setLoop] at hk ⊢
  split at hk
  · next heq => exact heq ▸ hnew job number phase hk
  · exact h k job number phase hk

theorem claim_some {worker : WorkerId} {locked : List JobId} {clock : Clock} {job : JobId} {j' : Job}
    (h : claim limits db worker locked clock = .ok (db',some (job,j'))) :
    ∃ j leaseMillis, db.jobs.best (claimable limits db locked) claimOrder = some (job,j) ∧
      db.jobs.get? job = some j ∧ j.state = .queued ∧
      db' = claimRow db job worker leaseMillis clock.checked ∧
      j' = j.claimBy worker leaseMillis clock.checked := by
  unfold claim at h
  split at h
  · cases h
  · simp only [bind_ok] at h
    obtain ⟨leaseMillis,-,h⟩ := h
    split at h
    · cases h
    · next id j hbest =>
      simp only [bind_ok,pure_ok] at h
      obtain ⟨_,-,h⟩ := h
      cases h
      obtain ⟨hj,hc⟩ := Table.best_mem hbest
      simp only [claimable,Bool.and_eq_true,beq_iff_eq] at hc
      exact ⟨j,leaseMillis,hbest,hj,hc.1.1,rfl,rfl⟩

theorem complete_ok {call : LoopCall} {job : JobId} {worker : WorkerId}
    (h : call.complete limits db job worker = .ok db') :
    ∃ fresh clock, Completed limits job worker fresh clock db db' := by
  cases call with
  | success artifacts manifest fresh clock =>
    obtain ⟨⟨last,_⟩,hc,rfl⟩ := map_ok.mp h
    exact ⟨fresh,clock,completeSuccess_ok hc⟩
  | cachedSuccess record artifacts fresh clock =>
    obtain ⟨⟨last,_⟩,hc,rfl⟩ := map_ok.mp h
    exact ⟨fresh,clock,completeCachedSuccess_ok hc⟩
  | compileFailure timedOut error artifacts fresh clock =>
    obtain ⟨⟨last,_⟩,hc,rfl⟩ := map_ok.mp h
    exact ⟨fresh,clock,completeCompileFailureWithArtifacts_ok hc⟩
  | infrastructureFailure error fresh clock =>
    obtain ⟨⟨last,_⟩,hc,rfl⟩ := map_ok.mp h
    exact ⟨fresh,clock,completeInfrastructureFailure_ok hc⟩

theorem complete_step (limits : QueueLimits) (db : Db) (job : JobId) (worker : WorkerId)
    (call : LoopCall) :
    (call.complete limits db job worker).toOption.getD db = step limits db (call.queueOp job worker) := by
  cases call with
  | success artifacts manifest fresh clock =>
    exact commit_map (fun db => completeSuccess db job worker artifacts manifest fresh clock) db
  | cachedSuccess record artifacts fresh clock =>
    exact commit_map (fun db => completeCachedSuccess db job worker record artifacts fresh clock) db
  | compileFailure timedOut error artifacts fresh clock =>
    exact commit_map (fun db =>
      completeCompileFailureWithArtifacts db job worker timedOut error artifacts fresh clock) db
  | infrastructureFailure error fresh clock =>
    exact commit_map (fun db =>
      completeInfrastructureFailure limits db job worker error fresh clock) db

theorem Completed.held {job : JobId} {worker : WorkerId} {fresh : FreshIds} {clock : Clock}
    (h : Completed limits job worker fresh clock db db') :
    ∃ j, db.jobs.get? job = some j ∧ j.heldBy worker clock.checked = true := by
  cases h with
  | cancelled j hj hc hheld hstill => exact ⟨j,hj,hheld⟩
  | settled j hj hc hheld => exact ⟨j,hj,hheld⟩
  | requeued j hj hc hheld ha error => exact ⟨j,hj,hheld⟩

theorem assertLiveLease_fenced {job : JobId} {worker : WorkerId} (clock : Clock) {j : Job}
    (hj : db.jobs.get? job = some j) (hno : ¬(j.state = .running ∧ j.workerId = some worker)) :
    ∃ e, assertLiveLease db job worker clock = .error e ∧
      (e = .leaseLost ∨ ∃ state, e = .invalidState state) := by
  by_cases hs : j.state = .running
  · have hheld : j.heldBy worker clock.checked = false := by
      cases hh : j.heldBy worker clock.checked with
      | false => rfl
      | true => exact absurd ⟨hs,(heldBy_iff.mp hh).2.1⟩ hno
    exact ⟨.leaseLost,by simp [assertLiveLease,hj,require,ensure,hs,hheld,bind,Except.bind],Or.inl rfl⟩
  · exact ⟨.invalidState j.state.text,
      by simp [assertLiveLease,hj,require,ensure,hs,bind,Except.bind],Or.inr ⟨_,rfl⟩⟩

theorem complete_fenced (limits : QueueLimits) (call : LoopCall) {job : JobId} {worker : WorkerId} {j : Job}
    (hj : db.jobs.get? job = some j) (hno : ¬(j.state = .running ∧ j.workerId = some worker)) :
    ∃ e, call.complete limits db job worker = .error e ∧
      (e = .leaseLost ∨ ∃ state, e = .invalidState state) := by
  cases call with
  | success artifacts manifest fresh clock =>
    obtain ⟨e,he,hkind⟩ := assertLiveLease_fenced clock hj hno
    exact ⟨e,by simp [LoopCall.complete,completeSuccess,he,bind,Except.bind,Except.map],hkind⟩
  | cachedSuccess record artifacts fresh clock =>
    obtain ⟨e,he,hkind⟩ := assertLiveLease_fenced clock hj hno
    exact ⟨e,by simp [LoopCall.complete,completeCachedSuccess,he,bind,Except.bind,Except.map],hkind⟩
  | compileFailure timedOut error artifacts fresh clock =>
    obtain ⟨e,he,hkind⟩ := assertLiveLease_fenced clock hj hno
    exact ⟨e,by simp [LoopCall.complete,completeCompileFailureWithArtifacts,he,bind,Except.bind,Except.map],hkind⟩
  | infrastructureFailure error fresh clock =>
    obtain ⟨e,he,hkind⟩ := assertLiveLease_fenced clock hj hno
    exact ⟨e,by simp [LoopCall.complete,completeInfrastructureFailure,he,bind,Except.bind,Except.map],hkind⟩

theorem AttemptsNumbered.fenced {workerOf : LoopId → WorkerId} {f : Fleet}
    (h : AttemptsNumbered workerOf f) (op : FleetOp) : Fenced limits workerOf f op := by
  cases op with
  | complete l call =>
    intro job number phase j hl hallowed hj
    obtain ⟨j₀,hj₀,hle,hlatest⟩ := h l job number phase hl
    rw [hj] at hj₀
    cases hj₀
    constructor
    · rintro ⟨db',hok⟩
      obtain ⟨fresh,clock,hc⟩ := complete_ok hok
      obtain ⟨j₁,hj₁,hheld⟩ := hc.held
      rw [hj] at hj₁
      cases hj₁
      obtain ⟨hs,hw,-⟩ := heldBy_iff.mp hheld
      exact hlatest hs hw
    · intro hlt
      have hno : ¬(j.state = .running ∧ j.workerId = some (workerOf l)) := by
        rintro ⟨hs,hw⟩
        have hlast := hlatest hs hw
        omega
      obtain ⟨e,he,hkind⟩ := complete_fenced limits call hj hno
      refine ⟨⟨e,he,hkind⟩,?_⟩
      simp [fleetStep,hl,hallowed,he,Fleet.setLoop,Except.toOption]
  | claim | cacheMiss | renew | abandon | external => trivial

theorem attemptsNumbered_step {workerOf : LoopId → WorkerId} {f : Fleet} {op : FleetOp}
    (h : AttemptsNumbered workerOf f) (hguard : ¬ReclaimsExecuted limits workerOf f op) :
    AttemptsNumbered workerOf (fleetStep limits workerOf f op) := by
  cases op with
  | claim l locked clock =>
    simp only [fleetStep]
    split
    · next db' job j' hidle hclaim =>
      obtain ⟨j,leaseMillis,hbest,hj,hq,rfl,rfl⟩ := claim_some hclaim
      intro k job' number phase hk
      simp only [Fleet.setLoop] at hk ⊢
      split at hk
      · next heq =>
        cases hk
        exact ⟨j.claimBy (workerOf l) leaseMillis clock.checked,by simp [claimRow,hj],le_refl _,
          fun _ _ => rfl⟩
      · next hne =>
        obtain ⟨j₀,hj₀,hle,hlatest⟩ := h k job' number phase hk
        by_cases hjob : job' = job
        · subst hjob
          rw [hj] at hj₀
          cases hj₀
          refine ⟨j.claimBy (workerOf l) leaseMillis clock.checked,by simp [claimRow,hj],?_,?_⟩
          · exact le_trans hle (Nat.le_succ _)
          · intro _ hworker
            have hsame : workerOf l = workerOf k := Option.some.inj hworker
            exact absurd ⟨job',j,k,hidle,hbest,hne,hsame.symm,number,phase,hk⟩ hguard
        · exact ⟨j₀,by simpa [claimRow,Table.get?_modify_of_ne _ hjob] using hj₀,hle,hlatest⟩
    · exact h
  | cacheMiss l =>
    simp only [fleetStep]
    split
    · next job number hl =>
      refine h.setLoop l _ ?_
      rintro job' number' phase' ⟨⟩
      exact h l job number _ hl
    · exact h
  | renew l clock =>
    simp only [fleetStep]
    split
    · next job number hl =>
      split
      · next db' u hrenew =>
        have hcall : Stepped limits f.db (.renewLease job (workerOf l) clock) db' := by
          have hstep := step_stepped limits f.db (.renewLease job (workerOf l) clock)
          rwa [step,commit_ok hrenew] at hstep
        exact h.rows (hcall.rowChange (fun _ _ _ heq => by cases heq))
      · refine h.setLoop l _ ?_
        rintro job' number' phase' ⟨⟩
        exact h l job number _ hl
    · exact h
  | complete l call =>
    simp only [fleetStep]
    split
    · next job number phase hl =>
      split
      · have hkept : AttemptsNumbered workerOf
            { f with db := (call.complete limits f.db job (workerOf l)).toOption.getD f.db } := by
          rw [complete_step]
          refine h.rows ((step_stepped limits f.db _).rowChange ?_)
          intro worker locked clock heq
          cases call <;> cases heq
        refine hkept.setLoop l _ ?_
        intro job' number' phase' hnext
        have hsame : job' = job ∧ number' = number := by
          cases call with
          | cachedSuccess record artifacts fresh clock =>
            simp only [LoopCall.next] at hnext
            split at hnext <;> cases hnext
            exact ⟨rfl,rfl⟩
          | success | compileFailure | infrastructureFailure => cases hnext
        obtain ⟨rfl,rfl⟩ := hsame
        exact hkept l job' number' phase hl
      · exact h
    · exact h
  | abandon l => exact h.setLoop l .idle (fun _ _ _ heq => by cases heq)
  | external op =>
    simp only [fleetStep]
    split
    · next hext =>
      refine h.rows ((step_stepped limits f.db op).rowChange ?_)
      rintro worker locked clock rfl
      cases hext
    · exact h

/-- In a run of idle loops in which no loop claims a job whose earlier attempt another loop with
its worker identifier still executes, every completion is fenced. -/
theorem fenced_of_no_reclaim (limits : QueueLimits) (workerOf : LoopId → WorkerId) (db : Db)
    {ops : List FleetOp}
    (h : Along (fleetStep limits workerOf) (fun f op => ¬ReclaimsExecuted limits workerOf f op)
      ⟨db,fun _ => .idle⟩ ops) :
    Along (fleetStep limits workerOf) (Fenced limits workerOf) ⟨db,fun _ => .idle⟩ ops :=
  h.of_invariant (AttemptsNumbered workerOf) (fun _ _ hn hg => attemptsNumbered_step hn hg)
    (fun _ op hn _ => hn.fenced op) (fun _ _ _ _ hl => by cases hl)

/-- Two pools with different identifiers fence each other through an expired lease. -/
theorem fenced_two_pools :
    Along (fleetStep sampleLimits id) (Fenced sampleLimits id) ⟨.empty,fun _ => .idle⟩
      [.external (sampleSubmit zeroDigest 1 0),.claim 5 [] (sampleClock 1),.cacheMiss 5,
        .external (.recoverExpiredLeases id (fun _ => ⟨50,51⟩) (sampleClock 2000)),
        .claim 6 [] (sampleClock 2001),
        .complete 5 (.success (sampleArtifacts 10) zeroDigest ⟨60,61⟩ (sampleClock 2002))] := by
  refine fenced_of_no_reclaim sampleLimits id .empty ⟨id,?_,id,id,?_,id,trivial⟩
  · rintro ⟨job,j,other,-,-,hne,hworker,-⟩
    exact hne hworker
  · rintro ⟨job,j,other,-,-,hne,hworker,-⟩
    exact hne hworker

/-- Two loops of one pool, the first of which lost its lease to a recovery and the second of which
claimed the job again. -/
def staleFleet : Fleet :=
  run (fleetStep sampleLimits (fun _ => 5)) ⟨.empty,fun _ => .idle⟩
    [.external (sampleSubmit zeroDigest 1 0),.claim 0 [] (sampleClock 1),.cacheMiss 0,
      .external (.recoverExpiredLeases id (fun _ => ⟨50,51⟩) (sampleClock 2000)),
      .claim 1 [] (sampleClock 2001)]

def staleSuccess : LoopCall := .success (sampleArtifacts 10) zeroDigest ⟨60,61⟩ (sampleClock 2002)

/-- The completion of the recovered first attempt takes effect on the second attempt. -/
theorem stale_attempt_completes :
    ¬∀ (limits : QueueLimits) (workerOf : LoopId → WorkerId) (ops : List FleetOp),
      Along (fleetStep limits workerOf) (Fenced limits workerOf) ⟨.empty,fun _ => .idle⟩ ops := by
  intro h
  have hrun := h sampleLimits (fun _ => 5)
    ([.external (sampleSubmit zeroDigest 1 0),.claim 0 [] (sampleClock 1),.cacheMiss 0,
      .external (.recoverExpiredLeases id (fun _ => ⟨50,51⟩) (sampleClock 2000)),
      .claim 1 [] (sampleClock 2001)] ++ [.complete 0 staleSuccess])
  have hfenced : Fenced sampleLimits (fun _ => 5) staleFleet (.complete 0 staleSuccess) :=
    (along_concat.mp hrun).2
  have hcount : (staleFleet.db.jobs.get? 1).map Job.attemptCount = some 2 := by decide
  obtain ⟨j,hj,hsecond⟩ := Option.map_eq_some_iff.mp hcount
  have hok : (staleSuccess.complete sampleLimits staleFleet.db 1 5).toOption.isSome = true := by decide
  have heffect : ∃ db', staleSuccess.complete sampleLimits staleFleet.db 1 5 = .ok db' := by
    cases hc : staleSuccess.complete sampleLimits staleFleet.db 1 5 with
    | error e =>
      rw [hc] at hok
      cases hok
    | ok db' => exact ⟨db',rfl⟩
  have hfirst := (hfenced 1 1 .compiling j (by decide) rfl hj).1 heffect
  omega

end LatexCore.Queue
