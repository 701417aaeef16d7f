import LatexCore.Foundation.Runs
import LatexCore.Queue.Admission
import LatexCore.Queue.Invariants

/-! # Idempotent submission

A user and a key name one job for good, and the lock of the user keeps the count
of an admission valid until its row is inserted. The comparison of a repeated
call covers the compile inputs and not the workspace, so a key that the user
repeats for the same inputs in another workspace gets the job of the first one.
-/
namespace LatexCore.Queue
open Core Foundation
variable {limits : QueueLimits} {db db' : Db} {op : QueueOp}

/-! ## Rows of the queue -/

/-- What no transition changes of a row; a terminal row is never outstanding again. -/
structure JobKept (j j' : Job) : Prop where
  userId : j'.userId = j.userId
  idempotencyKey : j'.idempotencyKey = j.idempotencyKey
  workspaceId : j'.workspaceId = j.workspaceId
  inputs : j'.inputs = j.inputs
  outstanding : j'.state.outstanding = true → j.state.outstanding = true

theorem JobKept.refl (j : Job) : JobKept j j := ⟨rfl,rfl,rfl,rfl,id⟩

theorem JobStep.kept {j j' : Job} (h : JobStep limits j op j') : JobKept j j' := by
  have hopen : j.state.outstanding = true := by
    have hnot := h.not_terminal
    simpa [JobState.terminal] using hnot
  obtain ⟨hworkspace,hinputs⟩ := h.origin
  have hkey : j'.idempotencyKey = j.idempotencyKey := by cases h <;> rfl
  exact ⟨h.leased.1,hkey,hworkspace,hinputs,fun _ => hopen⟩

def JobsKept (db db' : Db) : Prop :=
  ∀ k j, db.jobs.get? k = some j → ∃ j', db'.jobs.get? k = some j' ∧ JobKept j j'

theorem Stepped.jobsKept (h : Stepped limits db op db') : JobsKept db db' := by
  intro k j hj
  rcases h.rows with hrows | ⟨id,old,worker,leaseMillis,now,hold,hqueued,-,-,rfl⟩
  · have hrow := hrows k
    rw [hj] at hrow
    generalize hnew : db'.jobs.get? k = o at hrow
    cases hrow with
    | same => exact ⟨j,rfl,.refl j⟩
    | changed h => exact ⟨_,rfl,h.kept⟩
  · by_cases hk : k = id
    · subst hk
      rw [hold] at hj
      cases hj
      refine ⟨j.claimBy worker leaseMillis now,by simp [claimRow,hold],rfl,rfl,rfl,rfl,?_⟩
      intro _
      simp [hqueued,JobState.outstanding]
    · exact ⟨j,by simp [claimRow,Table.get?_modify_of_ne _ hk,hj],.refl j⟩

def KeysUnique (db : Db) : Prop :=
  ∀ k k' j j', db.jobs.get? k = some j → db.jobs.get? k' = some j' → j.userId = j'.userId →
    j.idempotencyKey = j'.idempotencyKey → k = k'

theorem KeysUnique.inserted (h : KeysUnique db) {id : JobId} {job : Job}
    (hget : ∀ k, db'.jobs.get? k = if k = id then some job else db.jobs.get? k)
    (hfresh : ∀ k j, db.jobs.get? k = some j → j.userId = job.userId →
      j.idempotencyKey ≠ job.idempotencyKey) : KeysUnique db' := by
  intro k k' j j' hj hj' huser hkey
  rw [hget] at hj hj'
  by_cases hk : k = id
  · rw [if_pos hk] at hj
    cases hj
    by_cases hk' : k' = id
    · exact hk.trans hk'.symm
    · rw [if_neg hk'] at hj'
      exact absurd hkey.symm (hfresh k' j' hj' huser.symm)
  · rw [if_neg hk] at hj
    by_cases hk' : k' = id
    · rw [if_pos hk'] at hj'
      cases hj'
      exact absurd hkey (hfresh k j hj huser)
    · rw [if_neg hk'] at hj'
      exact h k k' j j' hj hj' huser hkey

theorem KeysUnique.updated (h : KeysUnique db)
    (hold : ∀ k j', db'.jobs.get? k = some j' → ∃ j, db.jobs.get? k = some j ∧
      j'.userId = j.userId ∧ j'.idempotencyKey = j.idempotencyKey) : KeysUnique db' := by
  intro k k' j j' hj hj' huser hkey
  obtain ⟨i,hi,hiuser,hikey⟩ := hold k j hj
  obtain ⟨i',hi',hiuser',hikey'⟩ := hold k' j' hj'
  exact h k k' i i' hi hi' (hiuser ▸ hiuser' ▸ huser) (hikey ▸ hikey' ▸ hkey)

theorem KeysUnique.modified (h : KeysUnique db) (id : JobId) (f : Job → Job)
    (hjobs : db'.jobs = db.jobs.modify id f) (huser : ∀ j, (f j).userId = j.userId)
    (hkey : ∀ j, (f j).idempotencyKey = j.idempotencyKey) : KeysUnique db' := by
  apply h.updated
  intro k j' hj'
  rw [hjobs,Table.get?_modify] at hj'
  split at hj'
  · obtain ⟨j,hj,rfl⟩ := Option.map_eq_some_iff.mp hj'
    exact ⟨j,hj,huser j,hkey j⟩
  · exact ⟨j',hj',rfl,rfl⟩

theorem KeysUnique.congr (h : KeysUnique db) (hjobs : db'.jobs = db.jobs) : KeysUnique db' := by
  unfold KeysUnique
  rw [hjobs]
  exact h

theorem KeysUnique.enqueued (h : KeysUnique db) {w : WorkspaceId} {paper : Uuid}
    {source : PendingBuild} {fresh : FreshIds} {now : Timestamp}
    (he : Enqueued w paper source fresh now db db') : KeysUnique db' :=
  h.inserted he.jobs he.keyFresh

theorem KeysUnique.finalized (h : KeysUnique db) {job : JobId} {ok : Bool} {fresh : FreshIds}
    {clock : Clock} (hf : finalizeV2Build db job ok fresh clock = .ok db') : KeysUnique db' := by
  rcases finalizeV2Build_ok hf with ⟨-,rfl⟩ | ⟨id,build,s,-,-,ha⟩
  · exact h
  · have hsettled : KeysUnique (settleBuild db id build s ok clock.finished) :=
      h.congr (by simp)
    rcases activatePending_ok ha with ⟨-,rfl⟩ | ⟨source,mid,-,he,rfl⟩
    · exact hsettled.congr (by simp [setActive])
    · exact (hsettled.enqueued he).congr (by simp [setActive])

theorem KeysUnique.finalizedFailed {fresh : JobId → FreshIds} {clock : Clock} {todo : List JobId}
    (h : KeysUnique db) (hf : finalizeFailed fresh clock todo db = .ok db') : KeysUnique db' := by
  induction todo generalizing db with
  | nil =>
    cases hf
    exact h
  | cons job rest ih =>
    simp only [finalizeFailed,bind_ok] at hf
    obtain ⟨mid,hmid,hrest⟩ := hf
    exact ih (h.finalized hmid) hrest

theorem KeysUnique.recovered (h : KeysUnique db) (now : Timestamp) :
    KeysUnique (recoverRows limits db now) := by
  apply h.updated
  intro k j' hj'
  simp only [recoverRows,Table.get?_updateWhere] at hj'
  obtain ⟨j,hj,rfl⟩ := Option.map_eq_some_iff.mp hj'
  refine ⟨j,hj,?_⟩
  split
  · exact ⟨rfl,rfl⟩
  · exact ⟨rfl,rfl⟩

theorem KeysUnique.completed (h : KeysUnique db) {job : JobId} {worker : WorkerId}
    {fresh : FreshIds} {clock : Clock} (hc : Completed limits job worker fresh clock db db') :
    KeysUnique db' := by
  cases hc with
  | cancelled j hj hc hheld hstill =>
    exact h.modified job (fun j => j.finish .cancelled (some "cancelled") none none clock.finished) rfl
      (fun _ => rfl) (fun _ => rfl)
  | settled j hj hc hheld state hs errorClass error cacheSource artifacts rows hrows cache _ hf =>
    have hfinished : KeysUnique
        { db with
          jobs := db.jobs.modify job (fun j => j.finish state errorClass error cacheSource clock.finished)
          artifacts := rows, cache } :=
      h.modified job (fun j => j.finish state errorClass error cacheSource clock.finished) rfl
        (fun _ => rfl) (fun _ => rfl)
    exact hfinished.finalized hf
  | requeued j hj hc hheld ha error =>
    exact h.modified job (fun j => j.requeue error) rfl (fun _ => rfl) (fun _ => rfl)

/-- Every call but an admission keeps the keys unique; its own insertions check the index. -/
theorem Stepped.keysUnique (hs : Stepped limits db op db') (hop : op.enqueues = false)
    (h : KeysUnique db) : KeysUnique db' := by
  cases hs with
  | idle => exact h
  | enqueued j hnew jobs hi => cases hop
  | @claimed worker locked clock id j hj hq leaseMillis hglobal huser =>
    exact h.modified id (fun j => j.claimBy worker leaseMillis clock.checked) rfl (fun _ => rfl)
      (fun _ => rfl)
  | @renewed job worker clock j hj hheld leaseMillis =>
    exact h.modified job (fun j => j.renew leaseMillis clock.checked) rfl (fun _ => rfl) (fun _ => rfl)
  | @cancellationRequested job reason clock j hj ho hr =>
    exact h.modified job (fun j => j.requestCancellation reason clock.checked) rfl (fun _ => rfl)
      (fun _ => rfl)
  | recovered hmax todo htodo _ hf => exact (h.recovered _).finalizedFailed hf
  | completed job worker fresh clock hop _ hc => exact h.completed hc
  | evicted cache => exact h.congr rfl
  | submitted mid ha _ answer hsub =>
    obtain ⟨schedulers,rfl,-,-⟩ := admitSubmission_ok ha
    have hlocked : KeysUnique { db with schedulers } := h.congr rfl
    cases hsub with
    | reused id b hr => exact hlocked.congr rfl
    | joined id b j hr hactive hb => exact hlocked.congr rfl
    | parked id b j hr hactive hb => exact hlocked.congr rfl
    | started _ hr hactive hstart =>
      obtain ⟨mid,he,rfl⟩ := startBuild_ok hstart
      exact (hlocked.enqueued he).congr rfl

/-! ## The invariant of the admissions -/

theorem storedJob_some {request : EnqueueRequest} {id : JobId} {j : Job}
    (h : storedJob db request = some (id,j)) : db.jobs.get? id = some j ∧
      j.userId = request.userId ∧ j.idempotencyKey = request.idempotencyKey := by
  have hfound := List.find?_some h
  simp only [Bool.and_eq_true,beq_iff_eq] at hfound
  exact ⟨Table.mem_rows_iff.mp (List.mem_of_find?_eq_some h),hfound⟩

theorem at?_some {s : Intake} {call : CallId} {progress : Progress} {request : EnqueueRequest}
    (h : s.at? call progress = some request) : s.calls.get? call = some ⟨request,progress⟩ := by
  obtain ⟨⟨r,p⟩,hcall,rfl⟩ := Option.map_eq_some_iff.mp h
  obtain ⟨hget,hp⟩ := Option.filter_eq_some_iff.mp hcall
  rw [hget,← beq_iff_eq.mp hp]

def insertedJobs (replies : List Reply) : List JobId := replies.filterMap (fun r => r.outcome.inserted?)

def outstandingAmong (made : List JobId) (db : Db) (user : UserId) : ℕ :=
  db.jobs.count (fun id j => made.contains id && (j.userId == user && j.state.outstanding))

def Returned (db : Db) (r : Reply) (id : JobId) : Prop :=
  ∃ j, db.jobs.get? id = some j ∧ j.userId = r.request.userId ∧
    j.idempotencyKey = r.request.idempotencyKey ∧ j.workspaceId = r.request.workspaceId ∧
    j.inputs = r.request.inputs

structure Intake.Sound (limits : QueueLimits) (s : Intake) (replies : List Reply) : Prop where
  keys : KeysUnique s.db
  exclusive : ∀ c c' a a' user, s.calls.get? c = some a → s.calls.get? c' = some a' →
    a.holds user = true → a'.holds user = true → c = c'
  made : ∀ id ∈ insertedJobs replies, ∃ j, s.db.jobs.get? id = some j
  bounded : ∀ user, outstandingAmong (insertedJobs replies) s.db user ≤ limits.perUserOutstanding
  counted : ∀ c a, s.calls.get? c = some a → a.progress = .counted →
    outstandingAmong (insertedJobs replies) s.db a.request.userId < limits.perUserOutstanding
  returned : ∀ r ∈ replies, ∀ id, r.outcome.job? = some id → Returned s.db r id

theorem Intake.sound_empty (limits : QueueLimits) : Intake.empty.Sound limits [] where
  keys := by
    intro k k' j j' hj
    cases hj
  exclusive := by
    intro c c' a a' user ha
    cases ha
  made := by
    intro id hid
    cases hid
  bounded := fun _ => Nat.zero_le _
  counted := by
    intro c a ha
    cases ha
  returned := by
    intro r hr
    cases hr

/-- The calls hold no new lock and none of them has newly counted. -/
structure Quiet (calls calls' : Table CallId EnqueueCall) : Prop where
  holds : ∀ c a' user, calls'.get? c = some a' → a'.holds user = true →
    ∃ a, calls.get? c = some a ∧ a.holds user = true
  counted : ∀ c a', calls'.get? c = some a' → a'.progress = .counted →
    ∃ a, calls.get? c = some a ∧ a.progress = .counted ∧ a.request = a'.request

theorem Quiet.refl (calls : Table CallId EnqueueCall) : Quiet calls calls :=
  ⟨fun _ a _ ha hholds => ⟨a,ha,hholds⟩,fun _ a ha hcounted => ⟨a,ha,hcounted,rfl⟩⟩

theorem quiet_finish (s : Intake) (call : CallId) : Quiet s.calls (s.finish call).calls := by
  have hold : ∀ c a, (s.finish call).calls.get? c = some a → s.calls.get? c = some a := by
    intro c a ha
    rw [Intake.finish,Table.get?_deleteWhere] at ha
    exact (Option.filter_eq_some_iff.mp ha).1
  exact ⟨fun c a _ ha hholds => ⟨a,hold c a ha,hholds⟩,fun c a ha hcounted => ⟨a,hold c a ha,hcounted,rfl⟩⟩

theorem quiet_advance {s : Intake} {call : CallId} {progress next : Progress}
    {request : EnqueueRequest} (h : s.at? call progress = some request)
    (hheld : progress ≠ .permitted) (hnext : next ≠ .counted) :
    Quiet s.calls (s.advance call next).calls := by
  have hcall := at?_some h
  refine ⟨?_,?_⟩
  · intro c a user ha hholds
    rw [Intake.advance,Table.get?_modify] at ha
    split at ha
    · next hc =>
      subst hc
      rw [hcall] at ha
      cases ha
      simp only [EnqueueCall.holds,Bool.and_eq_true] at hholds
      refine ⟨_,hcall,?_⟩
      simpa [EnqueueCall.holds,hheld] using hholds.2
    · exact ⟨a,ha,hholds⟩
  · intro c a ha hcounted
    rw [Intake.advance,Table.get?_modify] at ha
    split at ha
    · next hc =>
      subst hc
      rw [hcall] at ha
      cases ha
      exact absurd hcounted hnext
    · exact ⟨a,ha,hcounted,rfl⟩

theorem Intake.Sound.quiet {s s' : Intake} {replies more : List Reply} (h : s.Sound limits replies)
    (hdb : s'.db = s.db) (hq : Quiet s.calls s'.calls) (hmade : insertedJobs more = [])
    (hreturned : ∀ r ∈ more, ∀ id, r.outcome.job? = some id → Returned s.db r id) :
    s'.Sound limits (replies ++ more) := by
  have hsame : insertedJobs (replies ++ more) = insertedJobs replies := by
    rw [insertedJobs,List.filterMap_append]
    exact (congrArg _ hmade).trans (List.append_nil _)
  constructor
  · exact h.keys.congr (congrArg Db.jobs hdb)
  · intro c c' a a' user ha ha' hholds hholds'
    obtain ⟨b,hb,hbholds⟩ := hq.holds c a user ha hholds
    obtain ⟨b',hb',hbholds'⟩ := hq.holds c' a' user ha' hholds'
    exact h.exclusive c c' b b' user hb hb' hbholds hbholds'
  · rw [hsame,hdb]
    exact h.made
  · rw [hsame,hdb]
    exact h.bounded
  · intro c a ha hcounted
    obtain ⟨b,hb,hbcounted,hrequest⟩ := hq.counted c a ha hcounted
    rw [hsame,hdb,← hrequest]
    exact h.counted c b hb hbcounted
  · intro r hr id hid
    rw [Returned,hdb]
    rcases List.mem_append.mp hr with hr | hr
    · exact h.returned r hr id hid
    · exact hreturned r hr id hid

theorem Intake.Sound.lock {s : Intake} {replies : List Reply} (h : s.Sound limits replies)
    {call : CallId} {request : EnqueueRequest} (hcall : s.at? call .permitted = some request)
    (hfree : s.lockTaken request.userId = false) : (s.advance call .locked).Sound limits replies := by
  have hget := at?_some hcall
  have hnobody : ∀ c a, s.calls.get? c = some a → a.holds request.userId = false := by
    intro c a ha
    simp only [Intake.lockTaken,List.any_eq_false] at hfree
    simpa using hfree (c,a) (Table.mem_rows_iff.mpr ha)
  have hcalls : ∀ c a user, (s.advance call .locked).calls.get? c = some a → a.holds user = true →
      c = call ∧ user = request.userId ∨ s.calls.get? c = some a := by
    intro c a user ha hholds
    rw [Intake.advance,Table.get?_modify] at ha
    split at ha
    · next hc =>
      subst hc
      rw [hget] at ha
      cases ha
      simp only [EnqueueCall.holds,Bool.and_eq_true,beq_iff_eq] at hholds
      exact Or.inl ⟨rfl,hholds.2.symm⟩
    · exact Or.inr ha
  constructor
  · exact h.keys
  · intro c c' a a' user ha ha' hholds hholds'
    rcases hcalls c a user ha hholds with ⟨rfl,rfl⟩ | hold
    · rcases hcalls c' a' _ ha' hholds' with ⟨rfl,-⟩ | hold'
      · rfl
      · rw [hnobody c' a' hold'] at hholds'
        cases hholds'
    · rcases hcalls c' a' user ha' hholds' with ⟨rfl,rfl⟩ | hold'
      · rw [hnobody c a hold] at hholds
        cases hholds
      · exact h.exclusive c c' a a' user hold hold' hholds hholds'
  · exact h.made
  · exact h.bounded
  · intro c a ha hcounted
    rw [Intake.advance,Table.get?_modify] at ha
    split at ha
    · next hc =>
      subst hc
      rw [hget] at ha
      cases ha
      cases hcounted
    · exact h.counted c a ha hcounted
  · exact h.returned

theorem outstandingAmong_le (made : List JobId) (db : Db) (user : UserId) :
    outstandingAmong made db user ≤ outstandingJobs db user := by
  apply Table.count_le_of_imp
  intro k j hj hcounts
  simp only [Bool.and_eq_true] at hcounts
  exact ⟨j,hj,by simp [hcounts.2.1,hcounts.2.2]⟩

theorem Intake.Sound.count {s : Intake} {replies : List Reply} (h : s.Sound limits replies)
    {call : CallId} {request : EnqueueRequest} (hcall : s.at? call .owned = some request)
    (hroom : outstandingJobs s.db request.userId < limits.perUserOutstanding) :
    (s.advance call .counted).Sound limits replies := by
  have hget := at?_some hcall
  have hback : ∀ c a, (s.advance call .counted).calls.get? c = some a →
      c = call ∧ a = ⟨request,.counted⟩ ∨ s.calls.get? c = some a := by
    intro c a ha
    rw [Intake.advance,Table.get?_modify] at ha
    split at ha
    · next hc =>
      subst hc
      rw [hget] at ha
      cases ha
      exact Or.inl ⟨rfl,rfl⟩
    · exact Or.inr ha
  have hholds : ∀ c a user, (s.advance call .counted).calls.get? c = some a → a.holds user = true →
      ∃ b, s.calls.get? c = some b ∧ b.holds user = true := by
    intro c a user ha hheld
    rcases hback c a ha with ⟨rfl,rfl⟩ | hold
    · exact ⟨_,hget,by simpa [EnqueueCall.holds] using hheld⟩
    · exact ⟨a,hold,hheld⟩
  constructor
  · exact h.keys
  · intro c c' a a' user ha ha' hheld hheld'
    obtain ⟨b,hb,hbholds⟩ := hholds c a user ha hheld
    obtain ⟨b',hb',hbholds'⟩ := hholds c' a' user ha' hheld'
    exact h.exclusive c c' b b' user hb hb' hbholds hbholds'
  · exact h.made
  · exact h.bounded
  · intro c a ha hcounted
    rcases hback c a ha with ⟨rfl,rfl⟩ | hold
    · exact Nat.lt_of_le_of_lt (outstandingAmong_le _ _ _) hroom
    · exact h.counted c a hold hcounted
  · exact h.returned

theorem Returned.kept {r : Reply} {id : JobId} (hkept : JobsKept db db') (h : Returned db r id) :
    Returned db' r id := by
  obtain ⟨j,hj,huser,hkey,hworkspace,hinputs⟩ := h
  obtain ⟨j',hj',hsame⟩ := hkept id j hj
  exact ⟨j',hj',hsame.userId.trans huser,hsame.idempotencyKey.trans hkey,
    hsame.workspaceId.trans hworkspace,hsame.inputs.trans hinputs⟩

theorem outstandingAmong_kept {made : List JobId} (hmade : ∀ id ∈ made, ∃ j, db.jobs.get? id = some j)
    (hkept : JobsKept db db') (user : UserId) :
    outstandingAmong made db' user ≤ outstandingAmong made db user := by
  apply Table.count_le_of_imp
  intro k j' hj' hcounts
  simp only [Bool.and_eq_true,beq_iff_eq,List.contains_iff_mem] at hcounts
  obtain ⟨hmem,huser,hopen⟩ := hcounts
  obtain ⟨j,hj⟩ := hmade k hmem
  obtain ⟨j'',hj'',hsame⟩ := hkept k j hj
  rw [hj'] at hj''
  cases hj''
  refine ⟨j,hj,?_⟩
  simp only [Bool.and_eq_true,beq_iff_eq,List.contains_iff_mem]
  exact ⟨hmem,hsame.userId.symm.trans huser,hsame.outstanding hopen⟩

theorem Intake.Sound.queued {s : Intake} {replies : List Reply} (h : s.Sound limits replies)
    {op : QueueOp} (hop : op.enqueues = false) :
    { s with db := Queue.step limits s.db op }.Sound limits replies := by
  have hstep := step_stepped limits s.db op
  have hkept := hstep.jobsKept
  constructor
  · exact hstep.keysUnique hop h.keys
  · exact h.exclusive
  · intro id hid
    obtain ⟨j,hj⟩ := h.made id hid
    obtain ⟨j',hj',-⟩ := hkept id j hj
    exact ⟨j',hj'⟩
  · intro user
    exact Nat.le_trans (outstandingAmong_kept h.made hkept user) (h.bounded user)
  · intro c a ha hcounted
    exact Nat.lt_of_le_of_lt (outstandingAmong_kept h.made hkept _) (h.counted c a ha hcounted)
  · intro r hr id hid
    exact (h.returned r hr id hid).kept hkept

theorem Intake.Sound.insert {s : Intake} {replies : List Reply} (h : s.Sound limits replies)
    {call : CallId} {request : EnqueueRequest} (hcall : s.at? call .counted = some request)
    {now : Timestamp} (hinsert : insertJob s.db request.jobId (request.job now) = .ok db') :
    ({ s with db := db' }.finish call).Sound limits
      (replies ++ [Reply.mk request (.inserted request.jobId)]) := by
  have hget := at?_some hcall
  obtain ⟨jobs,hjobs,rfl⟩ := insertJob_ok hinsert
  have hrows := Table.get?_insert? hjobs
  have hnone := (Table.insert?_eq_some hjobs).1
  have hkept : JobsKept s.db { s.db with jobs } := by
    intro k j hj
    have hk : k ≠ request.jobId := by
      rintro rfl
      rw [hnone] at hj
      cases hj
    exact ⟨j,(hrows k).trans ((if_neg hk).trans hj),.refl j⟩
  have hnew : jobs.get? request.jobId = some (request.job now) := (hrows _).trans (if_pos rfl)
  have hmade : insertedJobs (replies ++ [Reply.mk request (.inserted request.jobId)]) =
      insertedJobs replies ++ [request.jobId] := by
    simp [insertedJobs,Outcome.inserted?]
  have hquiet : Quiet s.calls (s.finish call).calls := quiet_finish s call
  -- a row other than the new one counts for what it counted before
  have hold : ∀ user k j, k ≠ request.jobId → jobs.get? k = some j →
      ((insertedJobs replies ++ [request.jobId]).contains k && (j.userId == user &&
        j.state.outstanding)) = true →
      ∃ w, s.db.jobs.get? k = some w ∧ ((insertedJobs replies).contains k && (w.userId == user &&
        w.state.outstanding)) = true := by
    intro user k j hk hj hcounts
    rw [hrows k,if_neg hk] at hj
    exact ⟨j,hj,by simpa [hk] using hcounts⟩
  have hothers : ∀ user, user ≠ request.userId →
      outstandingAmong (insertedJobs replies ++ [request.jobId]) { s.db with jobs } user ≤
        outstandingAmong (insertedJobs replies) s.db user := by
    intro user huser
    apply Table.count_le_of_imp
    intro k j hj hcounts
    refine hold user k j ?_ hj hcounts
    rintro rfl
    dsimp only at hj
    rw [hnew,Option.some.injEq] at hj
    subst hj
    simp only [Bool.and_eq_true,beq_iff_eq] at hcounts
    exact huser hcounts.2.1.symm
  constructor
  · exact h.keys.inserted hrows (fun k j hj huser => insertJob_fresh hinsert hj huser)
  · intro c c' a a' user ha ha' hheld hheld'
    obtain ⟨b,hb,hbholds⟩ := hquiet.holds c a user ha hheld
    obtain ⟨b',hb',hbholds'⟩ := hquiet.holds c' a' user ha' hheld'
    exact h.exclusive c c' b b' user hb hb' hbholds hbholds'
  · rw [hmade]
    intro id hid
    rcases List.mem_append.mp hid with hid | hid
    · obtain ⟨j,hj⟩ := h.made id hid
      obtain ⟨j',hj',-⟩ := hkept id j hj
      exact ⟨j',hj'⟩
    · rw [List.mem_singleton.mp hid]
      exact ⟨_,hnew⟩
  · intro user
    rw [hmade]
    by_cases huser : user = request.userId
    · subst huser
      have hroom := h.counted call _ hget rfl
      have hgrows : outstandingAmong (insertedJobs replies ++ [request.jobId]) { s.db with jobs }
          request.userId ≤ outstandingAmong (insertedJobs replies) s.db request.userId + 1 :=
        Table.count_le_succ_of_imp request.jobId (hold request.userId)
      exact Nat.le_trans hgrows hroom
    · exact Nat.le_trans (hothers user huser) (h.bounded user)
  · intro c a ha hcounted
    rw [hmade]
    have hin : s.calls.get? c = some a ∧ c ≠ call := by
      rw [Intake.finish,Table.get?_deleteWhere] at ha
      obtain ⟨hc,hne⟩ := Option.filter_eq_some_iff.mp ha
      exact ⟨hc,by simpa using hne⟩
    have huser : a.request.userId ≠ request.userId := by
      intro hsame
      refine hin.2 (h.exclusive c call a _ request.userId hin.1 hget ?_ ?_)
      · simp [EnqueueCall.holds,hcounted,hsame]
      · simp [EnqueueCall.holds]
    exact Nat.lt_of_le_of_lt (hothers _ huser) (h.counted c a hin.1 hcounted)
  · intro r hr id hid
    rcases List.mem_append.mp hr with hr | hr
    · exact (h.returned r hr id hid).kept hkept
    · obtain rfl := List.mem_singleton.mp hr
      cases hid
      exact ⟨_,hnew,rfl,rfl,rfl,rfl⟩

/-! ## Runs -/

def ForeignRepeat (s : Intake) : IntakeOp → Prop
  | .lookup call => ∃ request id j, s.at? call .locked = some request ∧
      storedJob s.db request = some (id,j) ∧ j.inputs = request.inputs ∧
      j.workspaceId ≠ request.workspaceId
  | _ => False

def RefusesDifferent (limits : QueueLimits) (s : Intake) : IntakeOp → Prop
  | .lookup call => ∀ request id j, s.at? call .locked = some request →
      storedJob s.db request = some (id,j) →
      (j.workspaceId ≠ request.workspaceId ∨ j.inputs ≠ request.inputs) →
      s.replies limits (.lookup call) = [⟨request,.refused .idempotencyConflict⟩]
  | _ => True

theorem Intake.Sound.act {s : Intake} {replies : List Reply} (h : s.Sound limits replies)
    {op : IntakeOp} (hop : ¬ForeignRepeat s op) :
    (s.step limits op).Sound limits (replies ++ s.replies limits op) := by
  have hidle : s.Sound limits (replies ++ []) := by
    rw [List.append_nil]
    exact h
  have hrefused {call : CallId} {request : EnqueueRequest} {error : QueueError} :
      (s.finish call).Sound limits (replies ++ [⟨request,.refused error⟩]) := by
    refine h.quiet rfl (quiet_finish s call) rfl ?_
    intro r hr id hid
    rw [List.mem_singleton.mp hr] at hid
    cases hid
  have hmoved {call : CallId} {progress next : Progress} {request : EnqueueRequest}
      (hcall : s.at? call progress = some request) (hheld : progress ≠ .permitted)
      (hnext : next ≠ .counted) : (s.advance call next).Sound limits (replies ++ []) := by
    refine h.quiet rfl (quiet_advance hcall hheld hnext) rfl ?_
    intro r hr
    cases hr
  unfold Intake.step Intake.replies
  cases op with
  | begin call request compileSubmit =>
    have hanswered (error : QueueError) : s.Sound limits (replies ++ [⟨request,.refused error⟩]) := by
      refine h.quiet rfl (.refl _) rfl ?_
      intro r hr id hid
      rw [List.mem_singleton.mp hr] at hid
      cases hid
    dsimp only [Intake.act]
    split
    · exact hanswered _
    · exact hanswered _
    · refine h.quiet rfl ?_ rfl ?_
      · have hget : ∀ c a, ((s.calls.insert? call ⟨request,.permitted⟩).getD s.calls).get? c = some a →
            a.progress = .permitted ∨ s.calls.get? c = some a := by
          intro c a ha
          cases hi : s.calls.insert? call ⟨request,.permitted⟩ with
          | none =>
            rw [hi] at ha
            exact Or.inr ha
          | some calls =>
            rw [hi,Option.getD_some,Table.get?_insert? hi] at ha
            split at ha
            · cases ha
              exact Or.inl rfl
            · exact Or.inr ha
        refine ⟨?_,?_⟩
        · intro c a user ha hholds
          rcases hget c a ha with hp | hold
          · simp [EnqueueCall.holds,hp] at hholds
          · exact ⟨a,hold,hholds⟩
        · intro c a ha hcounted
          rcases hget c a ha with hp | hold
          · rw [hp] at hcounted
            cases hcounted
          · exact ⟨a,hold,hcounted,rfl⟩
      · intro r hr
        cases hr
  | lock call =>
    dsimp only [Intake.act]
    split
    · exact hidle
    · next request hcall =>
      dsimp only
      split
      · exact hidle
      · next hfree =>
        rw [List.append_nil]
        exact h.lock hcall (by simpa using hfree)
  | lookup call =>
    dsimp only [Intake.act]
    split
    · exact hidle
    · next request hcall =>
      split
      · exact hmoved hcall (by decide) (by decide)
      · next id j hstored =>
        split
        · next hinputs =>
          obtain ⟨hj,huser,hkey⟩ := storedJob_some hstored
          have hworkspace : j.workspaceId = request.workspaceId := by
            by_contra hne
            exact hop ⟨request,id,j,hcall,hstored,hinputs,hne⟩
          refine h.quiet rfl (quiet_finish s call) rfl ?_
          intro r hr id' hid
          rw [List.mem_singleton.mp hr] at hid ⊢
          cases hid
          exact ⟨j,hj,huser,hkey,hworkspace,hinputs⟩
        · exact hrefused
  | ownership call owned snapshotKnown =>
    dsimp only [Intake.act]
    split
    · exact hidle
    · next request hcall =>
      split
      · exact hmoved hcall (by decide) (by decide)
      · exact hrefused
  | count call =>
    dsimp only [Intake.act]
    split
    · exact hidle
    · next request hcall =>
      split
      · next hroom =>
        rw [List.append_nil]
        exact h.count hcall hroom
      · exact hrefused
  | insert call references now =>
    dsimp only [Intake.act]
    split
    · exact hidle
    · next request hcall =>
      split
      · split
        · next db hinsert => exact h.insert hcall hinsert
        · exact hrefused
      · exact hrefused
  | abort call =>
    refine h.quiet rfl (quiet_finish s call) rfl ?_
    intro r hr
    cases hr
  | queue op hqueue =>
    dsimp only [Intake.act]
    rw [List.append_nil]
    exact h.queued hqueue

/-- The contract of submissions along one run from the empty tables. -/
structure Idempotent (limits : QueueLimits) (ops : List IntakeOp) : Prop where
  oneRow : ∀ k k' j j', (run (Intake.step limits) .empty ops).db.jobs.get? k = some j →
    (run (Intake.step limits) .empty ops).db.jobs.get? k' = some j' → j.userId = j'.userId →
    j.idempotencyKey = j'.idempotencyKey → k = k'
  sameJob : ∀ r ∈ emitted (Intake.step limits) (Intake.replies limits) .empty ops,
    ∀ r' ∈ emitted (Intake.step limits) (Intake.replies limits) .empty ops, ∀ id id',
    r.request.userId = r'.request.userId → r.request.idempotencyKey = r'.request.idempotencyKey →
    r.outcome.job? = some id → r'.outcome.job? = some id' → id = id'
  returned : ∀ r ∈ emitted (Intake.step limits) (Intake.replies limits) .empty ops,
    ∀ id, r.outcome.job? = some id → Returned (run (Intake.step limits) .empty ops).db r id
  refuses : Along (Intake.step limits) (RefusesDifferent limits) .empty ops
  admitted : ∀ user, outstandingAmong
    (insertedJobs (emitted (Intake.step limits) (Intake.replies limits) .empty ops))
    (run (Intake.step limits) .empty ops).db user ≤ limits.perUserOutstanding

/-- Submissions are idempotent in a run exactly when no call repeats a key for the inputs of a job
that is stored under it in another workspace. -/
theorem idempotent_iff (limits : QueueLimits) (ops : List IntakeOp) :
    Idempotent limits ops ↔ Along (Intake.step limits) (fun s op => ¬ForeignRepeat s op) .empty ops := by
  constructor
  · intro h
    refine h.refuses.mono ?_
    intro s op hrefuses
    cases op with
    | lookup call =>
      rintro ⟨request,id,j,hcall,hstored,hinputs,hne⟩
      have hreply := hrefuses request id j hcall hstored (Or.inl hne)
      simp only [Intake.replies,Intake.act,hcall,hstored,hinputs,if_true,Intake.answer,List.cons.injEq,
        Reply.mk.injEq,reduceCtorEq,and_false,false_and] at hreply
    | _ => exact id
  · intro h
    have hsound := h.invariant_emitted
      (fun s replies => s.Sound limits replies) (fun s replies op hs hop => hs.act hop)
      (Intake.sound_empty limits)
    constructor
    · exact hsound.keys
    · intro r hr r' hr' id id' huser hkey hid hid'
      obtain ⟨j,hj,hjuser,hjkey,-⟩ := hsound.returned r hr id hid
      obtain ⟨j',hj',hjuser',hjkey',-⟩ := hsound.returned r' hr' id' hid'
      exact hsound.keys id id' j j' hj hj' (hjuser.trans (huser.trans hjuser'.symm))
        (hjkey.trans (hkey.trans hjkey'.symm))
    · exact hsound.returned
    · refine h.mono ?_
      intro s op hop
      cases op with
      | lookup call =>
        intro request id j hcall hstored hdiffers
        have hinputs : j.inputs ≠ request.inputs := by
          intro hsame
          rcases hdiffers with hne | hne
          · exact hop ⟨request,id,j,hcall,hstored,hsame,hne⟩
          · exact hne hsame
        simp only [Intake.replies,Intake.act,hcall,hstored,hinputs,if_false,Intake.answer]
      | _ => trivial
    · exact hsound.bounded

/-- The same inputs under one key in two workspaces, with nobody else at work. -/
def repeatElsewhere : List IntakeOp :=
  callAlone 0 ⟨1,1,1,1,sampleInputs zeroDigest,"key",.normal,0⟩ ⟨.ok true,true,true,true⟩ (sampleClock 1) ++
    callAlone 0 ⟨2,1,1,2,sampleInputs zeroDigest,"key",.normal,0⟩ ⟨.ok true,true,true,true⟩ (sampleClock 2)

/-- The second call gets the job of the first workspace. -/
theorem repeat_elsewhere_returned : ¬Idempotent sampleLimits repeatElsewhere := by
  intro h
  have hlast : ∃ r ∈ emitted (Intake.step sampleLimits) (Intake.replies sampleLimits) .empty repeatElsewhere,
      r.outcome.job? = some 1 ∧ r.request.workspaceId = 2 ∧
        ((run (Intake.step sampleLimits) .empty repeatElsewhere).db.jobs.get? 1).map Job.workspaceId =
          some 1 := by
    decide +kernel
  obtain ⟨r,hr,hid,hworkspace,hrow⟩ := hlast
  obtain ⟨j,hj,-,-,hsame,-⟩ := h.returned r hr 1 hid
  rw [hj,Option.map_some,hsame,hworkspace] at hrow
  cases hrow

end LatexCore.Queue
