import LatexCore.Builds.Origin

/-! # At most one build of a workspace is in flight

Without cancellations the scheduler row of a workspace names its one live build
in every state of a run, up to the first submission that reuses a succeeded
build while another build is live. That submission clears the active build, and
the next one starts a second build beside the first.

A terminal job frees the slot of its build through the finalization, and only a
cancellation has none. As long as no call cancels the job of an active build, a
workspace whose jobs are all terminal has an empty slot, and its next
submission enqueues a job.
-/
namespace LatexCore.Builds
open Core Foundation Queue
variable {limits : QueueLimits} {db db' : Db} {op : QueueOp}

/-- No build yet, and every scheduler row is empty. -/
structure Unscheduled (db : Db) : Prop where
  builds : ∀ b, db.builds.get? b = none
  slots : ∀ w, activeOf db w = none ∧ pendingOf db w = none

theorem unscheduled_empty : Unscheduled .empty := ⟨fun _ => rfl,fun _ => ⟨rfl,rfl⟩⟩

theorem Unscheduled.consistent (h : Unscheduled db) : Consistent db := by
  have hno : ∀ b row, db.builds.get? b ≠ some row := by simp [h.builds]
  refine ⟨fun b row hb => absurd hb (hno b row),fun b row hb => absurd hb (hno b row),
    fun b row j hb => absurd hb (hno b row),fun b row j hb => absurd hb (hno b row),?_⟩
  intro w s b hs hb
  have hslot := (h.slots w).1
  simp [activeOf,hs,hb] at hslot

theorem Unscheduled.flight (h : Unscheduled db) (w : WorkspaceId) :
    (flight db w).Attended ∧ (flight db w).Exclusive := by
  refine ⟨⟨?_,fun _ => (h.slots w).2⟩,?_⟩
  · intro b hb
    simp [Builds.flight,(h.slots w).1] at hb
  · rintro b ⟨row,j,hrow,-⟩
    simp [h.builds] at hrow

theorem consistent_step (limits : QueueLimits) (h : Consistent db) (op : QueueOp) :
    Consistent (step limits db op) := by
  have hstep : Refines True True db (step limits db op) :=
    step_refines h (fun _ => trivial) (fun _ => trivial)
  exact hstep.1

theorem consistent_run (limits : QueueLimits) (h : Unscheduled db) (ops : List QueueOp) :
    Consistent (run (step limits) db ops) :=
  run_invariant Consistent (fun _ op hc => consistent_step limits hc op) h.consistent ops

/-- The call asks for a cancellation. -/
def RequestsCancellation (op : QueueOp) : Prop :=
  ∃ job reason clock, op = .requestCancellation job reason clock

def CancellationFree (db : Db) : Prop :=
  ∀ b row j, db.builds.get? b = some row → db.jobs.get? b = some j → j.cancellationRequestedAt = none

theorem JobStep.cancellation {j j' : Job} (h : JobStep limits j op j') (hop : ¬RequestsCancellation op) :
    j'.cancellationRequestedAt = j.cancellationRequestedAt := by
  cases h with
  | @cancellationRequested job reason clock ho => exact absurd ⟨job,reason,clock,rfl⟩ hop
  | renewed | recovered | finished | requeued => rfl

theorem cancellationFree_step (hc : Consistent db) (hfree : CancellationFree db)
    (hop : ¬RequestsCancellation op) : CancellationFree (step limits db op) := by
  intro b row' j' hrow' hj'
  rcases (step_descends limits db op).builds b row' hrow' with ⟨row,hrow,-⟩ | ⟨source,now,-,-,hjob⟩
  · obtain ⟨j,hj,-⟩ := hc.job b row hrow
    have hnone := hfree b row j hrow hj
    rcases (step_stepped limits db op).rows with hrows | ⟨id,q,worker,leaseMillis,now,hq,-,-,-,hclaim⟩
    · have hchange := hrows b
      rw [hj,hj'] at hchange
      cases hchange with
      | same => exact hnone
      | changed hstep => exact (JobStep.cancellation hstep hop).trans hnone
    · rw [hclaim,claimRow,Table.get?_modify,hj] at hj'
      split at hj' <;> cases hj' <;> exact hnone
  · rw [hj'] at hjob
    cases hjob
    rfl

theorem CancellationFree.not_cancelsActive (hc : Consistent db) (hfree : CancellationFree db)
    (hop : ¬RequestsCancellation op) : ¬CancelsActive limits db op := by
  have hjob : ∀ job j, ActiveJob db job → db.jobs.get? job = some j →
      j.cancellationRequested = true → False := by
    rintro job j ⟨w,s,b,row,-,-,hrow,hkey⟩ hj hreq
    have hb : b = job := (hc.keyed b row hrow).symm.trans hkey
    subst hb
    simp [Job.cancellationRequested,hfree b row j hrow hj] at hreq
  intro hcancel
  cases op with
  | requestCancellation job reason clock => exact hop ⟨job,reason,clock,rfl⟩
  | recoverExpiredLeases rank fresh clock =>
    obtain ⟨-,job,j,hactive,hj,-,hreq⟩ := hcancel
    exact hjob job j hactive hj hreq
  | enqueue | claim | renewLease | completeSuccess | completeCachedSuccess | completeCompileFailure |
    completeInfrastructureFailure | evictCache | submitV2Build =>
    obtain ⟨job,worker,fresh,clock,j,-,hactive,hj,-,-,hreq⟩ := hcancel
    exact hjob job j hactive hj hreq

/-- At most one build of the workspace has a queued or running job; the scheduler row names it,
and names none when there is none. -/
structure SingleFlight (db : Db) (w : WorkspaceId) : Prop where
  unique : ∀ b b', Live db w b → Live db w b' → b = b'
  named : ∀ b, Live db w b → activeOf db w = some b
  idle : (∀ b, ¬Live db w b) → activeOf db w = none

theorem singleFlight_of_flight (hc : Consistent db) {w : WorkspaceId} (ha : (flight db w).Attended)
    (he : (flight db w).Exclusive) : SingleFlight db w := by
  have hiff : ∀ b, Live db w b ↔ activeOf db w = some b := fun b =>
    (live_iff hc w b).trans (Flight.mem_live_iff ha he b)
  refine ⟨?_,fun b hb => (hiff b).mp hb,?_⟩
  · intro b b' hb hb'
    exact Option.some.inj (((hiff b).mp hb).symm.trans ((hiff b').mp hb'))
  · intro hnone
    cases hactive : activeOf db w with
    | none => rfl
    | some b => exact absurd ((hiff b).mpr hactive) (hnone b)

/-- A reuse beside a live build leaves that build live and names none. -/
theorem ReleasesLive.breaks (hr : ReleasesLive db op) : ∃ w, ¬SingleFlight (step limits db op) w := by
  cases op with
  | submitV2Build request facts rank fresh clock =>
    obtain ⟨⟨mid,ha⟩,⟨c,rc,hrc,hreuse⟩,b,row,j,hrow,hw,hj,ho⟩ := hr
    refine ⟨request.workspaceId,fun hsingle => ?_⟩
    obtain ⟨schedulers,rfl,hself,-⟩ := admitSubmission_ok ha
    have hfound : ∃ id rid, reusableBuild { db with schedulers } request.workspaceId
        request.stateHash rank = some (id,rid) := by
      cases hbest : reusableBuild { db with schedulers } request.workspaceId request.stateHash rank with
      | none =>
        have hno : reusable { db with schedulers } request.workspaceId request.stateHash rc = false :=
          Table.best_eq_none hbest hrc
        have hyes : reusable { db with schedulers } request.workspaceId request.stateHash rc = true :=
          hreuse
        rw [hyes] at hno
        cases hno
      | some r => exact ⟨r.1,r.2,rfl⟩
    obtain ⟨id,rid,hfound⟩ := hfound
    have hstep : step limits db (.submitV2Build request facts rank fresh clock) =
        clearPendingAndPromote { db with schedulers } request.workspaceId id clock.finished := by
      rw [step]
      exact commit_ok (by simp only [submitV2Build,ha,bind,Except.bind,hfound]; rfl)
    rw [hstep] at hsingle
    have hlive : Live (clearPendingAndPromote { db with schedulers } request.workspaceId id
        clock.finished) request.workspaceId b := by
      by_cases hb : b = id
      · subst hb
        exact ⟨{ row with promotedAt := some (row.promotedAt.getD clock.finished) },j,
          by rw [clearPendingAndPromote,Table.get?_modify_self,hrow,Option.map_some],hw,hj,ho⟩
      · exact ⟨row,j,by rw [clearPendingAndPromote,Table.get?_modify_of_ne _ hb]; exact hrow,hw,hj,ho⟩
    have hnamed := hsingle.named b hlive
    simp [activeOf,clearPendingAndPromote,hself] at hnamed
  | enqueue | claim | renewLease | requestCancellation | recoverExpiredLeases | completeSuccess |
    completeCachedSuccess | completeCompileFailure | completeInfrastructureFailure | evictCache =>
    cases hr

/-- The invariant of a run without cancellation requests and without an early release. -/
structure Scheduled (db : Db) : Prop where
  consistent : Consistent db
  free : CancellationFree db
  attended : ∀ w, (flight db w).Attended
  exclusive : ∀ w, (flight db w).Exclusive

theorem Unscheduled.scheduled (h : Unscheduled db) : Scheduled db :=
  ⟨h.consistent,fun b _ _ hb => by simp [h.builds] at hb,fun w => (h.flight w).1,
    fun w => (h.flight w).2⟩

theorem Scheduled.step (h : Scheduled db) (hop : ¬RequestsCancellation op)
    (hr : ¬ReleasesLive db op) : Scheduled (step limits db op) := by
  have hrefines : Refines False False db (Queue.step limits db op) :=
    step_refines h.consistent hr (h.free.not_cancelsActive h.consistent hop)
  exact ⟨hrefines.1,cancellationFree_step h.consistent h.free hop,
    fun w => (hrefines.2 w).attended id (h.attended w),
    fun w => (hrefines.2 w).exclusive id (h.exclusive w)⟩

/-- In a run without cancellation requests every workspace is in single flight in every state
exactly when no submission reuses a build while another build of its workspace is live. -/
theorem singleFlight_iff (limits : QueueLimits) {db : Db} (h0 : Unscheduled db) {ops : List QueueOp}
    (hops : ∀ op ∈ ops, ¬RequestsCancellation op) :
    (∀ pre post, ops = pre ++ post → ∀ w, SingleFlight (run (step limits) db pre) w) ↔
      Along (step limits) (fun db op => ¬ReleasesLive db op) db ops := by
  constructor
  · intro h
    refine along_iff.mpr ?_
    rintro pre op post rfl hr
    obtain ⟨w,hbroken⟩ : ∃ w, ¬SingleFlight (step limits (run (step limits) db pre) op) w := hr.breaks
    rw [← run_concat (step limits) db pre op] at hbroken
    exact hbroken (h (pre ++ [op]) post (by simp) w)
  · rintro h pre post rfl w
    have hpre := (along_append.mp h).1
    have hquiet : Along (step limits) (fun _ op => ¬RequestsCancellation op) db pre :=
      along_of_forall (fun _ op hop => hops op (List.mem_append_left _ hop)) db
    have hlast : Scheduled (run (step limits) db pre) := by
      refine (hpre.and hquiet).invariant Scheduled ?_ h0.scheduled
      rintro s op hs ⟨hr,hop⟩
      exact hs.step hop hr
    exact singleFlight_of_flight hlast.consistent (hlast.attended w) (hlast.exclusive w)

/-- A first build that is compiled and promoted leaves its workspace in single flight. -/
theorem singleFlight_first_build :
    SingleFlight (run (step sampleLimits) .empty
      [sampleSubmit zeroDigest 1 0,.claim 5 [] (sampleClock 1),sampleSuccess 1 5 50 2]) 1 := by
  have hfree : ∀ op ∈ [sampleSubmit zeroDigest 1 0,.claim 5 [] (sampleClock 1),
      sampleSuccess 1 5 50 2], ¬RequestsCancellation op := by
    simp [RequestsCancellation,sampleSubmit,sampleSuccess]
  refine (singleFlight_iff sampleLimits unscheduled_empty hfree).mpr ⟨?_,id,id,trivial⟩ _ []
    (List.append_nil _).symm 1
  rintro ⟨-,⟨b,row,hrow,-⟩,-⟩
  cases hrow

/-- The second submission of a succeeded state forgets the queued build of another state, and the
next submission of that state starts a second live build. -/
theorem singleFlight_broken : ¬∀ (limits : QueueLimits) (ops : List QueueOp),
    (∀ op ∈ ops, ¬RequestsCancellation op) → ∀ w, SingleFlight (run (step limits) .empty ops) w := by
  intro h
  have hsingle := h sampleLimits
    [sampleSubmit zeroDigest 1 0,.claim 5 [] (sampleClock 1),sampleSuccess 1 5 50 2,
      sampleSubmit oneDigest 2 3,sampleSubmit zeroDigest 3 4,sampleSubmit oneDigest 4 5]
    (by simp [RequestsCancellation,sampleSubmit,sampleSuccess]) 1
  have htwo := hsingle.unique 2 4 (by decide) (by decide)
  cases htwo

/-! ## Progress -/

def AllTerminal (db : Db) (w : WorkspaceId) : Prop :=
  ∀ id j, db.jobs.get? id = some j → j.workspaceId = w → j.state.terminal = true

/-- A submission that passes every check, with fresh identifiers and valid columns. -/
structure Admissible (db : Db) (request : V2BuildRequest) (facts : SubmitFacts) (fresh : FreshIds) :
    Prop where
  admitted : ∃ mid, admitSubmission db request facts = .ok mid
  references : facts.references = true
  epoch : 1 ≤ request.documentEpoch ∧ request.documentEpoch ≤ i64Max
  manifest : request.manifest.isObject = true
  fresh : FreshFor db fresh

def NeverSucceeded (db : Db) (w : WorkspaceId) (stateHash : String) : Prop :=
  ∀ b row, db.builds.get? b = some row → row.workspaceId = w → row.stateHash = stateHash →
    row.status ≠ .succeeded

/-- With all jobs of the workspace terminal the slot is empty, and a submission of a state
without a succeeded build enqueues a new job. -/
structure Unwedged (db : Db) (w : WorkspaceId) : Prop where
  slot : AllTerminal db w → activeOf db w = none ∧ pendingOf db w = none
  submits : AllTerminal db w → ∀ request facts rank fresh clock, request.workspaceId = w →
    Admissible db request facts fresh → NeverSucceeded db w request.stateHash →
    ∃ db', submitV2Build db request facts rank fresh clock =
        .ok (db',⟨some fresh.build,some fresh.build,request.stateHash,"queued",false⟩) ∧
      db.jobs.get? fresh.build = none ∧
      db'.jobs.get? fresh.build = some (snapshotJob w request.pending fresh.build clock.started) ∧
      activeOf db' w = some fresh.build

theorem AllTerminal.live_empty (hc : Consistent db) {w : WorkspaceId} (h : AllTerminal db w) :
    (flight db w).live = ∅ := by
  apply Set.eq_empty_of_forall_notMem
  intro b hb
  obtain ⟨row,j,hrow,hw,hj,ho⟩ := (live_iff hc w b).mpr hb
  rw [hc.keyed b row hrow] at hj
  obtain ⟨j',hj',hw'⟩ := hc.job b row hrow
  rw [hj] at hj'
  cases hj'
  have hterminal := h b j hj (hw'.trans hw)
  simp [terminal_not_outstanding hterminal] at ho

theorem submit_into_idle (hc : Consistent db) {request : V2BuildRequest} {facts : SubmitFacts}
    {fresh : FreshIds} (ha : Admissible db request facts fresh)
    (hidle : activeOf db request.workspaceId = none)
    (hnew : NeverSucceeded db request.workspaceId request.stateHash) (rank : Uuid → ℕ) (clock : Clock) :
    ∃ mid last, admitSubmission db request facts = .ok mid ∧
      Enqueued request.workspaceId request.paperId request.pending fresh clock.started mid last ∧
      submitV2Build db request facts rank fresh clock =
        .ok (setActiveBuild last request.workspaceId fresh.build,
          ⟨some fresh.build,some fresh.build,request.stateHash,"queued",false⟩) := by
  obtain ⟨mid,hmid⟩ := ha.admitted
  obtain ⟨hconsistent,hview,-⟩ := admitted_refines hc hmid
  have hactive : activeOf mid request.workspaceId = none :=
    (congrArg Flight.active (hview request.workspaceId)).trans hidle
  obtain ⟨schedulers,rfl,-,-⟩ := admitSubmission_ok hmid
  have hreuse : reusableBuild { db with schedulers } request.workspaceId request.stateHash rank = none := by
    cases hbest : reusableBuild { db with schedulers } request.workspaceId request.stateHash rank with
    | none => rfl
    | some r =>
      obtain ⟨hrow,hmatch⟩ := Table.best_mem hbest
      simp only [reusable,Bool.and_eq_true,beq_iff_eq] at hmatch
      obtain ⟨⟨⟨⟨⟨hw,hh⟩,hsucceeded⟩,-⟩,-⟩,-⟩ := hmatch
      exact absurd hsucceeded (hnew r.1 r.2 hrow hw hh)
  have hjoin : activeBuild { db with schedulers } request.workspaceId = none := by
    have hcases := activeBuild_eq hconsistent request.workspaceId
    cases hb : activeBuild { db with schedulers } request.workspaceId with
    | none => rfl
    | some r =>
      rw [hb] at hcases
      rw [hcases.1] at hactive
      cases hactive
  have hfresh : FreshFor { db with schedulers } fresh :=
    ⟨ha.fresh.job,ha.fresh.key,ha.fresh.version,ha.fresh.build,ha.fresh.references⟩
  have hepoch : 1 ≤ request.pending.documentEpoch := ha.epoch.1
  obtain ⟨last,hlast⟩ := enqueueSnapshot_isOk hfresh hepoch ha.manifest request.workspaceId
    request.paperId clock.started
  have hstart : startBuild { db with schedulers } request facts fresh clock =
      .ok (setActiveBuild last request.workspaceId fresh.build) := by
    simp only [startBuild,bind_ok,mapError_ok,pure_ok,ensure_ok,toI64,decide_eq_true_eq]
    exact ⟨(),ha.references,(),ha.epoch.2,last,hlast,rfl⟩
  refine ⟨_,last,hmid,enqueueSnapshot_ok hlast,?_⟩
  simp only [submitV2Build,bind_ok]
  refine ⟨_,hmid,?_⟩
  rw [hreuse]
  dsimp only
  rw [hjoin]
  exact bind_ok.mpr ⟨_,hstart,rfl⟩

/-- In a run in which no call cancels the job of an active build, no workspace is ever wedged. -/
theorem unwedged_of_no_active_cancel (limits : QueueLimits) {db : Db} (h0 : Unscheduled db)
    {ops : List QueueOp} (h : Along (step limits) (fun db op => ¬CancelsActive limits db op) db ops)
    (w : WorkspaceId) : Unwedged (run (step limits) db ops) w := by
  have hinv : Consistent (run (step limits) db ops) ∧
      ∀ v, (flight (run (step limits) db ops) v).Attended := by
    refine h.invariant (fun s => Consistent s ∧ ∀ v, (flight s v).Attended) ?_
      ⟨h0.consistent,fun v => (h0.flight v).1⟩
    rintro s op ⟨hc,ha⟩ hcancel
    have hrefines : Refines True False s (step limits s op) :=
      step_refines hc (fun _ => trivial) hcancel
    exact ⟨hrefines.1,fun v => (hrefines.2 v).attended id (ha v)⟩
  obtain ⟨hc,hattended⟩ := hinv
  have hslot : AllTerminal (run (step limits) db ops) w →
      activeOf (run (step limits) db ops) w = none ∧ pendingOf (run (step limits) db ops) w = none :=
    fun hall => (hattended w).idle (hall.live_empty hc)
  refine ⟨hslot,?_⟩
  rintro hall request facts rank fresh clock rfl ha hnew
  obtain ⟨mid,last,hmid,he,hsubmit⟩ := submit_into_idle hc ha (hslot hall).1 hnew rank clock
  obtain ⟨-,-,s,hs⟩ := admitted_refines hc hmid
  have hlock : last.schedulers.get? request.workspaceId = some s := he.schedulers ▸ hs
  exact ⟨_,hsubmit,ha.fresh.job,by rw [setActiveBuild,he.jobs,if_pos rfl],
    by simp [activeOf,setActiveBuild,hlock]⟩

/-- After its first compiled build a workspace is not wedged. -/
theorem unwedged_first_build :
    Unwedged (run (step sampleLimits) .empty
      [sampleSubmit zeroDigest 1 0,.claim 5 [] (sampleClock 1),sampleSuccess 1 5 50 2]) 1 := by
  have hquiet : Along (step sampleLimits) (fun db op => ¬CancelsActive sampleLimits db op) .empty
      [sampleSubmit zeroDigest 1 0,.claim 5 [] (sampleClock 1),sampleSuccess 1 5 50 2] := by
    refine ⟨?_,?_,?_,trivial⟩
    · rintro ⟨job,worker,fresh,clock,j,hop,-⟩
      cases hop
    · rintro ⟨job,worker,fresh,clock,j,hop,-⟩
      cases hop
    · rintro ⟨job,worker,fresh,clock,j,hop,-,hj,-,-,hreq⟩
      cases hop
      have hnone : ((step sampleLimits (step sampleLimits .empty (sampleSubmit zeroDigest 1 0))
          (.claim 5 [] (sampleClock 1))).jobs.get? 1).any Job.cancellationRequested = false := by decide
      rw [hj] at hnone
      simp [hreq] at hnone
  exact unwedged_of_no_active_cancel sampleLimits unscheduled_empty hquiet 1

/-- The cancellation of the queued active build leaves its slot taken for ever, and the next
submission is parked behind it. -/
theorem wedged_by_cancellation : ¬∀ (limits : QueueLimits) (ops : List QueueOp) (w : WorkspaceId),
    Unwedged (run (step limits) .empty ops) w := by
  intro h
  have hunwedged := h sampleLimits
    [sampleSubmit zeroDigest 1 0,.requestCancellation 1 none (sampleClock 1)] 1
  have hall : AllTerminal (run (step sampleLimits) .empty
      [sampleSubmit zeroDigest 1 0,.requestCancellation 1 none (sampleClock 1)]) 1 := by
    intro id j hj _
    have hrow : (id,j) ∈ (run (step sampleLimits) .empty
        [sampleSubmit zeroDigest 1 0,.requestCancellation 1 none (sampleClock 1)]).jobs.rows :=
      Table.mem_rows_iff.mpr hj
    have hrows : ∀ r ∈ (run (step sampleLimits) .empty
        [sampleSubmit zeroDigest 1 0,.requestCancellation 1 none (sampleClock 1)]).jobs.rows,
        r.2.state.terminal = true := by decide
    exact hrows _ hrow
  have hactive : activeOf (run (step sampleLimits) .empty
      [sampleSubmit zeroDigest 1 0,.requestCancellation 1 none (sampleClock 1)]) 1 = some 1 := by decide
  rw [(hunwedged.slot hall).1] at hactive
  cases hactive

end LatexCore.Builds
