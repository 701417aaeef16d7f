import LatexCore.Builds.Origin

/-! # Where checkpoints and desired states come from

A call of the queue keeps every recorded version. A version that it adds is the
checkpoint of a state that it enqueues, so it carries the manifest and the
snapshot of a pending state or of the request of the call itself. Only a submission
installs a desired state; every other call leaves that of every workspace as it is.
-/
namespace LatexCore.Builds
open Core Foundation Queue
variable {limits : QueueLimits} {db db' : Db} {op : QueueOp}
variable {sources : WorkspaceId → PendingBuild → Prop}

def CheckpointOf (sources : WorkspaceId → PendingBuild → Prop) (version : Version) : Prop :=
  ∃ source, sources version.workspaceId source ∧ version.manifest = source.manifest ∧
    version.snapshotId = source.inputs.snapshotId ∧ version.stateHash = source.stateHash

structure Checkpoints (sources : WorkspaceId → PendingBuild → Prop) (db db' : Db) : Prop where
  kept : ∀ id version, db.versions.get? id = some version → db'.versions.get? id = some version
  new : ∀ id version, db'.versions.get? id = some version →
    db.versions.get? id = some version ∨ CheckpointOf sources version

theorem Checkpoints.of_eq (h : db'.versions = db.versions) : Checkpoints sources db db' where
  kept := by
    rw [h]
    exact fun _ _ h => h
  new := by
    rw [h]
    exact fun _ _ h => Or.inl h

theorem Checkpoints.trans {a b c : Db} {between : WorkspaceId → PendingBuild → Prop}
    (hab : Checkpoints sources a b) (hbc : Checkpoints between b c)
    (hsources : ∀ w p, between w p → sources w p) : Checkpoints sources a c where
  kept := fun id version h => hbc.kept id version (hab.kept id version h)
  new := by
    intro id version h
    rcases hbc.new id version h with hold | ⟨source,hsource,hrest⟩
    · exact hab.new id version hold
    · exact Or.inr ⟨source,hsources _ _ hsource,hrest⟩

theorem Checkpoints.mono {more : WorkspaceId → PendingBuild → Prop} (h : Checkpoints sources db db')
    (hm : ∀ w p, sources w p → more w p) : Checkpoints more db db' :=
  (Checkpoints.of_eq rfl).trans h hm

theorem enqueueSnapshot_checkpoints {workspace : WorkspaceId} {paperId : Uuid}
    {source : PendingBuild} {fresh : FreshIds} {now : Timestamp} (hsource : sources workspace source)
    (h : enqueueSnapshot db workspace paperId source fresh now = .ok db') :
    Checkpoints sources db db' := by
  simp only [enqueueSnapshot,bind_ok] at h
  obtain ⟨_,h₁,_,h₂,h₃⟩ := h
  obtain ⟨jobs,_,rfl⟩ := insertJob_ok h₁
  obtain ⟨versions,hversions,rfl⟩ := insertVersion_ok h₂
  obtain ⟨builds,_,rfl⟩ := insertBuild_ok h₃
  obtain ⟨hnone,_⟩ := Table.insert?_eq_some hversions
  have hget := Table.get?_insert? hversions
  refine ⟨?_,?_⟩
  · intro id version hold
    have hne : id ≠ fresh.version := by
      rintro rfl
      rw [hnone] at hold
      cases hold
    exact (hget id).trans ((if_neg hne).trans hold)
  · intro id version hnew
    rw [hget id] at hnew
    split at hnew
    · cases hnew
      exact Or.inr ⟨source,hsource,rfl,rfl,rfl⟩
    · exact Or.inl hnew

@[simp] theorem settleBuild_versions (db : Db) (id : Uuid) (build : Build) (s : Scheduler) (ok : Bool)
    (now : Timestamp) : (settleBuild db id build s ok now).versions = db.versions := by
  unfold settleBuild
  dsimp only
  split <;> rfl

theorem finalize_checkpoints {job : JobId} {ok : Bool} {fresh : FreshIds} {clock : Clock}
    (h : finalizeV2Build db job ok fresh clock = .ok db') : Checkpoints (Pendings db) db db' := by
  rcases finalizeV2Build_ok h with ⟨_,rfl⟩ | ⟨id,build,s,_,hs,ha⟩
  · exact .of_eq rfl
  · have hsettled : Checkpoints (Pendings db) db (settleBuild db id build s ok clock.finished) :=
      .of_eq (settleBuild_versions ..)
    unfold activatePending at ha
    split at ha
    · next source hpending =>
      simp only [bind_ok,mapError_ok,pure_ok] at ha
      obtain ⟨mid,hmid,rfl⟩ := ha
      have hsource : Pendings db build.workspaceId source :=
        Option.bind_eq_some_iff.mpr ⟨s,hs,hpending⟩
      have hmid := enqueueSnapshot_checkpoints hsource hmid
      exact (hsettled.trans hmid (fun _ _ h => h)).trans (.of_eq rfl)
        (fun _ _ h => h)
    · cases ha
      exact hsettled.trans (.of_eq rfl) (fun _ _ h => h)

theorem finalizeFailed_checkpoints {fresh : JobId → FreshIds} {clock : Clock} {todo : List JobId}
    (h : finalizeFailed fresh clock todo db = .ok db') : Checkpoints (Pendings db) db db' := by
  induction todo generalizing db with
  | nil =>
    cases h
    exact .of_eq rfl
  | cons job rest ih =>
    simp only [finalizeFailed,bind_ok] at h
    obtain ⟨mid,hm,h⟩ := h
    exact (finalize_checkpoints hm).trans (ih h) (finalize_descends hm).pending

theorem submitted_checkpoints {request : V2BuildRequest} {facts : SubmitFacts} {rank : Uuid → ℕ}
    {fresh : FreshIds} {clock : Clock} {answer : V2BuildSubmission}
    (h : Submitted request facts rank fresh clock db db' answer) :
    Checkpoints (fun w p => w = request.workspaceId ∧ p = request.pending) db db' := by
  cases h with
  | reused id row hreuse => exact .of_eq rfl
  | joined id row j hnone ha hb => exact .of_eq rfl
  | parked id row j hnone ha hb => exact .of_eq rfl
  | started _ hnone ha hstart =>
    simp only [startBuild,bind_ok,mapError_ok,pure_ok] at hstart
    obtain ⟨_,_,_,_,mid,hmid,rfl⟩ := hstart
    have hsubmitted : Checkpoints (fun w p => w = request.workspaceId ∧ p = request.pending) db mid :=
      enqueueSnapshot_checkpoints ⟨rfl,rfl⟩ hmid
    exact ⟨hsubmitted.kept,hsubmitted.new⟩

/-- A call keeps the versions, and checkpoints what it may enqueue. -/
theorem step_checkpoints (limits : QueueLimits) (db : Db) (op : QueueOp) :
    Checkpoints (Sources db op) db (step limits db op) := by
  have hstep := step_stepped limits db op
  generalize step limits db op = last at hstep
  cases hstep with
  | idle => exact .of_eq rfl
  | enqueued j hnew jobs hi => exact .of_eq rfl
  | claimed id j hj hq leaseMillis hglobal huser => exact .of_eq rfl
  | renewed j hj hheld leaseMillis => exact .of_eq rfl
  | cancellationRequested j hj ho hr => exact .of_eq rfl
  | recovered hmax todo htodo _ hf =>
    have hfailed := finalizeFailed_checkpoints hf
    exact ⟨hfailed.kept,(hfailed.mono (fun w p hp => Or.inl hp)).new⟩
  | completed job worker fresh clock hop _ hd =>
    cases hd with
    | cancelled j hj hc hheld hstill => exact .of_eq rfl
    | requeued j hj hc hheld ha error => exact .of_eq rfl
    | settled j hj hc hheld state hs errorClass error cacheSource artifacts rows hrows cache _ hf =>
      have hfinal := finalize_checkpoints hf
      exact ⟨hfinal.kept,(hfinal.mono (fun w p hp => Or.inl hp)).new⟩
  | evicted cache => exact .of_eq rfl
  | @submitted request facts rank fresh clock mid ha _ answer hd =>
    obtain ⟨schedulers,hmid,_,_⟩ := admitSubmission_ok ha
    have hsubmitted := submitted_checkpoints hd
    have hsources : ∀ w p, w = request.workspaceId ∧ p = request.pending →
        Sources db (.submitV2Build request facts rank fresh clock) w p := by
      rintro w p ⟨hw,hp⟩
      exact Or.inr ⟨request,facts,rank,fresh,clock,mid,rfl,ha,hw,hp⟩
    have hadmitted : Checkpoints (Sources db (.submitV2Build request facts rank fresh clock)) db mid :=
      .of_eq (by rw [hmid])
    exact hadmitted.trans hsubmitted hsources

/-! ## The desired state of a workspace -/

def desiredOf (db : Db) (w : WorkspaceId) : Option String :=
  (db.schedulers.get? w).bind Scheduler.desiredStateHash

theorem desired_modify (t : Table WorkspaceId Scheduler) (k : WorkspaceId) {f : Scheduler → Scheduler}
    (hf : ∀ s, (f s).desiredStateHash = s.desiredStateHash) (w : WorkspaceId) :
    ((t.modify k f).get? w).bind Scheduler.desiredStateHash =
      (t.get? w).bind Scheduler.desiredStateHash := by
  rw [Table.get?_modify]
  split
  · next hk =>
    subst hk
    cases t.get? w with
    | none => rfl
    | some s => exact hf s
  · rfl

theorem desiredOf_congr (h : db'.schedulers = db.schedulers) (w : WorkspaceId) :
    desiredOf db' w = desiredOf db w := by
  rw [desiredOf,h,desiredOf]

theorem desiredOf_settleBuild (db : Db) (id : Uuid) (build : Build) (s : Scheduler) (ok : Bool)
    (now : Timestamp) (w : WorkspaceId) :
    desiredOf (settleBuild db id build s ok now) w = desiredOf db w := by
  simp only [desiredOf,settleBuild_schedulers]
  cases db.schedulers.get? w with
  | none => rfl
  | some row =>
    simp only [Option.map_some,Option.bind_some]
    split <;> rfl

theorem desiredOf_setActive (db : Db) (k : WorkspaceId) (next : Option Uuid) (w : WorkspaceId) :
    desiredOf (setActive db k next) w = desiredOf db w := by
  refine desired_modify db.schedulers k ?_ w
  exact fun _ => rfl

theorem finalize_desired {job : JobId} {ok : Bool} {fresh : FreshIds} {clock : Clock}
    (h : finalizeV2Build db job ok fresh clock = .ok db') (w : WorkspaceId) :
    desiredOf db' w = desiredOf db w := by
  rcases finalizeV2Build_ok h with ⟨-,rfl⟩ | ⟨id,build,s,-,-,ha⟩
  · rfl
  · rcases activatePending_ok ha with ⟨-,rfl⟩ | ⟨source,mid,-,he,rfl⟩
    · rw [desiredOf_setActive,desiredOf_settleBuild]
    · rw [desiredOf_setActive,desiredOf_congr he.schedulers,desiredOf_settleBuild]

theorem finalizeFailed_desired {fresh : JobId → FreshIds} {clock : Clock} {todo : List JobId}
    (h : finalizeFailed fresh clock todo db = .ok db') (w : WorkspaceId) :
    desiredOf db' w = desiredOf db w := by
  induction todo generalizing db with
  | nil =>
    cases h
    rfl
  | cons job rest ih =>
    simp only [finalizeFailed,bind_ok] at h
    obtain ⟨mid,hm,h⟩ := h
    exact (ih h).trans (finalize_desired hm w)

theorem lockScheduler_desired {paperId : Uuid} {k : WorkspaceId}
    (h : lockScheduler db paperId k = .ok db') (w : WorkspaceId) :
    desiredOf db' w = desiredOf db w := by
  obtain ⟨schedulers,rfl,hself,hother⟩ := lockScheduler_ok h
  unfold desiredOf
  by_cases hw : w = k
  · subst hw
    rw [hself]
    cases db.schedulers.get? w <;> rfl
  · rw [hother w hw]

theorem submitted_desired {request : V2BuildRequest} {facts : SubmitFacts} {rank : Uuid → ℕ}
    {fresh : FreshIds} {clock : Clock} {answer : V2BuildSubmission}
    (h : submitV2Build db request facts rank fresh clock = .ok (db',answer)) (w : WorkspaceId) :
    desiredOf db' w = if w = request.workspaceId then some request.stateHash else desiredOf db w := by
  obtain ⟨mid,ha,hsubmitted⟩ := submitV2Build_ok h
  have hsame : desiredOf db' w = desiredOf mid w := by
    cases hsubmitted with
    | reused id row hreuse =>
      refine desired_modify _ _ ?_ w
      exact fun _ => rfl
    | joined id row j hnone hactive hh =>
      refine desired_modify _ _ ?_ w
      exact fun _ => rfl
    | parked id row j hnone hactive hh =>
      refine desired_modify _ _ ?_ w
      exact fun _ => rfl
    | started _ hnone hactive hstart =>
      obtain ⟨last,he,rfl⟩ := startBuild_ok hstart
      rw [← desiredOf_congr he.schedulers w]
      refine desired_modify _ _ ?_ w
      exact fun _ => rfl
  obtain ⟨schedulers,rfl,hself,hother⟩ := admitSubmission_ok ha
  rw [hsame]
  unfold desiredOf
  split
  · next hw =>
    subst hw
    rw [hself]
    rfl
  · next hw => rw [hother w hw]

theorem completed_desired {job : JobId} {worker : WorkerId} {fresh : FreshIds} {clock : Clock}
    (h : Completed limits job worker fresh clock db db') (w : WorkspaceId) :
    desiredOf db' w = desiredOf db w := by
  cases h with
  | cancelled j hj hc hheld hstill => rfl
  | requeued j hj hc hheld ha error => rfl
  | settled j hj hc hheld state hs errorClass error cacheSource artifacts rows hrows cache _ hf =>
    exact finalize_desired hf w

theorem step_desired (limits : QueueLimits) (db : Db) (op : QueueOp)
    (hop : ∀ request facts rank fresh clock, op ≠ .submitV2Build request facts rank fresh clock)
    (w : WorkspaceId) : desiredOf (step limits db op) w = desiredOf db w := by
  have hstep := step_stepped limits db op
  generalize step limits db op = last at hstep
  cases hstep with
  | idle => rfl
  | enqueued j hnew jobs hi => rfl
  | claimed id j hj hq leaseMillis hglobal huser => rfl
  | renewed j hj hheld leaseMillis => rfl
  | cancellationRequested j hj ho hr => rfl
  | recovered hmax todo htodo _ hf => exact finalizeFailed_desired hf w
  | completed job worker fresh clock hcompletes _ hd => exact completed_desired hd w
  | evicted cache => rfl
  | submitted mid ha _ answer hd => exact absurd rfl (hop _ _ _ _ _)

end LatexCore.Builds
