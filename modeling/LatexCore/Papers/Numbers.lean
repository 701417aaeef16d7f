import LatexCore.Foundation.Numbering
import LatexCore.Papers.Served

/-! # Numbers of the versions

Manual versions, the two versions of a restoration and the checkpoints of the builds take their
number from the same table, each in a transaction of its own. In every run the versions of a
workspace are numbered without a gap and without a repetition.
-/
namespace LatexCore.Papers
open Core Foundation Workspace
variable {db db' : Db} {x : WorkspaceId}

/-- New versions, each under the next number of its workspace. -/
abbrev Recorded (queue queue' : Queue.Db) : Prop :=
  Issued Queue.Version.workspaceId Queue.Version.versionNumber queue.versions queue'.versions

/-! ## Checkpoints -/

section Checkpoints
open Queue
variable {queue queue' : Queue.Db}

theorem enqueueSnapshot_recorded {workspace : WorkspaceId} {paperId : Uuid} {source : PendingBuild}
    {fresh : FreshIds} {now : Timestamp}
    (h : enqueueSnapshot queue workspace paperId source fresh now = .ok queue') : Recorded queue queue' := by
  simp only [enqueueSnapshot,bind_ok] at h
  obtain ⟨_,h₁,_,h₂,h₃⟩ := h
  obtain ⟨jobs,_,rfl⟩ := insertJob_ok h₁
  obtain ⟨versions,hversions,rfl⟩ := insertVersion_ok h₂
  obtain ⟨builds,_,rfl⟩ := insertBuild_ok h₃
  exact .issue _ _ .refl rfl hversions

theorem finalizeV2Build_recorded {job : JobId} {ok : Bool} {fresh : FreshIds} {clock : Clock}
    (h : finalizeV2Build queue job ok fresh clock = .ok queue') : Recorded queue queue' := by
  rcases finalizeV2Build_ok h with ⟨_,rfl⟩ | ⟨id,build,s,_,_,ha⟩
  · exact .refl
  · have hsettled : Recorded queue (settleBuild queue id build s ok clock.finished) :=
      .of_eq (Builds.settleBuild_versions ..)
    unfold activatePending at ha
    split at ha
    · simp only [bind_ok,mapError_ok,pure_ok] at ha
      obtain ⟨mid,hmid,rfl⟩ := ha
      have hmid := enqueueSnapshot_recorded hmid
      exact hsettled.trans hmid
    · cases ha
      exact hsettled

theorem finalizeFailed_recorded {fresh : JobId → FreshIds} {clock : Clock} {todo : List JobId}
    (h : finalizeFailed fresh clock todo queue = .ok queue') : Recorded queue queue' := by
  induction todo generalizing queue with
  | nil =>
    cases h
    exact .refl
  | cons job rest ih =>
    simp only [finalizeFailed,bind_ok] at h
    obtain ⟨mid,hmid,h⟩ := h
    exact (finalizeV2Build_recorded hmid).trans (ih h)

theorem queue_step_recorded (limits : QueueLimits) (queue : Queue.Db) (op : QueueOp) :
    Recorded queue (Queue.step limits queue op) := by
  have hstep := step_stepped limits queue op
  generalize Queue.step limits queue op = last at hstep
  cases hstep with
  | idle | enqueued | claimed | renewed | cancellationRequested | evicted => exact .refl
  | recovered hmax todo htodo _ hf =>
    have hfailed := finalizeFailed_recorded hf
    exact hfailed
  | completed job worker fresh clock hop _ hd =>
    cases hd with
    | cancelled | requeued => exact .refl
    | settled j hj hc hheld state hs errorClass error cacheSource artifacts rows hrows cache _ hf =>
      have hfinal := finalizeV2Build_recorded hf
      exact hfinal
  | @submitted request facts rank fresh clock mid ha _ answer hd =>
    obtain ⟨schedulers,rfl,_,_⟩ := admitSubmission_ok ha
    cases hd with
    | reused | joined | parked => exact .refl
    | started _ hnone ha hstart =>
      simp only [startBuild,bind_ok,mapError_ok,pure_ok] at hstart
      obtain ⟨_,_,_,_,_,hmid,rfl⟩ := hstart
      have hmid := enqueueSnapshot_recorded hmid
      exact hmid

end Checkpoints

/-! ## Runs -/

theorem createManualVersion_recorded {paperId : Uuid} {exact : ExactRestoreState} {actor : UserId}
    {name : String} {id answer : Uuid}
    (h : createManualVersion paperId x exact actor name id db = .ok (db',answer)) :
    Recorded db.queue db'.queue := by
  simp only [createManualVersion,bind_ok,pure_ok,Prod.mk.injEq] at h
  obtain ⟨_,_,_,_,queue,hlock,_,_,_,_,_,_,after,hinsert,rfl,_⟩ := h
  obtain ⟨schedulers,rfl,_⟩ := Queue.lockScheduler_ok hlock
  obtain ⟨_,versions,hversions,rfl⟩ := insertPaperVersion_ok hinsert
  exact .issue _ _ .refl rfl hversions

theorem applyRestoration_recorded {c : Captured} {restoration : Restoration}
    {applied : RestorationApplied} (h : applyRestoration c restoration db = .ok (db',applied)) :
    Recorded db.queue db'.queue := by
  obtain ⟨_,_,_,_,_,_,_,_,_,hrestored⟩ := applyRestoration_ok h
  obtain ⟨versions,hsafety,happlied⟩ := hrestored.versions
  have hfirst : Issued Queue.Version.workspaceId Queue.Version.versionNumber db.queue.versions versions :=
    .issue _ _ .refl rfl hsafety
  exact .issue _ _ hfirst (Table.nextNumber_insert? rfl hsafety).symm happlied

theorem step_recorded (codec : Codec) (w : World) (label : Label) :
    Recorded w.db.queue (step codec w label).db.queue := by
  have hacted := step_acted codec w label
  generalize (step codec w label).db = db at hacted
  cases hacted with
  | observed => exact .refl
  | queued _ now limits op => exact queue_step_recorded limits w.db.queue op
  | versioned i actor name id now h =>
    have hversion := createManualVersion_recorded h
    exact hversion
  | restored i restoration now hc h =>
    have hrestored := applyRestoration_recorded h
    exact hrestored
  | served request now h =>
    cases h with
    | refused | ruled | policed | asked | rejected => exact .refl
    | founded _ x actor role hopens hrole hsigned hlawful hhoused hqueue => exact .of_eq (by rw [hqueue])
    | edited _ x actor hactor hsigned hedited =>
      obtain ⟨_,_,_,_,_,_,_,_,_,_,rfl⟩ := hedited.exists_edit
      exact .refl
    | flushed x fileId documentEpoch inputs blobHash sizeBytes hflushed hedited =>
      obtain ⟨_,_,_,_,_,_,_,_,_,_,rfl⟩ := hedited.exists_edit
      exact .refl

theorem versions_gapless (codec : Codec) (tenants : List TenantId) (users : List UserId)
    (roles : Table UserId GlobalRole) (templates : List Uuid) (programmes : List String)
    (packs : List Uuid) (labels : List Label) :
    Gapless Queue.Version.workspaceId Queue.Version.versionNumber
      (run (step codec) (.initial tenants users roles templates programmes packs)
        labels).db.queue.versions :=
  run_invariant (fun w : World => Gapless Queue.Version.workspaceId Queue.Version.versionNumber
    w.db.queue.versions) (fun w label h => (step_recorded codec w label).gapless h) gapless_empty labels

end LatexCore.Papers
