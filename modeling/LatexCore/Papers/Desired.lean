import LatexCore.Builds.Reuse
import LatexCore.Builds.Versions
import LatexCore.Papers.Runs

/-! # What the schedulers desire

An edit takes back the desired state of its workspace, and a submission installs
the state that it was captured with. While no submission comes too late for the
state that it carries, a scheduler desires nothing but the content of its
workspace.
-/
namespace LatexCore.Papers
open Core Foundation Workspace
open Builds (desiredOf activeOf Consistent StemsFrom)
variable {codec : Codec} {bytesPut : Set Bytes} {db db' : Db} {x : WorkspaceId} {w : World}

def content (s : Store) (x : WorkspaceId) : Option WorkspaceManifestV1 :=
  ((s.log x).foldlM replayEvent (.empty x)).toOption.bind (fun state => state.toManifest.toOption)

def contentId (codec : Codec) (s : Store) (x : WorkspaceId) : Option SnapshotId :=
  (content s x).map (manifestSnapshotId codec)

theorem toOption_eq_some {α ε : Type*} {e : Except ε α} {a : α} : e.toOption = some a ↔ e = .ok a := by
  cases e <;> simp [Except.toOption]

theorem content_eq_some {s : Store} {m : WorkspaceManifestV1} :
    content s x = some m ↔ ∃ state, HeadState s x state ∧ state.toManifest = .ok m := by
  simp only [content,Option.bind_eq_some_iff,toOption_eq_some]
  constructor
  · rintro ⟨state,hreplay,hmanifest⟩
    refine ⟨state,⟨Nat.le_refl _,?_⟩,hmanifest⟩
    rw [List.take_length]
    exact hreplay
  · rintro ⟨state,hstate,hmanifest⟩
    have hreplay := hstate.replayed
    rw [List.take_length] at hreplay
    exact ⟨state,hreplay,hmanifest⟩

theorem content_congr {s t : Store} (h : t.log x = s.log x) : content t x = content s x := by
  rw [content,h,content]

theorem contentId_congr {s t : Store} (h : t.log x = s.log x) :
    contentId codec t x = contentId codec s x := congrArg _ (content_congr h)

theorem content_eq_none {s : Store} (h : s.log x = []) : content s x = none := by
  rw [content,h]
  rfl

def DesiredCurrent (codec : Codec) (db : Db) : Prop :=
  ∀ x hash, desiredOf db.queue x = some hash →
    ∃ id, contentId codec db.store x = some id ∧ hash = id.toHex

def submitsLate (codec : Codec) (w : World) : Label → Bool
  | .submitV2Build i _ _ _ _ _ facts _ _ _ =>
    facts.paperStatus == some "active" &&
      w.captured[i]?.any (fun c => contentId codec w.db.store c.workspaceId != some c.exact.snapshotId)
  | _ => false

def restores : Label → Bool
  | .restore .. => true
  | _ => false

/-! ## Desired states -/

theorem DesiredCurrent.keep (h : DesiredCurrent codec db)
    (hlog : ∀ y, db'.store.log y = db.store.log y)
    (hdesired : ∀ y, desiredOf db'.queue y = desiredOf db.queue y) : DesiredCurrent codec db' := by
  intro y hash hhash
  rw [hdesired] at hhash
  rw [contentId_congr (hlog y)]
  exact h y hash hhash

/-- The log of one workspace grows, and its desired state is taken back. -/
theorem DesiredCurrent.edit (h : DesiredCurrent codec db)
    (hlog : ∀ y, y ≠ x → db'.store.log y = db.store.log y) (hnone : desiredOf db'.queue x = none)
    (hdesired : ∀ y, y ≠ x → desiredOf db'.queue y = desiredOf db.queue y) :
    DesiredCurrent codec db' := by
  intro y hash hhash
  by_cases hy : y = x
  · subst hy
    rw [hnone] at hhash
    cases hhash
  · rw [hdesired y hy] at hhash
    rw [contentId_congr (hlog y hy)]
    exact h y hash hhash

theorem Accepted.log_of_ne {n : ℕ} {mutation : WorkspaceMutationV1} {latest : Option ℕ}
    (h : Accepted db db' x n mutation latest) {y : WorkspaceId} (hy : y ≠ x) :
    db'.store.log y = db.store.log y := by
  rw [h.logged.log,if_neg hy,List.append_nil]

theorem desiredOf_invalidateDesired (queue : Queue.Db) (next : ℕ) (y : WorkspaceId) :
    desiredOf (invalidateDesired queue x next) y = if y = x then none else desiredOf queue y := by
  unfold desiredOf invalidateDesired
  dsimp only
  rw [Table.get?_modify]
  split
  · cases queue.schedulers.get? y <;> rfl
  · rfl

theorem Effect.desired (h : Effect db db') (hs : Sound codec bytesPut db)
    (hd : DesiredCurrent codec db) : DesiredCurrent codec db' := by
  cases h with
  | edited x h =>
    obtain ⟨_,_,_,haccepted⟩ := h.accepted hs
    obtain ⟨_,_,_,_,_,_,_,_,_,_,rfl⟩ := h.exists_edit
    refine hd.edit (fun y hy => haccepted.log_of_ne hy) ?_ ?_
    · rw [desiredOf_invalidateDesired,if_pos rfl]
    · intro y hy
      rw [desiredOf_invalidateDesired,if_neg hy]
  | founded x h =>
    obtain ⟨_,_,_,haccepted⟩ := h.accepted hs
    have hnone : desiredOf db.queue x = none := by
      cases hdesired : desiredOf db.queue x with
      | none => rfl
      | some hash =>
        obtain ⟨id,hid,-⟩ := hd x hash hdesired
        rw [contentId,content_eq_none (hs.integrity.headless x h.newHead)] at hid
        cases hid
    refine hd.edit (fun y hy => haccepted.log_of_ne hy) ?_ ?_
    · rw [h.queue,hnone]
    · intro y _
      rw [h.queue]
  | untouched h =>
    refine hd.keep ?_ ?_
    · rw [h.store]
      exact fun _ => rfl
    · rw [h.queue]
      exact fun _ => rfl

theorem captureExactV2State_log {paperId : Uuid} {captured : Except Response ExactRestoreState}
    (h : captureExactV2State codec paperId x db = (db',captured)) :
    (∀ y, db'.store.log y = db.store.log y) ∧ db'.queue = db.queue := by
  obtain ⟨_,_,hobserved,rfl⟩ := captureExactV2State_frame h
  exact ⟨fun y => hobserved.log y,rfl⟩

theorem createManualVersion_desired {paperId : Uuid} {exact : ExactRestoreState} {actor : UserId}
    {name : String} {id answer : Uuid}
    (h : createManualVersion paperId x exact actor name id db = .ok (db',answer)) :
    db'.store = db.store ∧ ∀ y, desiredOf db'.queue y = desiredOf db.queue y := by
  simp only [createManualVersion,bind_ok,pure_ok,Prod.mk.injEq] at h
  obtain ⟨_,_,_,_,queue,hlock,_,_,_,_,_,_,after,hinsert,rfl,rfl⟩ := h
  have hdesired := Builds.lockScheduler_desired hlock
  obtain ⟨_,versions,hversions,rfl⟩ := insertPaperVersion_ok hinsert
  exact ⟨rfl,hdesired⟩

theorem submitV2Build_valid {queue queue' : Queue.Db} {request : Queue.V2BuildRequest}
    {facts : Queue.SubmitFacts} {rank : Uuid → ℕ} {fresh : Queue.FreshIds} {clock : Queue.Clock}
    {answer : Queue.V2BuildSubmission}
    (h : Queue.submitV2Build queue request facts rank fresh clock = .ok (queue',answer)) :
    request.stateHash = request.inputs.snapshotId.toHex ∧ facts.paperStatus = some "active" := by
  obtain ⟨_,ha,-⟩ := Queue.submitV2Build_ok h
  simp only [Queue.admitSubmission,Queue.validateBuildRequest,Queue.requireBuildAccess,bind_ok,
    ensure_ok,require_ok,beq_iff_eq] at ha
  obtain ⟨_,⟨_,_,_,hhash,_⟩,_,⟨status,hstatus,rfl⟩,_⟩ := ha
  exact ⟨hhash,hstatus⟩

theorem DesiredCurrent.step (h : DesiredCurrent codec w.db) (hg : Governed codec bytesPut w)
    {label : Label} (hlate : submitsLate codec w label = false) (hrestores : restores label = false) :
    DesiredCurrent codec (step codec w label).db := by
  have hact : DesiredCurrent codec (act codec w label).db := by
    cases label with
    | put bytes =>
      have hlog : ∀ y, (act codec w (.put bytes)).db.store.log y = w.db.store.log y := by
        refine transact_cases (fun r => ∀ y, r.1.log y = w.db.store.log y) (fun _ _ _ => rfl) ?_
        exact fun _ _ hwrite y => (observed_writeVerified hwrite).log y
      exact h.keep hlog (fun _ => rfl)
    | capture paperId =>
      dsimp only [act]
      unfold capturePaper
      split
      · exact h
      · next y hspace =>
        cases hcapture : captureExactV2State codec paperId y w.db with
        | mk db captured =>
          obtain ⟨hlog,hqueue⟩ := captureExactV2State_log hcapture
          have hkeep : DesiredCurrent codec db := h.keep hlog (fun _ => by rw [hqueue])
          cases captured <;> exact hkeep
    | request request => exact (serveRequest_effect w.db request).desired hg.sound h
    | createManualVersion i actor name id =>
      dsimp only [act]
      split
      · exact h
      · refine commit_cases (DesiredCurrent codec) h ?_
        intro db' answer hversion
        obtain ⟨hstore,hdesired⟩ := createManualVersion_desired hversion
        exact h.keep (fun _ => by rw [hstore]) hdesired
    | restore i restoration => cases hrestores
    | submitV2Build i tenantId userId triggerType compileKey environment facts rank fresh clock =>
      dsimp only [act]
      split
      · exact h
      · next c hc =>
        refine commit_cases (fun queue => DesiredCurrent codec { w.db with queue := queue }) h ?_
        intro queue answer hsubmit
        obtain ⟨hhash,hactive⟩ := submitV2Build_valid hsubmit
        have hcurrent : contentId codec w.db.store c.workspaceId = some c.exact.snapshotId := by
          simpa [submitsLate,hc,hactive] using hlate
        intro y hash hdesired
        dsimp only at hdesired ⊢
        rw [Builds.submitted_desired hsubmit] at hdesired
        split at hdesired
        · next hy =>
          subst hy
          cases hdesired
          exact ⟨_,hcurrent,hhash⟩
        · exact h y hash hdesired
    | queue limits op hop =>
      refine h.keep (fun _ => rfl) ?_
      refine Builds.step_desired limits w.db.queue op ?_
      rintro request facts rank fresh clock rfl
      cases hop
  exact hact.keep (fun _ => rfl) (fun _ => rfl)

/-! ## Builds -/

abbrev named : Set Queue.V2BuildRequest := {r | r.stateHash = r.inputs.snapshotId.toHex}

/-- Every build is that of its job, and its state hash is the identity of the snapshot of the job. -/
structure Traced (queue : Queue.Db) : Prop where
  consistent : Consistent queue
  stems : StemsFrom named queue

theorem traced_empty : Traced .empty := ⟨Builds.unscheduled_empty.consistent,Builds.stemsFrom_empty _⟩

structure Rescheduled (queue queue' : Queue.Db) : Prop where
  builds : queue'.builds = queue.builds
  jobs : queue'.jobs = queue.jobs
  active : ∀ y, activeOf queue' y = activeOf queue y
  pending : PendingKept queue queue'

theorem Rescheduled.refl (queue : Queue.Db) : Rescheduled queue queue :=
  ⟨rfl,rfl,fun _ => rfl,fun _ _ h => h⟩

theorem Traced.rescheduled {queue queue' : Queue.Db} (h : Traced queue)
    (hkept : Rescheduled queue queue') : Traced queue' := by
  obtain ⟨hbuilds,hjobs,hactive,hpending⟩ := hkept
  constructor
  · constructor
    · rw [hbuilds]
      exact h.consistent.keyed
    · rw [hbuilds,hjobs]
      exact h.consistent.job
    · rw [hbuilds,hjobs]
      exact h.consistent.unfinished
    · rw [hbuilds,hjobs]
      exact h.consistent.settled
    · intro y s b hs hb
      have hsame := hactive y
      rw [activeOf,hs,Option.bind_some,hb,eq_comm] at hsame
      obtain ⟨s₀,hs₀,hb₀⟩ := Option.bind_eq_some_iff.mp hsame
      rw [hbuilds]
      exact h.consistent.active y s₀ b hs₀ hb₀
  · constructor
    · rw [hbuilds,hjobs]
      exact h.stems.builds
    · exact fun y p hp => h.stems.pending y p (hpending y p hp)

theorem Effect.rescheduled (h : Effect db db') : Rescheduled db.queue db'.queue := by
  have hpending := h.pending
  cases h with
  | edited x h =>
    obtain ⟨_,_,_,_,_,_,_,_,_,_,rfl⟩ := h.exists_edit
    refine ⟨rfl,rfl,?_,hpending⟩
    intro y
    unfold activeOf invalidateDesired
    dsimp only
    rw [Table.get?_modify]
    split
    · cases db.queue.schedulers.get? y <;> rfl
    · rfl
  | founded x h =>
    rw [h.queue]
    exact .refl _
  | untouched h =>
    rw [h.queue]
    exact .refl _

theorem createManualVersion_rescheduled {paperId : Uuid} {exact : ExactRestoreState} {actor : UserId}
    {name : String} {id answer : Uuid}
    (h : createManualVersion paperId x exact actor name id db = .ok (db',answer)) :
    Rescheduled db.queue db'.queue := by
  obtain ⟨queue,_,rfl,-,hpending⟩ := createManualVersion_ok h
  simp only [createManualVersion,bind_ok,pure_ok,Prod.mk.injEq] at h
  obtain ⟨_,_,_,_,locked,hlock,_,_,_,_,_,_,after,hinsert,heq,-⟩ := h
  obtain ⟨schedulers,rfl,hself,hother⟩ := Queue.lockScheduler_ok hlock
  obtain ⟨_,versions,-,rfl⟩ := insertPaperVersion_ok hinsert
  obtain rfl := congrArg Db.queue heq
  refine ⟨rfl,rfl,?_,fun y p hp => (hpending y).symm.trans hp⟩
  intro y
  unfold activeOf
  by_cases hy : y = x
  · subst hy
    rw [hself]
    cases db.queue.schedulers.get? y <;> rfl
  · rw [hother y hy]

theorem Traced.queued {queue : Queue.Db} (h : Traced queue) {limits : Queue.QueueLimits}
    {op : Queue.QueueOp} (hop : ∀ request facts rank fresh clock,
      op = .submitV2Build request facts rank fresh clock → request ∈ named) :
    Traced (Queue.step limits queue op) :=
  ⟨Builds.consistent_step limits h.consistent op,Builds.stemsFrom_step h.stems hop⟩

theorem Traced.step (h : Traced w.db.queue) {label : Label} (hrestores : restores label = false) :
    Traced (step codec w label).db.queue := by
  change Traced (act codec w label).db.queue
  cases label with
  | put bytes => exact h
  | capture paperId =>
    dsimp only [act]
    unfold capturePaper
    split
    · exact h
    · next y hspace =>
      cases hcapture : captureExactV2State codec paperId y w.db with
      | mk db captured =>
        have hqueue := (captureExactV2State_log hcapture).2
        cases captured <;> exact hqueue ▸ h
  | request request => exact h.rescheduled (serveRequest_effect w.db request).rescheduled
  | createManualVersion i actor name id =>
    dsimp only [act]
    split
    · exact h
    · refine commit_cases (fun db : Db => Traced db.queue) h ?_
      exact fun _ _ hversion => h.rescheduled (createManualVersion_rescheduled hversion)
  | restore i restoration => cases hrestores
  | submitV2Build i tenantId userId triggerType compileKey environment facts rank fresh clock =>
    dsimp only [act]
    split
    · exact h
    · next c hc =>
      dsimp only
      refine commit_cases Traced h ?_
      intro queue answer hsubmit
      have hstep : Queue.step Queue.sampleLimits w.db.queue (.submitV2Build
          (buildRequest c tenantId userId triggerType compileKey environment) facts rank fresh clock) =
            queue := by
        rw [Queue.step]
        exact commit_ok hsubmit
      rw [← hstep]
      refine h.queued ?_
      intro request facts rank fresh clock heq
      cases heq
      exact (submitV2Build_valid hsubmit).1
  | queue limits op hop =>
    refine h.queued ?_
    rintro request facts rank fresh clock rfl
    cases hop

theorem Traced.snapshot {queue : Queue.Db} (h : Traced queue) {id : Uuid} {build : Queue.Build}
    (hbuild : queue.builds.get? id = some build) {snapshotId : SnapshotId}
    (hhash : build.stateHash = snapshotId.toHex) :
    ∃ job, queue.jobs.get? build.compileJobId = some job ∧ job.inputs.snapshotId = snapshotId := by
  obtain ⟨r,hr,job,-,hsame,hjob,hinputs⟩ := h.stems.builds id build hbuild
  refine ⟨job,?_,?_⟩
  · rw [h.consistent.keyed id build hbuild]
    exact hjob
  · rw [hinputs]
    exact Digest.toHex_injective (hr.symm.trans (hsame.trans hhash))

end LatexCore.Papers
