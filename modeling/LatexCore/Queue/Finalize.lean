import LatexCore.Queue.Records

/-! # Finalization of a V2 build

The part of a terminal queue transition that runs for a job with a V2 build: the
build gets its final status, a success whose state is still the desired one is
promoted, and the newest pending state becomes the active build.
-/
namespace LatexCore.Queue
open Core Foundation

/-- `SELECT id,workspace_id,state_hash FROM v2_paper_builds WHERE compile_job_id=$1`. -/
def buildOf (db : Db) (job : JobId) : Option (Uuid × Build) :=
  db.builds.rows.find? (fun r => r.2.compileJobId == job)

def Build.settle (b : Build) (succeeded : Bool) : Build :=
  { b with status := if succeeded then .succeeded else .failed }

def promote (db : Db) (workspace : WorkspaceId) (build : Uuid) (now : Timestamp) : Db :=
  { db with
    schedulers := db.schedulers.modify workspace (fun s => { s with currentBuildId := some build }),
    builds := db.builds.modify build (fun b => { b with promotedAt := some now }) }

def settleBuild (db : Db) (id : Uuid) (build : Build) (scheduler : Scheduler) (succeeded : Bool)
    (now : Timestamp) : Db :=
  let db := { db with builds := db.builds.modify id (fun b => b.settle succeeded) }
  if succeeded && scheduler.desiredStateHash == some build.stateHash then
    promote db build.workspaceId id now
  else db

def setActive (db : Db) (workspace : WorkspaceId) (next : Option Uuid) : Db :=
  { db with
    schedulers := db.schedulers.modify workspace
      (fun s => { s with activeBuildId := next, pending := none }) }

/-- The newest pending state becomes the active build; without one there is none. -/
def activatePending (db : Db) (workspace : WorkspaceId) (scheduler : Scheduler) (fresh : FreshIds)
    (now : Timestamp) : Except QueueError Db :=
  match scheduler.pending with
  | some source => do
    let db ← (enqueueSnapshot db workspace scheduler.paperId source fresh now).mapError .database
    return setActive db workspace (some fresh.build)
  | none => .ok (setActive db workspace none)

def finalizeV2Build (db : Db) (job : JobId) (succeeded : Bool) (fresh : FreshIds) (clock : Clock) :
    Except QueueError Db :=
  match buildOf db job with
  | none => .ok db
  | some (id,build) => do
    let scheduler ← require (db.schedulers.get? build.workspaceId)
      (.database "v2_paper_build_state")
    activatePending (settleBuild db id build scheduler succeeded clock.finished) build.workspaceId
      scheduler fresh clock.started

theorem buildOf_some {db : Db} {job : JobId} {id : Uuid} {build : Build}
    (h : buildOf db job = some (id,build)) :
    db.builds.get? id = some build ∧ build.compileJobId = job := by
  refine ⟨Table.mem_rows_iff.mp (List.mem_of_find?_eq_some h),?_⟩
  simpa using List.find?_some h

theorem buildOf_none {db : Db} {job : JobId} (h : buildOf db job = none) {id : Uuid} {build : Build}
    (hb : db.builds.get? id = some build) : build.compileJobId ≠ job := by
  have hnot := List.find?_eq_none.mp h (id,build) (Table.mem_rows_iff.mpr hb)
  simpa using hnot

@[simp] theorem settleBuild_jobs (db : Db) (id : Uuid) (build : Build) (s : Scheduler) (ok : Bool)
    (now : Timestamp) : (settleBuild db id build s ok now).jobs = db.jobs := by
  unfold settleBuild
  dsimp only
  split <;> rfl

@[simp] theorem settleBuild_artifacts (db : Db) (id : Uuid) (build : Build) (s : Scheduler) (ok : Bool)
    (now : Timestamp) : (settleBuild db id build s ok now).artifacts = db.artifacts := by
  unfold settleBuild
  dsimp only
  split <;> rfl

theorem get?_settleBuild {db : Db} {id : Uuid} {build : Build} (hb : db.builds.get? id = some build)
    (s : Scheduler) (ok : Bool) (now : Timestamp) :
    ∃ promotedAt, ∀ k, (settleBuild db id build s ok now).builds.get? k =
      if k = id then some { build.settle ok with promotedAt } else db.builds.get? k := by
  unfold settleBuild
  dsimp only
  split
  · refine ⟨some now,fun k => ?_⟩
    by_cases hk : k = id
    · subst hk
      simp [promote,hb,Build.settle]
    · simp [promote,Table.get?_modify,hk]
  · refine ⟨build.promotedAt,fun k => ?_⟩
    by_cases hk : k = id
    · subst hk
      simp [hb,Build.settle]
    · simp [Table.get?_modify,hk]

theorem settleBuild_schedulers {db : Db} {id : Uuid} {build : Build} {s : Scheduler} {ok : Bool}
    {now : Timestamp} (w : WorkspaceId) :
    (settleBuild db id build s ok now).schedulers.get? w =
      (db.schedulers.get? w).map (fun row =>
        if w = build.workspaceId ∧ ok = true ∧ s.desiredStateHash = some build.stateHash then
          { row with currentBuildId := some id } else row) := by
  unfold settleBuild
  dsimp only
  split
  · next hc =>
    simp only [Bool.and_eq_true,beq_iff_eq] at hc
    by_cases hw : w = build.workspaceId
    · simp [promote,hw,hc.1,hc.2]
    · simp [promote,Table.get?_modify,hw]
  · next hc =>
    have hno : ¬(w = build.workspaceId ∧ ok = true ∧ s.desiredStateHash = some build.stateHash) := by
      rintro ⟨-,hok,hd⟩
      simp [hok,hd] at hc
    simp [hno]

theorem activatePending_ok {db db' : Db} {workspace : WorkspaceId} {s : Scheduler}
    {fresh : FreshIds} {now : Timestamp} (h : activatePending db workspace s fresh now = .ok db') :
    (s.pending = none ∧ db' = setActive db workspace none) ∨
      ∃ source mid, s.pending = some source ∧
        Enqueued workspace s.paperId source fresh now db mid ∧
        db' = setActive mid workspace (some fresh.build) := by
  unfold activatePending at h
  split at h
  · next source hp =>
    simp only [bind_ok,mapError_ok,pure_ok] at h
    obtain ⟨mid,hmid,rfl⟩ := h
    exact Or.inr ⟨source,mid,hp,enqueueSnapshot_ok hmid,rfl⟩
  · next hp =>
    cases h
    exact Or.inl ⟨hp,rfl⟩

theorem finalizeV2Build_ok {db db' : Db} {job : JobId} {ok : Bool} {fresh : FreshIds} {clock : Clock}
    (h : finalizeV2Build db job ok fresh clock = .ok db') :
    (buildOf db job = none ∧ db' = db) ∨
      ∃ id build s, buildOf db job = some (id,build) ∧
        db.schedulers.get? build.workspaceId = some s ∧
        activatePending (settleBuild db id build s ok clock.finished) build.workspaceId s fresh
          clock.started = .ok db' := by
  unfold finalizeV2Build at h
  split at h
  · next hn =>
    cases h
    exact Or.inl ⟨hn,rfl⟩
  · next id build hb =>
    simp only [bind_ok,require_ok] at h
    obtain ⟨s,hs,h⟩ := h
    exact Or.inr ⟨id,build,s,hb,hs,h⟩

end LatexCore.Queue
