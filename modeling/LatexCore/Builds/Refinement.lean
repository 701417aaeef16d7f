import LatexCore.Foundation.SingleFlight
import LatexCore.Queue.Invariants

/-! # The scheduler of one workspace as a single flight

The view of a workspace takes the unfinished builds whose job is not cancelled
as its items in flight and the scheduler row as its slot. Every call is a
sequence of single-flight steps on the view of every workspace.

A build and its compile job share a key. Between two calls a job that is not
terminal has an unfinished build, and an unfinished build has such a job or a
cancelled one. Inside a call the jobs that the call has finished may still wait
for the finalization of their builds; those are the jobs to do.
-/
namespace LatexCore.Builds
open Core Foundation Queue
variable {limits : QueueLimits} {db db' : Db} {op : QueueOp} {todo : List JobId}

/-! ## Builds and their jobs -/

/-- The relations between builds, jobs and active builds, up to the finalizations to do. -/
structure Settling (todo : List JobId) (db : Db) : Prop where
  keyed : ∀ b row, db.builds.get? b = some row → row.compileJobId = b
  job : ∀ b row, db.builds.get? b = some row →
    ∃ j, db.jobs.get? b = some j ∧ j.workspaceId = row.workspaceId
  unfinished : ∀ b row j, db.builds.get? b = some row → db.jobs.get? b = some j →
    j.state.outstanding = true → row.status.unfinished = true
  settled : ∀ b row j, db.builds.get? b = some row → db.jobs.get? b = some j →
    row.status.unfinished = true → j.state.outstanding = true ∨ j.state = .cancelled ∨ b ∈ todo
  active : ∀ w s b, db.schedulers.get? w = some s → s.activeBuildId = some b →
    ∃ row, db.builds.get? b = some row ∧ row.workspaceId = w

/-- Nothing is left to finalize. -/
abbrev Consistent (db : Db) : Prop := Settling [] db

/-- A job that a call has finished, whose build still waits for its finalization. -/
structure Ready (db : Db) (job : JobId) : Prop where
  row : ∃ j, db.jobs.get? job = some j ∧ j.state.terminal = true ∧ j.state ≠ .cancelled
  build : ∀ row, db.builds.get? job = some row → row.status.unfinished = true

theorem terminal_not_outstanding {s : JobState} (h : s.terminal = true) : s.outstanding = false := by
  simpa [JobState.terminal] using h

theorem Settling.rows (h : Consistent db) {jobs : Table JobId Job}
    {artifacts : Table ArtifactId Artifact} {cache : Table CompileKey CacheRow}
    (hrows : ∀ k, RowChange limits op (db.jobs.get? k) (jobs.get? k))
    (htodo : ∀ b row j j', db.builds.get? b = some row → db.jobs.get? b = some j →
      j.state.outstanding = true → jobs.get? b = some j' →
      j'.state.outstanding = true ∨ j'.state = .cancelled ∨ b ∈ todo) :
    Settling todo { db with jobs, artifacts, cache } := by
  refine ⟨h.keyed,?_,?_,?_,h.active⟩
  · intro b row hb
    obtain ⟨j,hj,hw⟩ := h.job b row hb
    obtain ⟨j',hj',hw',-⟩ := (hj ▸ hrows b).origin
    exact ⟨j',hj',hw'.trans hw⟩
  · intro b row j' hb hj' ho
    obtain ⟨j,hj,-⟩ := h.job b row hb
    apply h.unfinished b row j hb hj
    cases hs : j.state.terminal with
    | false => simpa [JobState.terminal] using hs
    | true =>
      have hsame := (hj ▸ hrows b).terminal hs
      rw [show jobs.get? b = some j' from hj'] at hsame
      cases hsame
      simp [terminal_not_outstanding hs] at ho
  · intro b row j' hb hj' hu
    obtain ⟨j,hj,-⟩ := h.job b row hb
    rcases h.settled b row j hb hj hu with ho | hc | hmem
    · exact htodo b row j j' hb hj ho hj'
    · have hsame := (hj ▸ hrows b).terminal (by simp [hc,JobState.terminal,JobState.outstanding])
      rw [show jobs.get? b = some j' from hj'] at hsame
      cases hsame
      exact Or.inr (Or.inl hc)
    · cases hmem

theorem Settling.modify (h : Settling todo db) {w : WorkspaceId} {f : Scheduler → Scheduler}
    (hf : ∀ s b, db.schedulers.get? w = some s → (f s).activeBuildId = some b →
      ∃ row, db.builds.get? b = some row ∧ row.workspaceId = w) :
    Settling todo { db with schedulers := db.schedulers.modify w f } := by
  refine ⟨h.keyed,h.job,h.unfinished,h.settled,?_⟩
  intro w' s' b hs' hb
  by_cases hw : w' = w
  · subst hw
    simp only [Table.get?_modify_self,Option.map_eq_some_iff] at hs'
    obtain ⟨s,hs,rfl⟩ := hs'
    exact hf s b hs hb
  · rw [Table.get?_modify_of_ne _ hw] at hs'
    exact h.active w' s' b hs' hb

theorem Settling.enqueued {w : WorkspaceId} {paper : Uuid} {source : PendingBuild} {fresh : FreshIds}
    {now : Timestamp} (h : Settling todo db) (he : Enqueued w paper source fresh now db db') :
    Settling todo db' := by
  have hold : ∀ b row, db.builds.get? b = some row → b ≠ fresh.build := by
    rintro b row hb rfl
    simp [he.buildFresh] at hb
  refine ⟨?_,?_,?_,?_,?_⟩
  · intro b row hb
    rw [he.builds b] at hb
    split at hb
    · next hk => cases hb; exact hk.symm
    · exact h.keyed b row hb
  · intro b row hb
    rw [he.builds b] at hb
    rw [he.jobs b]
    split at hb
    · next hk => cases hb; exact ⟨_,if_pos hk,rfl⟩
    · next hk => rw [if_neg hk]; exact h.job b row hb
  · intro b row j hb hj ho
    rw [he.builds b] at hb
    rw [he.jobs b] at hj
    split at hb
    · cases hb; rfl
    · next hk => rw [if_neg hk] at hj; exact h.unfinished b row j hb hj ho
  · intro b row j hb hj hu
    rw [he.builds b] at hb
    rw [he.jobs b] at hj
    split at hb
    · next hk => rw [if_pos hk] at hj; cases hj; exact Or.inl rfl
    · next hk => rw [if_neg hk] at hj; exact h.settled b row j hb hj hu
  · intro w' s b hs hb
    rw [he.schedulers] at hs
    obtain ⟨row,hrow,hw⟩ := h.active w' s b hs hb
    exact ⟨row,by rw [he.builds b,if_neg (hold b row hrow)]; exact hrow,hw⟩

theorem Settling.settle {job : JobId} {build : Build} {ok : Bool} {s : Scheduler} {now : Timestamp}
    (h : Settling (job :: todo) db) (hr : Ready db job) (hb : db.builds.get? job = some build) :
    Settling todo (settleBuild db job build s ok now) := by
  obtain ⟨promotedAt,hget⟩ := get?_settleBuild hb s ok now
  obtain ⟨done,hdone,hterminal,-⟩ := hr.row
  refine ⟨?_,?_,?_,?_,?_⟩
  · intro b row hrow
    rw [hget b] at hrow
    split at hrow
    · next hk => cases hrow; exact hk ▸ h.keyed job build hb
    · exact h.keyed b row hrow
  · intro b row hrow
    rw [hget b] at hrow
    rw [settleBuild_jobs]
    split at hrow
    · next hk => cases hrow; exact hk ▸ h.job job build hb
    · exact h.job b row hrow
  · intro b row j hrow hj ho
    rw [hget b] at hrow
    rw [settleBuild_jobs] at hj
    split at hrow
    · next hk =>
      subst hk
      rw [hdone] at hj
      cases hj
      simp [terminal_not_outstanding hterminal] at ho
    · exact h.unfinished b row j hrow hj ho
  · intro b row j hrow hj hu
    rw [hget b] at hrow
    rw [settleBuild_jobs] at hj
    split at hrow
    · cases hrow
      cases ok <;> cases hu
    · next hk =>
      rcases h.settled b row j hrow hj hu with ho | hc | hmem
      · exact Or.inl ho
      · exact Or.inr (Or.inl hc)
      · exact Or.inr (Or.inr ((List.mem_cons.mp hmem).resolve_left hk))
  · intro w s' b hs hactive
    rw [settleBuild_schedulers w] at hs
    obtain ⟨s₀,hs₀,heq⟩ := Option.map_eq_some_iff.mp hs
    have hold : s₀.activeBuildId = some b := by
      rw [← heq] at hactive
      split at hactive <;> exact hactive
    obtain ⟨row,hrow,hw⟩ := h.active w s₀ b hs₀ hold
    rw [hget b]
    by_cases hk : b = job
    · subst hk
      rw [hb] at hrow
      cases hrow
      exact ⟨_,if_pos rfl,hw⟩
    · exact ⟨row,by rw [if_neg hk]; exact hrow,hw⟩

/-! ## The scheduler of one workspace as a single flight -/

variable {released abandoned : Prop}

def InFlight (db : Db) (w : WorkspaceId) (b : Uuid) : Prop :=
  ∃ row j, db.builds.get? b = some row ∧ row.workspaceId = w ∧ row.status.unfinished = true ∧
    db.jobs.get? b = some j ∧ j.state ≠ .cancelled

def activeOf (db : Db) (w : WorkspaceId) : Option Uuid :=
  (db.schedulers.get? w).bind Scheduler.activeBuildId

def pendingOf (db : Db) (w : WorkspaceId) : Option PendingBuild :=
  (db.schedulers.get? w).bind Scheduler.pending

def flight (db : Db) (w : WorkspaceId) : Flight Uuid PendingBuild :=
  ⟨{b | InFlight db w b},activeOf db w,pendingOf db w⟩

theorem flight_modify {w : WorkspaceId} {s : Scheduler} (hs : db.schedulers.get? w = some s)
    (f : Scheduler → Scheduler) (v : WorkspaceId) :
    flight { db with schedulers := db.schedulers.modify w f } v =
      if v = w then ⟨(flight db v).live,(f s).activeBuildId,(f s).pending⟩ else flight db v := by
  by_cases hv : v = w
  · subst hv
    simp [flight,activeOf,pendingOf,hs,InFlight]
  · simp [flight,activeOf,pendingOf,hv,InFlight,Table.get?_modify_of_ne]

theorem flight_enqueued {w : WorkspaceId} {paper : Uuid} {source : PendingBuild} {fresh : FreshIds}
    {now : Timestamp} (he : Enqueued w paper source fresh now db db') (v : WorkspaceId) :
    flight db' v =
      if v = w then { flight db v with live := insert fresh.build (flight db v).live }
      else flight db v := by
  have hlive : ∀ b, InFlight db' v b ↔ (v = w ∧ b = fresh.build) ∨ InFlight db v b := by
    intro b
    simp only [InFlight,he.builds b,he.jobs b]
    by_cases hb : b = fresh.build
    · subst hb
      simp only [he.buildFresh,he.jobFresh,if_true]
      constructor
      · rintro ⟨row,j,hrow,hw,-,-,-⟩
        cases hrow
        exact Or.inl ⟨hw.symm,trivial⟩
      · rintro (⟨rfl,-⟩ | ⟨row,j,hrow,-⟩)
        · exact ⟨_,_,rfl,rfl,rfl,rfl,by simp [snapshotJob,Job.queued]⟩
        · cases hrow
    · simp only [if_neg hb]
      simp [hb]
  have hslot : activeOf db' v = activeOf db v ∧ pendingOf db' v = pendingOf db v := by
    simp [activeOf,pendingOf,he.schedulers]
  by_cases hv : v = w
  · subst hv
    rw [if_pos rfl]
    ext b
    · simp [flight,hlive]
    · simp [flight,hslot.1]
    · simp [flight,hslot.2]
  · rw [if_neg hv]
    ext b
    · simp [flight,hlive,hv]
    · simp [flight,hslot.1]
    · simp [flight,hslot.2]

theorem flight_settleBuild {job : JobId} {build : Build} (hb : db.builds.get? job = some build)
    (s : Scheduler) (ok : Bool) (now : Timestamp) (v : WorkspaceId) :
    flight (settleBuild db job build s ok now) v =
      { flight db v with live := (flight db v).live \ {job} } := by
  obtain ⟨promotedAt,hget⟩ := get?_settleBuild hb s ok now
  have hslot : activeOf (settleBuild db job build s ok now) v = activeOf db v ∧
      pendingOf (settleBuild db job build s ok now) v = pendingOf db v := by
    simp only [activeOf,pendingOf,settleBuild_schedulers]
    cases db.schedulers.get? v with
    | none => exact ⟨rfl,rfl⟩
    | some row =>
      simp only [Option.map_some,Option.bind_some]
      split <;> exact ⟨rfl,rfl⟩
  ext b
  · simp only [flight,Set.mem_ofPred_eq,Set.mem_sdiff,Set.mem_singleton_iff,InFlight,hget b,
      settleBuild_jobs]
    by_cases hk : b = job
    · subst hk
      simp only [if_true,not_true_eq_false,and_false,iff_false]
      rintro ⟨row,j,hrow,-,hu,-⟩
      cases hrow
      cases ok <;> cases hu
    · simp [hk]
  · simp [flight,hslot.1]
  · simp [flight,hslot.2]

theorem live_of_ne {job : JobId} {build : Build} (hb : db.builds.get? job = some build)
    {v : WorkspaceId} (hv : v ≠ build.workspaceId) : (flight db v).live \ {job} = (flight db v).live := by
  apply Set.sdiff_singleton_eq_self
  rintro ⟨row,j,hrow,hw,-⟩
  rw [hb] at hrow
  cases hrow
  exact hv hw.symm

/-- A finalization finishes the build of its job and starts what was pending behind it. -/
theorem finalize_refines {job : JobId} {ok : Bool} {fresh : FreshIds} {clock : Clock}
    (h : Settling (job :: todo) db) (hr : Ready db job)
    (hf : finalizeV2Build db job ok fresh clock = .ok db') :
    Settling todo db' ∧ ∀ v, Flight.Steps released abandoned (flight db v) (flight db' v) := by
  rcases finalizeV2Build_ok hf with ⟨hnone,rfl⟩ | ⟨id,build,s,hsome,hs,ha⟩
  · refine ⟨⟨h.keyed,h.job,h.unfinished,?_,h.active⟩,fun v => .refl⟩
    intro b row j hb hj hu
    rcases h.settled b row j hb hj hu with ho | hc | hmem
    · exact Or.inl ho
    · exact Or.inr (Or.inl hc)
    · rcases List.mem_cons.mp hmem with rfl | hmem
      · exact absurd (h.keyed b row hb) (buildOf_none hnone hb)
      · exact Or.inr (Or.inr hmem)
  · obtain ⟨hb,hkey⟩ := buildOf_some hsome
    have hid : id = job := (h.keyed id build hb).symm.trans hkey
    subst hid
    obtain ⟨done,hdone,-,hnc⟩ := hr.row
    have hlive : id ∈ (flight db build.workspaceId).live :=
      ⟨build,done,hb,rfl,hr.build build hb,hdone,hnc⟩
    have hsettled : Settling todo (settleBuild db id build s ok clock.finished) := h.settle hr hb
    have hrow : (settleBuild db id build s ok clock.finished).schedulers.get? build.workspaceId = _ :=
      settleBuild_schedulers build.workspaceId
    rw [hs,Option.map_some] at hrow
    rcases activatePending_ok ha with ⟨hp,rfl⟩ | ⟨source,mid,hp,he,rfl⟩
    · refine ⟨hsettled.modify (fun _ b _ hn => by cases hn),fun v => ?_⟩
      rw [setActive,flight_modify hrow,flight_settleBuild hb]
      split
      · next hv =>
        subst hv
        have hpending : (flight db build.workspaceId).pending = none := by simp [flight,pendingOf,hs,hp]
        exact .single (.finish id hlive hpending)
      · next hv => rw [live_of_ne hb hv]
    · have hmid := hsettled.enqueued he
      rw [← he.schedulers] at hrow
      refine ⟨hmid.modify ?_,fun v => ?_⟩
      · intro _ b _ hn
        cases hn
        exact ⟨snapshotBuild build.workspaceId s.paperId source fresh clock.started,
          by rw [he.builds,if_pos rfl],rfl⟩
      · rw [setActive,flight_modify hrow,flight_enqueued he,flight_settleBuild hb]
        by_cases hv : v = build.workspaceId
        · subst hv
          rw [if_pos rfl,if_pos rfl]
          have hpending : (flight db build.workspaceId).pending = some source := by
            simp [flight,pendingOf,hs,hp]
          exact .single (.relay id fresh.build source hlive hpending)
        · rw [if_neg hv,if_neg hv,live_of_ne hb hv]

theorem finalize_builds {job k : JobId} {ok : Bool} {fresh : FreshIds} {clock : Clock} {j : Job}
    (h : Settling (job :: todo) db) (hf : finalizeV2Build db job ok fresh clock = .ok db')
    (hk : k ≠ job) (hj : db.jobs.get? k = some j) : db'.builds.get? k = db.builds.get? k := by
  rcases finalizeV2Build_ok hf with ⟨-,rfl⟩ | ⟨id,build,s,hsome,-,ha⟩
  · rfl
  · obtain ⟨hb,hkey⟩ := buildOf_some hsome
    have hid : id = job := (h.keyed id build hb).symm.trans hkey
    subst hid
    obtain ⟨promotedAt,hget⟩ := get?_settleBuild hb s ok clock.finished
    rcases activatePending_ok ha with ⟨-,rfl⟩ | ⟨source,mid,-,he,rfl⟩
    · exact (hget k).trans (if_neg hk)
    · have hfresh : k ≠ fresh.build := by
        rintro rfl
        have hnone := he.jobFresh
        rw [settleBuild_jobs,hj] at hnone
        cases hnone
      exact (he.builds k).trans ((if_neg hfresh).trans ((hget k).trans (if_neg hk)))

theorem Ready.finalize {job k : JobId} {ok : Bool} {fresh : FreshIds} {clock : Clock}
    (h : Settling (job :: todo) db) (hf : finalizeV2Build db job ok fresh clock = .ok db')
    (hk : k ≠ job) (hr : Ready db k) : Ready db' k := by
  obtain ⟨j,hj,ht,hnc⟩ := hr.row
  refine ⟨⟨j,(finalizeV2Build_extend hf).1.kept hj,ht,hnc⟩,?_⟩
  intro row hrow
  rw [finalize_builds h hf hk hj] at hrow
  exact hr.build row hrow

theorem finalizeFailed_refines {fresh : JobId → FreshIds} {clock : Clock} (h : Settling todo db)
    (hnodup : todo.Nodup) (hr : ∀ job ∈ todo, Ready db job)
    (hf : finalizeFailed fresh clock todo db = .ok db') :
    Consistent db' ∧ ∀ v, Flight.Steps released abandoned (flight db v) (flight db' v) := by
  induction todo generalizing db with
  | nil =>
    cases hf
    exact ⟨h,fun v => .refl⟩
  | cons job rest ih =>
    simp only [finalizeFailed,bind_ok] at hf
    obtain ⟨mid,hm,hf⟩ := hf
    have hboth : Settling rest mid ∧
        ∀ v, Flight.Steps released abandoned (flight db v) (flight mid v) :=
      finalize_refines h (hr job (List.mem_cons_self ..)) hm
    obtain ⟨hmid,hfirst⟩ := hboth
    obtain ⟨hnotmem,hrest⟩ := List.nodup_cons.mp hnodup
    have hready : ∀ k ∈ rest, Ready mid k := by
      intro k hk
      have hne : k ≠ job := by
        rintro rfl
        exact hnotmem hk
      exact (hr k (List.mem_cons_of_mem _ hk)).finalize h hm hne
    obtain ⟨hlast,hmore⟩ := ih hmid hrest hready hf
    exact ⟨hlast,fun v => (hfirst v).trans (hmore v)⟩

theorem flight_rows (h : Consistent db) {jobs : Table JobId Job}
    {artifacts : Table ArtifactId Artifact} {cache : Table CompileKey CacheRow}
    (hrows : ∀ k, RowChange limits op (db.jobs.get? k) (jobs.get? k)) (v : WorkspaceId)
    (hc : abandoned ∨ ∀ b j j', activeOf db v = some b → db.jobs.get? b = some j →
      j.state.outstanding = true → jobs.get? b = some j' → j'.state ≠ .cancelled) :
    Flight.Steps released abandoned (flight db v) (flight { db with jobs, artifacts, cache } v) := by
  have hstep : abandoned ∨ ∀ b ∈ {b | InFlight db v b ∧ ∃ j', jobs.get? b = some j' ∧
      j'.state = .cancelled}, (flight db v).active ≠ some b := by
    refine hc.imp_right ?_
    rintro hkept b ⟨⟨row,j,hrow,-,hu,hj,hnc⟩,j',hj',hcancel⟩ hactive
    rcases h.settled b row j hrow hj hu with ho | hold | hmem
    · exact hkept b j j' hactive hj ho hj' hcancel
    · exact hnc hold
    · cases hmem
  have hview : flight { db with jobs, artifacts, cache } v =
      ⟨(flight db v).live \ {b | InFlight db v b ∧ ∃ j', jobs.get? b = some j' ∧ j'.state = .cancelled},
        (flight db v).active,(flight db v).pending⟩ := by
    ext b
    · simp only [flight,Set.mem_ofPred_eq,Set.mem_sdiff,not_and,not_exists]
      constructor
      · rintro ⟨row,j',hrow,hw,hu,hj',hnc⟩
        obtain ⟨j,hj,-⟩ := h.job b row hrow
        have hold : j.state ≠ .cancelled := by
          intro hcancel
          have hsame := (hj ▸ hrows b).terminal (by simp [hcancel,JobState.terminal,JobState.outstanding])
          rw [show jobs.get? b = some j' from hj'] at hsame
          cases hsame
          exact hnc hcancel
        refine ⟨⟨row,j,hrow,hw,hu,hj,hold⟩,?_⟩
        rintro - j'' hj'' hcancel
        rw [show jobs.get? b = some j' from hj'] at hj''
        cases hj''
        exact hnc hcancel
      · rintro ⟨⟨row,j,hrow,hw,hu,hj,hnc⟩,hkept⟩
        obtain ⟨j',hj',-⟩ := (hj ▸ hrows b).origin
        exact ⟨row,j',hrow,hw,hu,hj',fun hcancel => hkept ⟨row,j,hrow,hw,hu,hj,hnc⟩ j' hj' hcancel⟩
    · rfl
    · rfl
  rw [hview]
  exact .single (.abandon _ hstep)

theorem claimRow_refines (h : Consistent db) {id : JobId} {j : Job} (hj : db.jobs.get? id = some j)
    (hq : j.state = .queued) (worker : WorkerId) (leaseMillis : ℕ) (now : Timestamp) :
    Consistent (claimRow db id worker leaseMillis now) ∧
      ∀ v, flight (claimRow db id worker leaseMillis now) v = flight db v := by
  have hbuild : ∀ b, (claimRow db id worker leaseMillis now).builds.get? b =
      (db.builds.get? b).map (fun row => if b = id then { row with status := .running } else row) := by
    intro b
    simp only [claimRow,Table.get?_updateWhere]
    cases hb : db.builds.get? b with
    | none => rfl
    | some row => simp [h.keyed b row hb]
  have hjob : ∀ b, (claimRow db id worker leaseMillis now).jobs.get? b =
      if b = id then some (j.claimBy worker leaseMillis now) else db.jobs.get? b := by
    intro b
    simp only [claimRow,Table.get?_modify]
    split
    · next hb => rw [hb,hj]; rfl
    · rfl
  have hunf : ∀ row, db.builds.get? id = some row → row.status.unfinished = true :=
    fun row hrow => h.unfinished id row j hrow hj (by simp [hq,JobState.outstanding])
  refine ⟨⟨?_,?_,?_,?_,?_⟩,?_⟩
  · intro b row' hrow'
    rw [hbuild] at hrow'
    obtain ⟨row,hrow,rfl⟩ := Option.map_eq_some_iff.mp hrow'
    split <;> exact h.keyed b row hrow
  · intro b row' hrow'
    rw [hbuild] at hrow'
    rw [hjob]
    obtain ⟨row,hrow,rfl⟩ := Option.map_eq_some_iff.mp hrow'
    obtain ⟨j₀,hj₀,hw⟩ := h.job b row hrow
    split
    · next hb =>
      subst hb
      rw [hj] at hj₀
      cases hj₀
      exact ⟨_,rfl,hw⟩
    · exact ⟨j₀,hj₀,hw⟩
  · intro b row' j' hrow' hj' ho
    rw [hbuild] at hrow'
    rw [hjob] at hj'
    obtain ⟨row,hrow,rfl⟩ := Option.map_eq_some_iff.mp hrow'
    split
    · rfl
    · next hb => exact h.unfinished b row j' hrow (by simpa [hb] using hj') ho
  · intro b row' j' hrow' hj' hu
    rw [hbuild] at hrow'
    rw [hjob] at hj'
    obtain ⟨row,hrow,rfl⟩ := Option.map_eq_some_iff.mp hrow'
    by_cases hb : b = id
    · rw [if_pos hb] at hj'
      cases hj'
      exact Or.inl rfl
    · rw [if_neg hb] at hj' hu
      exact h.settled b row j' hrow hj' hu
  · intro w s b hs hb
    obtain ⟨row,hrow,hw⟩ := h.active w s b hs hb
    rw [hbuild,hrow]
    refine ⟨_,rfl,?_⟩
    dsimp only
    split <;> exact hw
  · intro v
    ext b
    · simp only [flight,Set.mem_ofPred_eq,InFlight,hbuild,hjob]
      by_cases hb : b = id
      · subst hb
        cases hrow : db.builds.get? b with
        | none => simp
        | some row =>
          have hu := hunf row hrow
          have hrunning : BuildStatus.running.unfinished = true := rfl
          simp [hj,hq,hu,hrunning,Job.claimBy]
      · simp [hb]
    · rfl
    · rfl

def ActiveJob (db : Db) (job : JobId) : Prop :=
  ∃ w s b row, db.schedulers.get? w = some s ∧ s.activeBuildId = some b ∧
    db.builds.get? b = some row ∧ row.compileJobId = job

/-- The call cancels the job of an active build: a queued job at the request, a running one at
the recovery of its lease or at its completion. -/
def CancelsActive (limits : QueueLimits) (db : Db) (op : QueueOp) : Prop :=
  match op with
  | .requestCancellation job reason _ => validReason reason = true ∧ ActiveJob db job ∧
    ∃ j, db.jobs.get? job = some j ∧ j.state = .queued
  | .recoverExpiredLeases _ _ clock => limits.maxAttempts ≤ i32Max ∧
    ∃ job j, ActiveJob db job ∧ db.jobs.get? job = some j ∧ j.expired clock.checked = true ∧
      j.cancellationRequested = true
  | op => ∃ job worker fresh clock j, op.completes = some (job,worker,fresh,clock) ∧
    ActiveJob db job ∧ db.jobs.get? job = some j ∧ j.heldBy worker clock.checked = true ∧
    j.heldBy worker clock.finished = true ∧ j.cancellationRequested = true

def Live (db : Db) (w : WorkspaceId) (b : Uuid) : Prop :=
  ∃ row j, db.builds.get? b = some row ∧ row.workspaceId = w ∧
    db.jobs.get? row.compileJobId = some j ∧ j.state.outstanding = true

instance (db : Db) (w : WorkspaceId) (b : Uuid) : Decidable (Live db w b) :=
  decidable_of_iff ((db.builds.get? b).any (fun row => row.workspaceId == w &&
    (db.jobs.get? row.compileJobId).any (fun j => j.state.outstanding)) = true) (by
      simp only [Live,Option.any_eq_true,Bool.and_eq_true,beq_iff_eq]
      constructor
      · rintro ⟨row,hrow,hw,j,hj,ho⟩
        exact ⟨row,j,hrow,hw,hj,ho⟩
      · rintro ⟨row,j,hrow,hw,hj,ho⟩
        exact ⟨row,hrow,hw,j,hj,ho⟩)

/-- The call is an admitted submission of a state that a succeeded build already has, while a
build of its workspace is live. -/
def ReleasesLive (db : Db) (op : QueueOp) : Prop :=
  match op with
  | .submitV2Build request facts _ _ _ =>
    (∃ mid, admitSubmission db request facts = .ok mid) ∧
      (∃ b row, db.builds.get? b = some row ∧
        reusable db request.workspaceId request.stateHash row = true) ∧
      ∃ b, Live db request.workspaceId b
  | _ => False

theorem live_iff (h : Consistent db) (w : WorkspaceId) (b : Uuid) : Live db w b ↔ InFlight db w b := by
  constructor
  · rintro ⟨row,j,hrow,hw,hj,ho⟩
    rw [h.keyed b row hrow] at hj
    refine ⟨row,j,hrow,hw,h.unfinished b row j hrow hj ho,hj,?_⟩
    intro hc
    simp [hc,JobState.outstanding] at ho
  · rintro ⟨row,j,hrow,hw,hu,hj,hnc⟩
    refine ⟨row,j,hrow,hw,by rw [h.keyed b row hrow]; exact hj,?_⟩
    rcases h.settled b row j hrow hj hu with ho | hc | hmem
    · exact ho
    · exact absurd hc hnc
    · cases hmem

theorem activeJob_of_activeOf (h : Consistent db) {w : WorkspaceId} {b : Uuid}
    (hactive : activeOf db w = some b) : ActiveJob db b := by
  obtain ⟨s,hs,hb⟩ := Option.bind_eq_some_iff.mp hactive
  obtain ⟨row,hrow,-⟩ := h.active w s b hs hb
  exact ⟨w,s,b,row,hs,hb,hrow,h.keyed b row hrow⟩

theorem not_cancelled_modify {t : Table JobId Job} {id b : JobId} {f : Job → Job} {j j' : Job}
    (hj : t.get? b = some j) (ho : j.state.outstanding = true) (hj' : (t.modify id f).get? b = some j')
    (hf : b = id → (f j).state ≠ .cancelled) : j'.state ≠ .cancelled := by
  by_cases hb : b = id
  · subst hb
    rw [Table.get?_modify_self,hj,Option.map_some,Option.some.injEq] at hj'
    exact hj' ▸ hf rfl
  · rw [Table.get?_modify_of_ne _ hb,hj,Option.some.injEq] at hj'
    subst hj'
    intro hc
    simp [hc,JobState.outstanding] at ho

theorem unfinished_modify {t : Table JobId Job} {id b : JobId} {f : Job → Job} {j j' : Job}
    (hj : t.get? b = some j) (ho : j.state.outstanding = true) (hj' : (t.modify id f).get? b = some j')
    (hf : b = id → (f j).state.outstanding = true ∨ (f j).state = .cancelled ∨ b ∈ todo) :
    j'.state.outstanding = true ∨ j'.state = .cancelled ∨ b ∈ todo := by
  by_cases hb : b = id
  · subst hb
    rw [Table.get?_modify_self,hj,Option.map_some,Option.some.injEq] at hj'
    exact hj' ▸ hf rfl
  · rw [Table.get?_modify_of_ne _ hb,hj,Option.some.injEq] at hj'
    subst hj'
    exact Or.inl ho

end LatexCore.Builds
