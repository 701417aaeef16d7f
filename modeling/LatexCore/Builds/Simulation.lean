import LatexCore.Builds.Refinement

/-! # Every call simulates single-flight steps

The step lemma of each kind of call, and the simulation that collects them. The
permission to drop a build that its slot still names is needed by a call that
cancels the job of an active build alone, and the permission to clear a slot
early by a submission that reuses a build while another one is live.
-/
namespace LatexCore.Builds
open Core Foundation Queue
variable {limits : QueueLimits} {db db' : Db} {op : QueueOp} {released abandoned : Prop}

/-- What a call must show: it keeps the relations of builds and jobs, and its effect on every
workspace is a sequence of single-flight steps. -/
def Refines (released abandoned : Prop) (db db' : Db) : Prop :=
  Consistent db' ∧ ∀ v, Flight.Steps released abandoned (flight db v) (flight db' v)

theorem rows_refine (limits : QueueLimits) (op : QueueOp) (h : Consistent db) {jobs : Table JobId Job}
    {artifacts : Table ArtifactId Artifact} {cache : Table CompileKey CacheRow}
    (hrows : ∀ k, RowChange limits op (db.jobs.get? k) (jobs.get? k))
    (htodo : ∀ b row j j', db.builds.get? b = some row → db.jobs.get? b = some j →
      j.state.outstanding = true → jobs.get? b = some j' →
      j'.state.outstanding = true ∨ j'.state = .cancelled ∨ b ∈ ([] : List JobId))
    (hc : abandoned ∨ ∀ v b j j', activeOf db v = some b → db.jobs.get? b = some j →
      j.state.outstanding = true → jobs.get? b = some j' → j'.state ≠ .cancelled) :
    Refines released abandoned db { db with jobs, artifacts, cache } :=
  ⟨h.rows hrows htodo,fun v => flight_rows h hrows v (hc.imp_right (fun hkept => hkept v))⟩

theorem requestCancellation_refines {job : JobId} {reason : Option String} {clock : Clock} {j : Job}
    (h : Consistent db) (hj : db.jobs.get? job = some j) (ho : j.state.outstanding = true)
    (hr : validReason reason = true)
    (hc : CancelsActive limits db (.requestCancellation job reason clock) → abandoned) :
    Refines released abandoned db
      { db with jobs := db.jobs.modify job (fun j => j.requestCancellation reason clock.checked) } := by
  have hstate : (j.requestCancellation reason clock.checked).state =
      if j.state = .queued then .cancelled else j.state := rfl
  refine rows_refine limits (.requestCancellation job reason clock) h
    (rowChange_modify _ hj (.cancellationRequested ho)) ?_ ?_
  · intro b row j₀ j' _ hj₀ ho₀ hj'
    refine unfinished_modify hj₀ ho₀ hj' ?_
    rintro rfl
    rw [hj] at hj₀
    cases hj₀
    rw [hstate]
    split
    · exact Or.inr (Or.inl rfl)
    · exact Or.inl ho
  · by_cases hyes : abandoned
    · exact Or.inl hyes
    · right
      intro v b j₀ j' hactive hj₀ ho₀ hj'
      refine not_cancelled_modify hj₀ ho₀ hj' ?_
      rintro rfl
      rw [hj] at hj₀
      cases hj₀
      rw [hstate]
      split
      · next hq => exact absurd (hc ⟨hr,activeJob_of_activeOf h hactive,j,hj,hq⟩) hyes
      · intro hcancel
        simp [hcancel,JobState.outstanding] at ho

theorem completed_refines {job : JobId} {worker : WorkerId} {fresh : FreshIds} {clock : Clock}
    (op : QueueOp) (h : Consistent db) (hd : Completed limits job worker fresh clock db db')
    (hc : (∃ j, ActiveJob db job ∧ db.jobs.get? job = some j ∧ j.heldBy worker clock.checked = true ∧
      j.heldBy worker clock.finished = true ∧ j.cancellationRequested = true) → abandoned) :
    Refines released abandoned db db' := by
  cases hd with
  | cancelled j hj hcancel hheld hstill =>
    have hr := (heldBy_iff.mp hheld).1
    refine rows_refine limits op h
      (rowChange_modify _ hj (.finished _ _ _ _ _ hr rfl)) ?_ ?_
    · intro b row j₀ j' _ hj₀ ho₀ hj'
      exact unfinished_modify hj₀ ho₀ hj' (fun _ => Or.inr (Or.inl rfl))
    · by_cases hyes : abandoned
      · exact Or.inl hyes
      · right
        intro v b j₀ j' hactive hj₀ ho₀ hj'
        refine not_cancelled_modify hj₀ ho₀ hj' ?_
        rintro rfl
        exact absurd (hc ⟨j,activeJob_of_activeOf h hactive,hj,hheld,hstill,hcancel⟩) hyes
  | requeued j hj hcancel hheld ha error =>
    have hr := (heldBy_iff.mp hheld).1
    refine rows_refine limits op h
      (rowChange_modify _ hj (.requeued error hr ha)) ?_ (Or.inr ?_)
    · intro b row j₀ j' _ hj₀ ho₀ hj'
      exact unfinished_modify hj₀ ho₀ hj' (fun _ => Or.inl rfl)
    · intro v b j₀ j' _ hj₀ ho₀ hj'
      exact not_cancelled_modify hj₀ ho₀ hj' (fun _ => by simp [Job.requeue])
  | settled j hj hcancel hheld state hs errorClass error cacheSource artifacts rows hrows cache _ hf =>
    have hr := (heldBy_iff.mp hheld).1
    have hterminal : state.terminal = true := by rcases hs with rfl | rfl | rfl <;> rfl
    have hnc : state ≠ .cancelled := by rcases hs with rfl | rfl | rfl <;> simp
    have hchange : ∀ k, RowChange limits op (db.jobs.get? k) ((db.jobs.modify job
        (fun j => j.finish state errorClass error cacheSource clock.finished)).get? k) :=
      rowChange_modify _ hj (.finished state errorClass error cacheSource clock.finished hr hterminal)
    have hsettling : Settling [job] { db with
        jobs := db.jobs.modify job (fun j => j.finish state errorClass error cacheSource clock.finished),
        artifacts := rows, cache } := by
      refine h.rows hchange ?_
      intro b row j₀ j' _ hj₀ ho₀ hj'
      refine unfinished_modify hj₀ ho₀ hj' ?_
      rintro rfl
      exact Or.inr (Or.inr (List.mem_singleton.mpr rfl))
    have hready : Ready { db with
        jobs := db.jobs.modify job (fun j => j.finish state errorClass error cacheSource clock.finished),
        artifacts := rows, cache } job := by
      refine ⟨⟨_,by rw [Table.get?_modify_self,hj,Option.map_some],hterminal,hnc⟩,?_⟩
      intro row hrow
      exact h.unfinished job row j hrow hj (by simp [hr,JobState.outstanding])
    obtain ⟨hlast,hfinal⟩ := finalize_refines hsettling hready hf
    refine ⟨hlast,fun v => .trans (flight_rows h hchange v (Or.inr ?_)) (hfinal v)⟩
    intro b j₀ j' _ hj₀ ho₀ hj'
    exact not_cancelled_modify hj₀ ho₀ hj' (fun _ => hnc)

theorem get?_recoverRows (limits : QueueLimits) (now : Timestamp) {k : JobId} {j : Job} (hj : db.jobs.get? k = some j) :
    (recoverRows limits db now).jobs.get? k =
      some (if j.expired now then j.recover limits.maxAttempts now else j) := by
  simp [recoverRows,Table.get?_updateWhere,hj]

theorem recover_state (j : Job) (maxAttempts : ℕ) (now : Timestamp) :
    (j.recover maxAttempts now).state.outstanding = true ∨
      ((j.recover maxAttempts now).state = .cancelled ∧ j.cancellationRequested = true) ∨
      (j.recover maxAttempts now).state = .failed := by
  by_cases hc : j.cancellationRequested = true
  · exact Or.inr (Or.inl ⟨by simp [Job.recover,hc],hc⟩)
  · by_cases hb : maxAttempts ≤ j.attemptCount
    · exact Or.inr (Or.inr (by simp [Job.recover,hc,hb]))
    · exact Or.inl (by simp [Job.recover,hc,hb,JobState.outstanding])

theorem mem_failedUnfinalized (hkeyed : ∀ b row, db.builds.get? b = some row → row.compileJobId = b)
    {k : JobId} : k ∈ failedUnfinalized db ↔ ∃ j row, db.jobs.get? k = some j ∧ j.state = .failed ∧
      db.builds.get? k = some row ∧ row.status.unfinished = true := by
  simp only [failedUnfinalized,Table.mem_select,Bool.and_eq_true,beq_iff_eq]
  constructor
  · rintro ⟨j,hj,hs,hb⟩
    cases hfind : buildOf db k with
    | none => simp [hfind] at hb
    | some r =>
      obtain ⟨hrow,hkey⟩ := buildOf_some hfind
      rw [hkeyed r.1 r.2 hrow] at hkey
      exact ⟨j,r.2,hj,hs,hkey ▸ hrow,by simpa [hfind] using hb⟩
  · rintro ⟨j,row,hj,hs,hrow,hu⟩
    refine ⟨j,hj,hs,?_⟩
    cases hfind : buildOf db k with
    | none => exact absurd (hkeyed k row hrow) (buildOf_none hfind hrow)
    | some r =>
      obtain ⟨hrow',hkey⟩ := buildOf_some hfind
      rw [hkeyed r.1 r.2 hrow'] at hkey
      rw [hkey,hrow] at hrow'
      cases hrow'
      simpa using hu

theorem recoverExpiredLeases_refines {rank fresh : _} {clock : Clock} {todo : List JobId}
    (h : Consistent db) (hmax : limits.maxAttempts ≤ i32Max)
    (htodo : todo.Perm (failedUnfinalized (recoverRows limits db clock.checked)))
    (hf : finalizeFailed fresh clock todo (recoverRows limits db clock.checked) = .ok db')
    (hc : CancelsActive limits db (.recoverExpiredLeases rank fresh clock) → abandoned) :
    Refines released abandoned db db' := by
  have hkeyed : ∀ b row, (recoverRows limits db clock.checked).builds.get? b = some row →
      row.compileJobId = b := h.keyed
  have hmem : ∀ k, k ∈ todo ↔ _ := fun k => htodo.mem_iff.trans (mem_failedUnfinalized hkeyed)
  have hrows : ∀ k, RowChange limits (.recoverExpiredLeases rank fresh clock) (db.jobs.get? k)
      ((recoverRows limits db clock.checked).jobs.get? k) := rowChange_recoverRows db clock.checked
  have hsettling : Settling todo (recoverRows limits db clock.checked) := by
    refine h.rows hrows ?_
    intro b row j j' hrow hj ho hj'
    have hu := h.unfinished b row j hrow hj ho
    have hget := get?_recoverRows limits clock.checked hj
    rw [show (recoverRows limits db clock.checked).jobs.get? b = some j' from hj',
      Option.some.injEq] at hget
    split at hget
    · rcases recover_state j limits.maxAttempts clock.checked with hout | ⟨hcancel,-⟩ | hfailed
      · exact Or.inl (hget ▸ hout)
      · exact Or.inr (Or.inl (hget ▸ hcancel))
      · exact Or.inr (Or.inr ((hmem b).mpr ⟨j',row,hj',hget ▸ hfailed,hrow,hu⟩))
    · exact Or.inl (hget ▸ ho)
  have hready : ∀ job ∈ todo, Ready (recoverRows limits db clock.checked) job := by
    intro job hjob
    obtain ⟨j,row,hj,hs,hrow,hu⟩ := (hmem job).mp hjob
    refine ⟨⟨j,hj,by simp [hs,JobState.terminal,JobState.outstanding],by simp [hs]⟩,?_⟩
    intro row' hrow'
    rw [hrow] at hrow'
    cases hrow'
    exact hu
  have hnodup : todo.Nodup := htodo.nodup_iff.mpr (Table.select_nodup _ _)
  obtain ⟨hlast,hfinal⟩ := finalizeFailed_refines hsettling hnodup hready hf
  refine ⟨hlast,fun v => .trans (flight_rows h hrows v ?_) (hfinal v)⟩
  by_cases hyes : abandoned
  · exact Or.inl hyes
  · right
    intro b j j' hactive hj ho hj' hcancel
    have hget := get?_recoverRows limits clock.checked hj
    rw [show (recoverRows limits db clock.checked).jobs.get? b = some j' from hj',
      Option.some.injEq] at hget
    split at hget
    · next he =>
      rcases recover_state j limits.maxAttempts clock.checked with hout | ⟨-,hreq⟩ | hfailed
      · simp [← hget,hcancel,JobState.outstanding] at hout
      · exact hyes (hc ⟨hmax,b,j,activeJob_of_activeOf h hactive,hj,he,hreq⟩)
      · simp [← hget,hcancel] at hfailed
    · simp [← hget,hcancel,JobState.outstanding] at ho

/-- A submission reads the slot that its own update of the desired state left alone. -/
theorem admitted_refines {request : V2BuildRequest} {facts : SubmitFacts} (h : Consistent db)
    (ha : admitSubmission db request facts = .ok db') :
    Consistent db' ∧ (∀ v, flight db' v = flight db v) ∧
      ∃ s, db'.schedulers.get? request.workspaceId = some s := by
  obtain ⟨schedulers,rfl,hself,hother⟩ := admitSubmission_ok ha
  have hslot : ∀ v, (schedulers.get? v).bind Scheduler.activeBuildId = activeOf db v ∧
      (schedulers.get? v).bind Scheduler.pending = pendingOf db v := by
    intro v
    by_cases hv : v = request.workspaceId
    · subst hv
      rw [hself]
      cases hs : db.schedulers.get? request.workspaceId <;> simp [activeOf,pendingOf,hs,Scheduler.new]
    · simp [activeOf,pendingOf,hother v hv]
  refine ⟨⟨h.keyed,h.job,h.unfinished,h.settled,?_⟩,?_,_,hself⟩
  · intro w s b hs hb
    have hactive := (hslot w).1
    rw [show schedulers.get? w = some s from hs,Option.bind_some,hb] at hactive
    obtain ⟨s₀,hs₀,hb₀⟩ := Option.bind_eq_some_iff.mp hactive.symm
    exact h.active w s₀ b hs₀ hb₀
  · intro v
    ext b
    · rfl
    · simp [flight,activeOf,(hslot v).1]
    · simp [flight,pendingOf,(hslot v).2]

theorem activeBuild_eq (h : Consistent db) (w : WorkspaceId) :
    match activeBuild db w with
    | some (id,b,_) => activeOf db w = some id ∧ db.builds.get? id = some b
    | none => activeOf db w = none := by
  cases hs : db.schedulers.get? w with
  | none => simp [activeBuild,activeOf,hs]
  | some s =>
    cases ha : s.activeBuildId with
    | none => simp [activeBuild,activeOf,hs,ha]
    | some id =>
      obtain ⟨row,hrow,-⟩ := h.active w s id hs ha
      obtain ⟨j,hj,-⟩ := h.job id row hrow
      simp [activeBuild,activeOf,hs,ha,hrow,h.keyed id row hrow,hj]

theorem promoted_refines (h : Consistent db) (b : Uuid) (f : Option Timestamp → Option Timestamp) :
    Consistent { db with
      builds := db.builds.modify b (fun row => { row with promotedAt := f row.promotedAt }) } ∧
    ∀ v, flight { db with
      builds := db.builds.modify b (fun row => { row with promotedAt := f row.promotedAt }) } v =
        flight db v := by
  have hget : ∀ k row', (db.builds.modify b (fun row => { row with promotedAt := f row.promotedAt })).get? k =
      some row' → ∃ row, db.builds.get? k = some row ∧ row.compileJobId = row'.compileJobId ∧
        row.workspaceId = row'.workspaceId ∧ row.status = row'.status := by
    intro k row' hrow'
    rw [Table.get?_modify] at hrow'
    split at hrow'
    · obtain ⟨row,hrow,rfl⟩ := Option.map_eq_some_iff.mp hrow'
      exact ⟨row,hrow,rfl,rfl,rfl⟩
    · exact ⟨row',hrow',rfl,rfl,rfl⟩
  have hput : ∀ k row, db.builds.get? k = some row → ∃ row',
      (db.builds.modify b (fun row => { row with promotedAt := f row.promotedAt })).get? k = some row' ∧
        row'.workspaceId = row.workspaceId ∧ row'.status = row.status := by
    intro k row hrow
    rw [Table.get?_modify,hrow]
    split
    · exact ⟨_,rfl,rfl,rfl⟩
    · exact ⟨row,rfl,rfl,rfl⟩
  refine ⟨⟨?_,?_,?_,?_,?_⟩,?_⟩
  · intro k row' hrow'
    obtain ⟨row,hrow,hk,-,-⟩ := hget k row' hrow'
    exact hk ▸ h.keyed k row hrow
  · intro k row' hrow'
    obtain ⟨row,hrow,-,hw,-⟩ := hget k row' hrow'
    exact hw ▸ h.job k row hrow
  · intro k row' j hrow' hj ho
    obtain ⟨row,hrow,-,-,hs⟩ := hget k row' hrow'
    exact hs ▸ h.unfinished k row j hrow hj ho
  · intro k row' j hrow' hj hu
    obtain ⟨row,hrow,-,-,hs⟩ := hget k row' hrow'
    exact h.settled k row j hrow hj (hs ▸ hu)
  · intro w s k hs hk
    obtain ⟨row,hrow,hw⟩ := h.active w s k hs hk
    obtain ⟨row',hrow',hw',-⟩ := hput k row hrow
    exact ⟨row',hrow',hw'.trans hw⟩
  · intro v
    ext k
    · constructor
      · rintro ⟨row',j,hrow',hw,hu,hj,hnc⟩
        obtain ⟨row,hrow,-,hw',hs⟩ := hget k row' hrow'
        exact ⟨row,j,hrow,hw'.trans hw,hs ▸ hu,hj,hnc⟩
      · rintro ⟨row,j,hrow,hw,hu,hj,hnc⟩
        obtain ⟨row',hrow',hw',hs⟩ := hput k row hrow
        exact ⟨row',j,hrow',hw'.trans hw,hs ▸ hu,hj,hnc⟩
    · rfl
    · rfl

theorem submitted_refines {request : V2BuildRequest} {facts : SubmitFacts} {rank : Uuid → ℕ}
    {fresh : FreshIds} {clock : Clock} {answer : V2BuildSubmission} {s : Scheduler}
    (h : Consistent db) (hs : db.schedulers.get? request.workspaceId = some s)
    (hd : Submitted request facts rank fresh clock db db' answer)
    (hr : (∃ b row, db.builds.get? b = some row ∧
        reusable db request.workspaceId request.stateHash row = true) →
      released ∨ (flight db request.workspaceId).live = ∅) :
    Refines released abandoned db db' := by
  have hactive := activeBuild_eq h request.workspaceId
  have hslot : activeOf db request.workspaceId = s.activeBuildId := by simp [activeOf,hs]
  cases hd with
  | reused id row hreuse =>
    obtain ⟨hrow,hmatch⟩ := Table.best_mem hreuse
    have hcleared : Consistent { db with
        schedulers := db.schedulers.modify request.workspaceId (fun s => { s with
          pending := none, activeBuildId := none, currentBuildId := some id }) } :=
      h.modify (fun _ _ _ hn => by cases hn)
    obtain ⟨hlast,hview⟩ := promoted_refines hcleared id (fun t => some (t.getD clock.finished))
    refine ⟨hlast,fun v => ?_⟩
    have hstep : flight (clearPendingAndPromote db request.workspaceId id clock.finished) v =
        if v = request.workspaceId then ⟨(flight db v).live,none,none⟩ else flight db v :=
      (hview v).trans (flight_modify hs _ v)
    rw [hstep]
    split
    · next hv =>
      subst hv
      exact .single (.release (hr ⟨id,row,hrow,hmatch⟩))
    · exact .refl
  | joined id row j hnone ha hb =>
    refine ⟨h.modify (fun s' b hs' hb' => h.active _ s' b hs' hb'),fun v => ?_⟩
    rw [clearPending,flight_modify hs]
    split
    · next hv =>
      subst hv
      rw [← hslot]
      exact .single .unpark
    · exact .refl
  | parked id row j hnone ha hb =>
    refine ⟨h.modify (fun s' b hs' hb' => h.active _ s' b hs' hb'),fun v => ?_⟩
    rw [setPending,flight_modify hs]
    split
    · next hv =>
      subst hv
      rw [ha] at hactive
      rw [← hslot]
      have hsome : (flight db request.workspaceId).active.isSome = true := by
        simp [flight,hactive.1]
      exact .single (.park request.pending hsome)
    · exact .refl
  | started _ hnone ha hstart =>
    rw [ha] at hactive
    obtain ⟨mid,he,rfl⟩ := startBuild_ok hstart
    have hmid : mid.schedulers.get? request.workspaceId = some s := he.schedulers ▸ hs
    refine ⟨(h.enqueued he).modify ?_,fun v => ?_⟩
    · intro _ b _ hn
      cases hn
      exact ⟨snapshotBuild request.workspaceId request.paperId request.pending fresh clock.started,
        by rw [he.builds,if_pos rfl],rfl⟩
    · rw [setActiveBuild,flight_modify hmid,flight_enqueued he]
      split
      · next hv =>
        subst hv
        have hpending : (flight db request.workspaceId).pending = s.pending := by
          simp [flight,pendingOf,hs]
        rw [← hpending]
        exact .single (.start fresh.build hactive)
      · exact .refl

/-- Every call keeps the builds consistent with their jobs and is a sequence of single-flight
steps on every workspace. -/
theorem step_refines (h : Consistent db) (hr : ReleasesLive db op → released)
    (hc : CancelsActive limits db op → abandoned) :
    Refines released abandoned db (step limits db op) := by
  have hstep := step_stepped limits db op
  generalize step limits db op = last at hstep
  cases hstep with
  | idle => exact ⟨h,fun v => .refl⟩
  | @enqueued request facts clock j hnew jobs hi =>
    have hget := Table.get?_insert? hi
    have hold : ∀ b j, db.jobs.get? b = some j → jobs.get? b = some j := by
      intro b j hj
      rw [hget b,if_neg,hj]
      rintro rfl
      simp [(Table.insert?_eq_some hi).1] at hj
    refine rows_refine limits (.enqueue request facts clock) h ?_ ?_ (Or.inr ?_)
    · intro k
      rw [hget k]
      split
      · next hk =>
        rw [hk,(Table.insert?_eq_some hi).1]
        exact .new hnew
      · exact .same _
    · intro b row j₀ j' hrow hj₀ ho hj'
      rw [hold b j₀ hj₀,Option.some.injEq] at hj'
      exact Or.inl (hj' ▸ ho)
    · intro v b j₀ j' hactive hj₀ ho hj' hcancel
      rw [hold b j₀ hj₀,Option.some.injEq] at hj'
      simp [hj',hcancel,JobState.outstanding] at ho
  | claimed id j hj hq leaseMillis hglobal huser =>
    obtain ⟨hlast,hview⟩ := claimRow_refines h hj hq _ leaseMillis _
    exact ⟨hlast,fun v => by rw [hview v]⟩
  | @renewed job worker clock j hj hheld leaseMillis =>
    have hrunning := (heldBy_iff.mp hheld).1
    refine rows_refine limits (.renewLease job worker clock) h (rowChange_modify _ hj (.renewed _ _ hrunning)) ?_ (Or.inr ?_)
    · intro b row j₀ j' _ hj₀ ho hj'
      exact unfinished_modify hj₀ ho hj' (fun _ => Or.inl ho)
    · intro v b j₀ j' _ hj₀ ho hj'
      refine not_cancelled_modify hj₀ ho hj' ?_
      intro _ hcancel
      simp [show j₀.state = .cancelled from hcancel,JobState.outstanding] at ho
  | cancellationRequested j hj ho hreason =>
    exact requestCancellation_refines h hj ho hreason hc
  | recovered hmax todo htodo _ hf => exact recoverExpiredLeases_refines h hmax htodo hf hc
  | completed job worker fresh clock hop _ hd =>
    refine completed_refines op h hd ?_
    rintro ⟨j,hactive,hj,hheld,hstill,hcancel⟩
    apply hc
    cases op with
    | completeSuccess | completeCachedSuccess | completeCompileFailure |
      completeInfrastructureFailure =>
      exact ⟨job,worker,fresh,clock,j,hop,hactive,hj,hheld,hstill,hcancel⟩
    | _ => cases hop
  | evicted cache => exact ⟨⟨h.keyed,h.job,h.unfinished,h.settled,h.active⟩,fun v => .refl⟩
  | @submitted request facts rank fresh clock mid ha _ answer hd =>
    obtain ⟨hmid,hview,s,hs⟩ := admitted_refines h ha
    obtain ⟨schedulers,rfl,-,-⟩ := admitSubmission_ok ha
    have hout : Refines released abandoned _ last := submitted_refines hmid hs hd ?_
    · exact ⟨hout.1,fun v => hview v ▸ hout.2 v⟩
    · intro hreuse
      by_cases hlive : ∃ b, Live db request.workspaceId b
      · exact Or.inl (hr ⟨⟨_,ha⟩,hreuse,hlive⟩)
      · right
        rw [hview]
        apply Set.eq_empty_of_forall_notMem
        intro b hb
        exact hlive ⟨b,(live_iff h _ b).mpr hb⟩

end LatexCore.Builds
