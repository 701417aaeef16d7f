import LatexCore.Foundation.Runs
import LatexCore.Papers.Recovered

/-! # Runs of the papers

Every step of the machine keeps the invariant and moves the tables forward, so
both hold along every run in which the blobs that are put have distinct digests.
-/
namespace LatexCore.Papers
open Core Foundation Workspace
variable {codec : Codec} {bytesPut : Set Bytes} {db db' : Db} {x : WorkspaceId} {w : World}

/-! ## Restorations -/

theorem applyRestoration_ok {c : Captured} {restoration : Restoration} {applied : RestorationApplied}
    (h : applyRestoration c restoration db = .ok (db',applied)) :
    ∃ actor target kind fresh head version m epoch, restoration.target db = some target ∧
      Restored db db' actor c.paperId c.workspaceId target c.exact kind fresh applied head version m
        epoch := by
  simp only [applyRestoration,bind_ok,ensure_ok,decide_eq_true_eq] at h
  obtain ⟨_,hspace,h⟩ := h
  cases restoration with
  | team leader request note fresh =>
    simp only [applyTeamRestoration,bind_ok,require_ok,pure_ok,Prod.exists,Prod.mk.injEq,
      Option.filter_eq_some_iff] at h
    obtain ⟨_,_,_,_,row,⟨hrow,_⟩,_,_,mid,_,hrestore,rfl,rfl⟩ := h
    simp only [Restoration.workspace,hrow,Option.filter_some] at hspace
    split at hspace
    · next hpaper =>
      rw [Option.map_some,Option.some.injEq] at hspace
      rw [beq_iff_eq.mp hpaper,hspace] at hrestore
      obtain ⟨head,version,m,epoch,h⟩ := applyRestore_ok hrestore
      refine ⟨leader,row.targetVersionId,.team,fresh,head,version,m,epoch,?_,?_⟩
      · rw [Restoration.target,hrow,Option.map_some]
      · exact ⟨h.found,h.current,h.targeted,h.paper,h.workspace,h.manifest,h.here,h.files,h.store,
          h.counted,h.raised,h.versions,h.schedulers,h.answer,h.personalPapers,h.paperTeams⟩
    · cases hspace
  | directTeam leader target fresh =>
    simp only [applyDirectTeamRestoration,bind_ok,require_ok,ledTeam,Option.filter_eq_some_iff] at h
    obtain ⟨_,_,team,⟨hteam,_⟩,_,_,hrestore⟩ := h
    rw [Restoration.workspace,hteam,Option.map_some,Option.some.injEq] at hspace
    rw [hspace] at hrestore
    obtain ⟨head,version,m,epoch,h⟩ := applyRestore_ok hrestore
    exact ⟨leader,target,.team,fresh,head,version,m,epoch,rfl,h⟩
  | personal writer target fresh =>
    simp only [applyPersonalRestoration,bind_ok,require_ok,Option.filter_eq_some_iff] at h
    obtain ⟨_,_,paper,⟨hpaper,_⟩,hrestore⟩ := h
    rw [Restoration.workspace,hpaper,Option.map_some,Option.some.injEq] at hspace
    rw [hspace] at hrestore
    obtain ⟨head,version,m,epoch,h⟩ := applyRestore_ok hrestore
    exact ⟨writer,target,.personal,fresh,head,version,m,epoch,rfl,h⟩

theorem Restored.versions_new {actor : UserId} {paperId target : Uuid} {safety : ExactRestoreState}
    {kind : RestoreKind} {fresh : FreshRestore} {applied : RestorationApplied} {head : HeadRow}
    {version : Queue.Version} {m : WorkspaceManifestV1} {epoch : ℕ}
    (h : Restored db db' actor paperId x target safety kind fresh applied head version m epoch) :
    (∀ id row, db.queue.versions.get? id = some row → db'.queue.versions.get? id = some row) ∧
      (∃ row, db'.queue.versions.get? applied.safetyVersionId = some row ∧
        row.versionType = .preRestoreSafety ∧ row.workspaceId = x ∧ row.manifest = safety.manifest ∧
        row.snapshotId = safety.snapshotId) ∧
      ∀ id row, db'.queue.versions.get? id = some row → db.queue.versions.get? id = some row ∨
        row.workspaceId = x ∧ (row.manifest = safety.manifest ∧ row.snapshotId = safety.snapshotId ∨
          row.snapshotId = version.snapshotId ∧ row.manifest =
            appliedManifest version.manifest (epoch + 1) (head.durableVersion + 1) target) := by
  obtain ⟨versions,hsafety,happlied⟩ := h.versions
  obtain ⟨hnone,_⟩ := Table.insert?_eq_some hsafety
  obtain ⟨hnone',_⟩ := Table.insert?_eq_some happlied
  have hget := Table.get?_insert? hsafety
  have hget' := Table.get?_insert? happlied
  have hfresh : ∀ id row, versions.get? id = some row → db'.queue.versions.get? id = some row := by
    intro id row hrow
    have hne : id ≠ fresh.applied := by
      rintro rfl
      rw [hnone'] at hrow
      cases hrow
    exact (hget' id).trans ((if_neg hne).trans hrow)
  refine ⟨?_,?_,?_⟩
  · intro id row hrow
    have hne : id ≠ fresh.safety := by
      rintro rfl
      rw [hnone] at hrow
      cases hrow
    exact hfresh id row ((hget id).trans ((if_neg hne).trans hrow))
  · rw [h.answer]
    exact ⟨_,hfresh _ _ ((hget _).trans (if_pos rfl)),rfl,rfl,rfl,rfl⟩
  · intro id row hrow
    rw [hget' id] at hrow
    split at hrow
    · cases hrow
      exact Or.inr ⟨rfl,Or.inr ⟨rfl,rfl⟩⟩
    · rw [hget id] at hrow
      split at hrow
      · cases hrow
        exact Or.inr ⟨rfl,Or.inl ⟨rfl,rfl⟩⟩
      · exact Or.inl hrow

theorem Recoverable.applied {manifest : Value} {snapshotId : SnapshotId} {m : WorkspaceManifestV1}
    (h : Recoverable codec db x manifest snapshotId m) (epoch next : ℕ) (target : Uuid) :
    Recoverable codec db x (appliedManifest manifest epoch next target) snapshotId m := by
  have hget (name : String) (hepoch : name ≠ "document_epoch") (hnext : name ≠ "source_sequence")
      (htarget : name ≠ "restored_from_version_id") :
      (appliedManifest manifest epoch next target).get? name = manifest.get? name := by
    rw [appliedManifest,Value.get?_set_of_ne htarget,Value.get?_set_of_ne hnext,
      Value.get?_set_of_ne hepoch]
  have hidentity (path : LogicalPath) : identityOf (appliedManifest manifest epoch next target) path =
      identityOf manifest path := by
    rw [identityOf,elements,hget _ (by decide) (by decide) (by decide)]
    rfl
  exact {
    workspace := by
      rw [hget _ (by decide) (by decide) (by decide)]
      exact h.workspace
    identity := h.identity
    stored := h.stored
    blob := h.blob
    covered := by
      simp only [hidentity]
      exact h.covered
    identified := by
      refine ⟨?_,?_⟩
      · simp only [hidentity]
        exact h.identified.injective
      · simp only [hidentity]
        exact h.identified.rows }

theorem Recoverable.unique {manifest : Value} {snapshotId : SnapshotId} {m m' : WorkspaceManifestV1}
    (h : Recoverable codec db x manifest snapshotId m)
    (h' : (manifest.get? "workspace").bind WorkspaceManifestV1.fromValue = some m') : m' = m := by
  rw [h.workspace,Option.bind_some,WorkspaceManifestV1.fromValue_toValue,Option.some.injEq] at h'
  exact h'.symm

/-- What a restoration of a reachable state does to the tables. -/
theorem Governed.restored (hg : Governed codec bytesPut w) {actor : UserId} {c : Captured}
    (hc : c ∈ w.captured) {target : Uuid} {kind : RestoreKind} {fresh : FreshRestore}
    {applied : RestorationApplied} {head : HeadRow} {version : Queue.Version}
    {m : WorkspaceManifestV1} {epoch : ℕ}
    (h : Restored w.db db' actor c.paperId c.workspaceId target c.exact kind fresh applied head version
      m epoch) :
    Recoverable codec w.db c.workspaceId version.manifest version.snapshotId m ∧
      Recovered codec bytesPut w.db db' c.workspaceId head.durableVersion m ∧
      Advances w.db db' ∧ Governed codec bytesPut ⟨db',w.captured⟩ := by
  obtain ⟨m',hm⟩ := hg.versions target version h.targeted
  rw [h.workspace] at hm
  obtain rfl := hm.unique h.manifest
  have hrec := h.recovered hg.sound hm
  obtain ⟨hold,_,hnew⟩ := h.versions_new
  have hadv : Advances w.db db' := by
    refine ⟨hrec.grows,hold,hrec.snapshots,hrec.kept.rows,?_⟩
    intro y hlength path id
    by_cases hy : y = c.workspaceId
    · subst hy
      have hposition := (hg.sound.integrity.durable c.workspaceId head h.found).1
      rw [hrec.length,hposition] at hlength
      exact absurd hlength (Nat.succ_ne_self _)
    · exact hrec.kept.at_other hy path id
  refine ⟨hm,hrec,hadv,?_⟩
  apply hg.advance hrec.sound hadv
  · intro id row hrow
    rcases hnew id row hrow with hsame | ⟨hspace,⟨hmanifest,hsnapshot⟩ | ⟨hsnapshot,hmanifest⟩⟩
    · exact Or.inl hsame
    · obtain ⟨m',hm'⟩ := hg.captured c hc
      rw [hspace,hmanifest,hsnapshot]
      exact Or.inr ⟨m',hm'.recoverable.advances hadv⟩
    · rw [hspace,hmanifest,hsnapshot]
      exact Or.inr ⟨_,(hm.advances hadv).applied _ _ _⟩
  · intro y p hp
    have hdesired : PendingKept w.db.queue (desireRestored w.db.queue c.workspaceId
        version.stateHash (head.durableVersion + 1)) := pendingKept_modify fun _ => Or.inr rfl
    rw [Builds.pendingOf,h.schedulers] at hp
    exact Or.inl (hdesired y p hp)
  · exact fun _ h => Or.inl h

/-! ## Steps -/

/-- A step that leaves the log, the files and the queue alone. -/
theorem Governed.untouched (hg : Governed codec bytesPut w) {captured : List Captured}
    (h : Observes codec bytesPut w.db db')
    (hcaptured : ∀ c ∈ captured, c ∈ w.captured ∨ ∃ m, CapturedAt codec db' c m) :
    Governed codec bytesPut ⟨db',captured⟩ := by
  apply hg.advance h.sound h.advances
  · intro id version hversion
    rw [h.queue] at hversion
    exact Or.inl hversion
  · intro y p hp
    rw [h.queue] at hp
    exact Or.inl hp
  · exact hcaptured

theorem Governed.put (hg : Governed codec bytesPut w) (hfree : CollisionFree codec bytesPut)
    {bytes : Bytes} (hbytes : bytes ∈ bytesPut) :
    Governed codec bytesPut (act codec w (.put bytes)) ∧
      Advances w.db (act codec w (.put bytes)).db := by
  have hobserves : Observes codec bytesPut w.db (act codec w (.put bytes)).db := by
    refine transact_cases (fun r => Observes codec bytesPut w.db { w.db with store := r.1 }) ?_ ?_
    · exact fun _ _ => ⟨hg.sound,.refl _,rfl⟩
    · intro store r hwrite
      obtain ⟨hinv,hgrows,_,_⟩ := hg.sound.integrity.put hfree hbytes hwrite
      have hobserved := observed_writeVerified hwrite
      exact ⟨hg.sound.observed hinv hobserved rfl,
        .of_store rfl hgrows (fun _ _ h => h) hobserved.snapshots,rfl⟩
  exact ⟨hg.untouched hobserves (fun _ h => Or.inl h),hobserves.advances⟩

theorem Governed.capture (hg : Governed codec bytesPut w) (hfree : CollisionFree codec bytesPut)
    {paperId : Uuid} (hput : ∀ bytes ∈ blobsPut codec w (.capture paperId), bytes ∈ bytesPut) :
    Governed codec bytesPut (act codec w (.capture paperId)) ∧
      Advances w.db (act codec w (.capture paperId)).db := by
  dsimp only [act]
  unfold capturePaper
  cases hspace : paperWorkspace w.db paperId with
  | none => exact ⟨hg,.refl _⟩
  | some x =>
    rw [blobsPut,hspace] at hput
    dsimp only at hput ⊢
    cases hcapture : captureExactV2State codec paperId x w.db with
    | mk db captured =>
      obtain ⟨hobserves,hexact⟩ := captureExactV2State_ok hg.sound hfree paperId hput hcapture
      cases captured with
      | error e => exact ⟨hg.untouched hobserves (fun _ h => Or.inl h),hobserves.advances⟩
      | ok exact =>
        refine ⟨hg.untouched hobserves ?_,hobserves.advances⟩
        intro c hc
        rcases List.mem_append.mp hc with hold | hnew
        · exact Or.inl hold
        · rw [List.mem_singleton.mp hnew]
          exact Or.inr (hexact exact rfl)

theorem Governed.request (hg : Governed codec bytesPut w) (request : Request) :
    Governed codec bytesPut (act codec w (.request request)) ∧
      Advances w.db (act codec w (.request request)).db := by
  have heffect := serveRequest_effect w.db request
  obtain ⟨hsound,hadv,hversions⟩ := heffect.sound hg.sound
  refine ⟨hg.advance hsound hadv ?_ ?_ (fun _ h => Or.inl h),hadv⟩
  · intro id version hversion
    exact Or.inl (hversions ▸ hversion)
  · exact fun y p hp => Or.inl (heffect.pending y p hp)

theorem Governed.queued (hg : Governed codec bytesPut w) {queue : Queue.Db}
    {sources : WorkspaceId → Queue.PendingBuild → Prop}
    (hcheck : Builds.Checkpoints sources w.db.queue queue)
    (hpending : ∀ y p, Builds.pendingOf queue y = some p → sources y p)
    (hsources : ∀ y p, sources y p →
      ∃ m, Recoverable codec w.db y p.manifest p.inputs.snapshotId m) :
    Governed codec bytesPut { w with db := { w.db with queue := queue } } ∧
      Advances w.db { w.db with queue := queue } := by
  have hadv : Advances w.db { w.db with queue := queue } :=
    .of_store rfl (.refl _) hcheck.kept (fun _ _ h => h)
  refine ⟨hg.advance (hg.sound.congr rfl rfl) hadv ?_ ?_ (fun _ h => Or.inl h),hadv⟩
  · intro id version hversion
    rcases hcheck.new id version hversion with hold | ⟨source,hsource,hmanifest,hsnapshot,_⟩
    · exact Or.inl hold
    · obtain ⟨m,hm⟩ := hsources _ _ hsource
      rw [hmanifest,hsnapshot]
      exact Or.inr ⟨m,hm.advances hadv⟩
  · intro y p hp
    obtain ⟨m,hm⟩ := hsources y p (hpending y p hp)
    exact Or.inr ⟨m,hm.advances hadv⟩

theorem createManualVersion_ok {paperId : Uuid} {exact : ExactRestoreState} {actor : UserId}
    {name : String} {id answer : Uuid}
    (h : createManualVersion paperId x exact actor name id db = .ok (db',answer)) :
    ∃ queue number, db' = { db with queue := queue } ∧
      db.queue.versions.insert? id ⟨paperId,x,exact.documentEpoch,number,.manualCheckpoint,actor,
        exact.workspaceVersion,exact.snapshotId,exact.manifest,exact.stateHash⟩ =
          some queue.versions ∧ ∀ y, Builds.pendingOf queue y = Builds.pendingOf db.queue y := by
  simp only [createManualVersion,bind_ok,pure_ok,Prod.mk.injEq] at h
  obtain ⟨_,_,_,_,queue,hlock,_,_,_,_,_,_,after,hinsert,rfl,rfl⟩ := h
  obtain ⟨schedulers,rfl,hself,hother⟩ := Queue.lockScheduler_ok hlock
  obtain ⟨_,versions,hversions,rfl⟩ := insertPaperVersion_ok hinsert
  refine ⟨_,_,rfl,hversions,?_⟩
  intro y
  by_cases hy : y = x
  · subst hy
    cases hs : db.queue.schedulers.get? y <;>
      simp [Builds.pendingOf,hself,hs,Queue.Scheduler.new]
  · simp [Builds.pendingOf,hother y hy]

theorem Governed.createManualVersion (hg : Governed codec bytesPut w) {c : Captured}
    (hc : c ∈ w.captured) {actor : UserId} {name : String} {id answer : Uuid}
    (h : createManualVersion c.paperId c.workspaceId c.exact actor name id w.db = .ok (db',answer)) :
    Governed codec bytesPut { w with db := db' } ∧ Advances w.db db' := by
  obtain ⟨queue,number,rfl,hversions,hpending⟩ := createManualVersion_ok h
  obtain ⟨hnone,_⟩ := Table.insert?_eq_some hversions
  have hget := Table.get?_insert? hversions
  have hadv : Advances w.db { w.db with queue := queue } := by
    refine .of_store rfl (.refl _) ?_ (fun _ _ h => h)
    intro k row hrow
    have hne : k ≠ id := by
      rintro rfl
      rw [hnone] at hrow
      cases hrow
    exact (hget k).trans ((if_neg hne).trans hrow)
  refine ⟨hg.advance (hg.sound.congr rfl rfl) hadv ?_ ?_ (fun _ h => Or.inl h),hadv⟩
  · intro k row hrow
    dsimp only at hrow
    rw [hget k] at hrow
    split at hrow
    · cases hrow
      obtain ⟨m,hm⟩ := hg.captured c hc
      exact Or.inr ⟨m,hm.recoverable.advances hadv⟩
    · exact Or.inl hrow
  · intro y p hp
    exact Or.inl ((hpending y).symm.trans hp)

theorem governed_act (hfree : CollisionFree codec bytesPut) (hg : Governed codec bytesPut w)
    {label : Label} (hput : ∀ bytes ∈ blobsPut codec w label, bytes ∈ bytesPut) :
    Governed codec bytesPut (act codec w label) ∧ Advances w.db (act codec w label).db := by
  have hidle : Governed codec bytesPut w ∧ Advances w.db w.db := ⟨hg,.refl _⟩
  cases label with
  | put bytes => exact hg.put hfree (hput bytes (List.mem_singleton_self _))
  | capture paperId => exact hg.capture hfree hput
  | request request => exact hg.request request
  | createManualVersion i actor name id =>
    dsimp only [act]
    cases hc : w.captured[i]? with
    | none => exact hidle
    | some c =>
      exact commit_cases (fun db => Governed codec bytesPut { w with db := db } ∧ Advances w.db db)
        hidle (fun _ _ h => hg.createManualVersion (List.mem_of_getElem? hc) h)
  | restore i restoration =>
    dsimp only [act]
    cases hc : w.captured[i]? with
    | none => exact hidle
    | some c =>
      refine commit_cases (fun db => Governed codec bytesPut { w with db := db } ∧ Advances w.db db)
        hidle ?_
      intro db' applied h
      obtain ⟨_,_,_,_,_,_,_,_,_,hrestored⟩ := applyRestoration_ok h
      obtain ⟨_,_,hadv,hg'⟩ := hg.restored (List.mem_of_getElem? hc) hrestored
      exact ⟨hg',hadv⟩
  | submitV2Build i tenantId userId triggerType compileKey environment facts rank fresh clock =>
    dsimp only [act]
    cases hc : w.captured[i]? with
    | none => exact hidle
    | some c =>
      let op : Queue.QueueOp := .submitV2Build
        (buildRequest c tenantId userId triggerType compileKey environment) facts rank fresh clock
      have hcheck := Builds.step_checkpoints Queue.sampleLimits w.db.queue op
      have hdescends := Builds.step_descends Queue.sampleLimits w.db.queue op
      refine hg.queued hcheck hdescends.pending ?_
      rintro y p (hp | ⟨_,_,_,_,_,_,hop,_,rfl,rfl⟩)
      · exact hg.pending y p hp
      · obtain rfl := (Queue.QueueOp.submitV2Build.inj hop).1
        obtain ⟨m,hm⟩ := hg.captured c (List.mem_of_getElem? hc)
        exact ⟨m,hm.recoverable⟩
  | queue limits op hop =>
    have hcheck := Builds.step_checkpoints limits w.db.queue op
    have hdescends := Builds.step_descends limits w.db.queue op
    refine hg.queued hcheck hdescends.pending ?_
    rintro y p (hp | ⟨_,_,_,_,_,_,hsubmits,_⟩)
    · exact hg.pending y p hp
    · rw [hsubmits] at hop
      cases hop

/-- The passing of time changes nothing else. -/
theorem Governed.tick (hg : Governed codec bytesPut w) :
    Governed codec bytesPut w.tick ∧ Advances w.db w.tick.db := by
  have hobserves : Observes codec bytesPut w.db w.tick.db :=
    ⟨hg.sound.congr rfl rfl,.of_store rfl (.refl _) (fun _ _ h => h) (fun _ _ h => h),rfl⟩
  exact ⟨hg.untouched hobserves (fun _ h => Or.inl h),hobserves.advances⟩

theorem governed_step (hfree : CollisionFree codec bytesPut) (hg : Governed codec bytesPut w)
    {label : Label} (hput : ∀ bytes ∈ blobsPut codec w label, bytes ∈ bytesPut) :
    Governed codec bytesPut (step codec w label) ∧ Advances w.db (step codec w label).db := by
  obtain ⟨hg',hadv⟩ := governed_act hfree hg hput
  obtain ⟨hg'',hadv'⟩ := hg'.tick
  exact ⟨hg'',hadv.trans hadv'⟩

/-! ## Runs -/

theorem governed_run (hfree : CollisionFree codec bytesPut) (hg : Governed codec bytesPut w)
    (labels : List Label) (hput : ∀ bytes ∈ emitted (step codec) (blobsPut codec) w labels,
      bytes ∈ bytesPut) :
    Governed codec bytesPut (run (step codec) w labels) ∧
      Advances w.db (run (step codec) w labels).db := by
  have hputs : Along (step codec) (fun v label => ∀ bytes ∈ blobsPut codec v label,
      bytes ∈ bytesPut) w labels :=
    (emitted_forall_iff (fun _ => True) (fun _ _ _ => trivial) (fun _ _ _ => Iff.rfl) trivial
      labels).mp hput
  refine hputs.invariant (fun v => Governed codec bytesPut v ∧ Advances w.db v.db) ?_ ⟨hg,.refl _⟩
  rintro v label ⟨hv,hadv⟩ hlabel
  obtain ⟨hv',hadv'⟩ := governed_step hfree hv hlabel
  exact ⟨hv',hadv.trans hadv'⟩

def bytesOf (codec : Codec) (w : World) (labels : List Label) : Set Bytes :=
  {b | b ∈ emitted (step codec) (blobsPut codec) w labels}

theorem governed_append {before after : List Label}
    (hfree : CollisionFree codec (bytesOf codec w (before ++ after)))
    (hg : Governed codec (bytesOf codec w (before ++ after)) w) :
    Governed codec (bytesOf codec w (before ++ after)) (run (step codec) w before) ∧
      Governed codec (bytesOf codec w (before ++ after)) (run (step codec) w (before ++ after)) ∧
      Advances (run (step codec) w before).db (run (step codec) w (before ++ after)).db := by
  have hputs := emitted_append (step codec) (blobsPut codec) w before after
  obtain ⟨hbefore,_⟩ := governed_run hfree hg before (by
    intro bytes hb
    change bytes ∈ emitted (step codec) (blobsPut codec) w (before ++ after)
    rw [hputs]
    exact List.mem_append_left _ hb)
  obtain ⟨hafter,hadv⟩ := governed_run hfree hbefore after (by
    intro bytes hb
    change bytes ∈ emitted (step codec) (blobsPut codec) w (before ++ after)
    rw [hputs]
    exact List.mem_append_right _ hb)
  rw [run_append]
  exact ⟨hbefore,hafter,hadv⟩

/-- A server that has just been set up. -/
def World.initial (tenants : List TenantId) (users : List UserId) (roles : Table UserId GlobalRole)
    (templates : List Uuid) (programmes : List String) (packs : List Uuid) : World :=
  ⟨.initial tenants users roles templates programmes packs,[]⟩

theorem governed_initial (tenants : List TenantId) (users : List UserId)
    (roles : Table UserId GlobalRole) (templates : List Uuid) (programmes : List String)
    (packs : List Uuid) :
    Governed codec bytesPut (.initial tenants users roles templates programmes packs) where
  sound := {
    integrity := integrity_initial true tenants users
    tracks := by
      intro y state hstate path
      obtain rfl := Checkpoint.unique hstate .zero
      constructor
      · intro h
        simp [WorkspaceState.empty] at h
      · rintro ⟨_,_,hfile,_⟩
        cases hfile
    housed := by
      intro id file hfile
      cases hfile
    headed := by
      intro y head hhead
      cases hhead }
  versions := by
    intro id version hversion
    cases hversion
  pending := by
    intro y p hp
    cases hp
  captured := by
    intro c hc
    cases hc

end LatexCore.Papers
