import LatexCore.Builds.Versions
import LatexCore.Papers.Restored

/-! # Sound papers

The invariant of the machine: the tables are sound, and every version, every
pending build and every captured state can be restored. It holds from the empty
tables on, and every request keeps it.
-/
namespace LatexCore.Papers
open Core Foundation Workspace Std
open Collaboration (V2FilePolicy)
variable {codec : Codec} {bytesPut : Set Bytes} {db db' : Db} {x : WorkspaceId}

/-! ## Requests -/

/-- The log, the files and the versions are left alone. -/
structure Untouched (db db' : Db) : Prop where
  store : db'.store = db.store
  files : db'.files = db.files
  queue : db'.queue = db.queue
  documentEpochs : db'.documentEpochs = db.documentEpochs

theorem Untouched.refl (db : Db) : Untouched db db := ⟨rfl,rfl,rfl,rfl⟩

/-- What a request does to the files and the logs of the workspaces. -/
inductive Effect (db db' : Db) : Prop
  | edited (x : WorkspaceId) (h : Edited db db' x)
  | founded (x : WorkspaceId) (h : Founded db db' x)
  | untouched (h : Untouched db db')

theorem effect_commit {α : Type} {t : Db → Except V2Error (Db × α)}
    (h : ∀ db' a, t db = .ok (db',a) → Effect db db') : Effect db (commit t db) :=
  commit_cases (Effect db) (.untouched (.refl db)) h

theorem untouched_commit {α : Type} {t : Db → Except V2Error (Db × α)}
    (h : ∀ db' a, t db = .ok (db',a) → Untouched db db') : Effect db (commit t db) :=
  effect_commit (fun db' a ht => .untouched (h db' a ht))

theorem serveRequest_effect (db : Db) (request : Request) : Effect db (serveRequest db request) := by
  cases request with
  | setGlobalRole user role =>
    apply untouched_commit
    intro db' u h
    simp only [setGlobalRole,bind_ok,pure_ok,Prod.mk.injEq] at h
    obtain ⟨_,_,_,_,rfl,_⟩ := h
    exact ⟨rfl,rfl,rfl,rfl⟩
  | removeGlobalRole user =>
    apply untouched_commit
    intro db' u h
    simp only [removeGlobalRole,bind_ok,pure_ok,Prod.mk.injEq] at h
    obtain ⟨_,_,_,_,_,_,_,_,rfl,_⟩ := h
    exact ⟨rfl,rfl,rfl,rfl⟩
  | createPersonalPaper owner workspaceId name id =>
    apply untouched_commit
    intro db' u h
    simp only [createPersonalPaper,bind_ok,pure_ok,Prod.mk.injEq] at h
    obtain ⟨_,_,_,_,_,_,_,_,_,_,_,hpaper,rfl,_⟩ := h
    obtain ⟨_,_,rfl⟩ := insertPersonalPaper_ok hpaper
    exact ⟨rfl,rfl,rfl,rfl⟩
  | createInitializedPersonalPaper owner tenant workspaceId name mainPath blobHash sizeBytes id fileId =>
    exact effect_commit fun db' u h => .founded workspaceId (createInitializedPersonalPaper_ok h).1
  | createPaperTeam creator workspaceId name leader id =>
    apply untouched_commit
    intro db' u h
    simp only [createPaperTeam,bind_ok,pure_ok,Prod.mk.injEq] at h
    obtain ⟨_,_,_,_,_,_,_,_,_,_,_,_,_,hteam,_,hmember,rfl,_⟩ := h
    obtain ⟨_,_,rfl⟩ := insertPaperTeam_ok hteam
    obtain ⟨_,_,rfl⟩ := insertMember_ok hmember
    exact ⟨rfl,rfl,rfl,rfl⟩
  | createInitializedPaperTeam creator tenant workspaceId name leader writers mentors mainPath blobHash
      sizeBytes id fileId =>
    exact effect_commit fun db' u h => .founded workspaceId (createInitializedPaperTeam_ok h).1
  | createTemplatePaperTeam admin tenant workspaceId name leader writers mentors templateId
      sourceIdentity mainPath files id fileId =>
    exact effect_commit fun db' u h => .founded workspaceId (createTemplatePaperTeam_ok h).1
  | setPersonalPaperStatus id status =>
    apply untouched_commit
    intro db' u h
    simp only [setPersonalPaperStatus,bind_ok,pure_ok,Prod.mk.injEq] at h
    obtain ⟨_,_,rfl,_⟩ := h
    exact ⟨rfl,rfl,rfl,rfl⟩
  | setPaperTeamStatus id status =>
    apply untouched_commit
    intro db' u h
    simp only [setPaperTeamStatus,bind_ok,pure_ok,Prod.mk.injEq] at h
    obtain ⟨_,_,_,_,rfl,_⟩ := h
    exact ⟨rfl,rfl,rfl,rfl⟩
  | addPaperTeamMember teamId userId assignedBy =>
    apply untouched_commit
    intro db' u h
    simp only [addPaperTeamMember,bind_ok,pure_ok,Prod.mk.injEq] at h
    obtain ⟨_,_,_,_,_,_,_,_,_,hmember,rfl,_⟩ := h
    obtain ⟨_,_,rfl⟩ := insertMember_ok hmember
    exact ⟨rfl,rfl,rfl,rfl⟩
  | removePaperTeamMember teamId userId removedBy =>
    apply untouched_commit
    intro db' u h
    simp only [removePaperTeamMember,bind_ok,pure_ok,Prod.mk.injEq] at h
    obtain ⟨_,_,_,_,_,_,_,_,_,_,rfl,_⟩ := h
    exact ⟨rfl,rfl,rfl,rfl⟩
  | changePaperTeamLeader teamId leader changedBy =>
    apply untouched_commit
    intro db' u h
    simp only [changePaperTeamLeader,replaceLeader,bind_ok,pure_ok,Prod.mk.injEq] at h
    obtain ⟨_,_,_,_,_,_,_,_,_,_,_,⟨_,_,rfl⟩,rfl,_⟩ := h
    exact ⟨rfl,rfl,rfl,rfl⟩
  | setFilePolicy admin paperId fileId policy =>
    apply untouched_commit
    intro db' u h
    simp only [setFilePolicy,bind_ok,pure_ok,Prod.mk.injEq] at h
    obtain ⟨_,_,_,_,_,_,_,_,rfl,_⟩ := h
    exact ⟨rfl,rfl,rfl,rfl⟩
  | createFile workspaceId actor expected path blobHash sizeBytes fresh =>
    exact effect_commit fun db' r h => .edited workspaceId (createFileWithEvent_ok h).2
  | saveFile fileId actor expected blobHash sizeBytes =>
    apply effect_commit
    intro db' r h
    obtain ⟨x,_,hedited⟩ := saveFileWithEvent_ok h
    exact .edited x hedited
  | renameFile fileId actor expected path operation =>
    apply effect_commit
    intro db' r h
    obtain ⟨x,_,hedited⟩ := renameFileWithEvent_ok h
    exact .edited x hedited
  | deleteFile fileId actor expected blobHash sizeBytes wasMain operation =>
    apply effect_commit
    intro db' r h
    obtain ⟨x,_,hedited⟩ := deleteFileWithEvent_ok h
    exact .edited x hedited
  | setMain fileId actor expected previousMain operation =>
    apply effect_commit
    intro db' r h
    obtain ⟨x,_,hedited⟩ := setMainWithEvent_ok h
    exact .edited x hedited
  | structuralUndo paperId workspaceId actor =>
    exact effect_commit fun db' r h => .edited workspaceId (applyStructuralHistory_ok h).2
  | structuralRedo paperId workspaceId actor =>
    exact effect_commit fun db' r h => .edited workspaceId (applyStructuralHistory_ok h).2
  | collaborationBatch workspaceId fileId documentEpoch inputs blobHash sizeBytes =>
    exact effect_commit fun db' r h => .edited workspaceId (persistCollaborationBatch_ok h)
  | createRestorationRequest writer paperId target reason id =>
    apply untouched_commit
    intro db' r h
    simp only [createRestorationRequest,bind_ok,pure_ok,Prod.mk.injEq] at h
    obtain ⟨_,_,_,_,_,_,_,_,_,_,rfl,_⟩ := h
    exact ⟨rfl,rfl,rfl,rfl⟩
  | leaderRejectRestoration leader request note =>
    apply untouched_commit
    intro db' r h
    simp only [leaderRejectRestoration,bind_ok,pure_ok,Prod.mk.injEq] at h
    obtain ⟨_,_,_,_,_,_,_,_,rfl,_⟩ := h
    exact ⟨rfl,rfl,rfl,rfl⟩

/-! ## Progress -/

/-- The logs, the blobs, the versions and the identity rows only grow, and the live files of a
workspace change only with its log. -/
structure Advances (db db' : Db) : Prop where
  grows : Grows db.store db'.store
  versions : ∀ id version, db.queue.versions.get? id = some version →
    db'.queue.versions.get? id = some version
  snapshots : ∀ id hash, db.store.snapshots.get? id = some hash → db'.store.snapshots.get? id = some hash
  rows : ∀ id file, db.files.get? id = some file →
    ∃ file', db'.files.get? id = some file' ∧ file'.workspaceId = file.workspaceId
  steady : ∀ y, (db'.store.log y).length = (db.store.log y).length →
    ∀ path id, db'.files.At (y,path) id ↔ db.files.At (y,path) id

theorem Advances.refl (db : Db) : Advances db db :=
  ⟨.refl _,fun _ _ h => h,fun _ _ h => h,fun _ file h => ⟨file,h,rfl⟩,fun _ _ _ _ => Iff.rfl⟩

theorem Advances.trans {db'' : Db} (h : Advances db db') (h' : Advances db' db'') : Advances db db'' where
  grows := h.grows.trans h'.grows
  versions := fun id version hv => h'.versions id version (h.versions id version hv)
  snapshots := fun id hash hs => h'.snapshots id hash (h.snapshots id hash hs)
  rows := by
    intro id file hfile
    obtain ⟨file',hfile',hspace⟩ := h.rows id file hfile
    obtain ⟨file'',hfile'',hspace'⟩ := h'.rows id file' hfile'
    exact ⟨file'',hfile'',hspace'.trans hspace⟩
  steady := by
    intro y hlength path id
    have hle := (h.grows.log y).length_le
    have hle' := (h'.grows.log y).length_le
    exact (h'.steady y (by omega) path id).trans (h.steady y (by omega) path id)

theorem Advances.of_store (hfiles : db'.files = db.files) (hgrows : Grows db.store db'.store)
    (hversions : ∀ id version, db.queue.versions.get? id = some version →
      db'.queue.versions.get? id = some version)
    (hsnapshots : ∀ id hash, db.store.snapshots.get? id = some hash →
      db'.store.snapshots.get? id = some hash) : Advances db db' where
  grows := hgrows
  versions := hversions
  snapshots := hsnapshots
  rows := by
    rw [hfiles]
    exact fun _ file h => ⟨file,h,rfl⟩
  steady := by
    rw [hfiles]
    exact fun _ _ _ _ => Iff.rfl

theorem Accepted.advances {n : ℕ} {mutation : WorkspaceMutationV1} {latest : Option ℕ}
    (h : Accepted db db' x n mutation latest) (hgrows : Grows db.store db'.store)
    (hversions : ∀ id version, db.queue.versions.get? id = some version →
      db'.queue.versions.get? id = some version) : Advances db db' where
  grows := hgrows
  versions := hversions
  snapshots := by
    rw [h.logged.snapshots]
    exact fun _ _ h => h
  rows := h.kept.rows
  steady := by
    intro y hlength path id
    by_cases hy : y = x
    · subst hy
      rw [h.logged.log,if_pos rfl,List.length_append,List.length_singleton] at hlength
      omega
    · exact h.kept.at_other hy path id

theorem Effect.sound (hs : Sound codec bytesPut db) (h : Effect db db') :
    Sound codec bytesPut db' ∧ Advances db db' ∧ db'.queue.versions = db.queue.versions := by
  cases h with
  | edited x h =>
    obtain ⟨n,mutation,latest,haccepted⟩ := h.accepted hs
    obtain ⟨hsound,hgrows⟩ := hs.accepted haccepted
    have hversions : db'.queue.versions = db.queue.versions := by
      obtain ⟨_,_,_,_,_,_,_,_,_,_,rfl⟩ := h.exists_edit
      rfl
    exact ⟨hsound,haccepted.advances hgrows (by rw [hversions]; exact fun _ _ h => h),hversions⟩
  | founded x h =>
    obtain ⟨n,mutation,latest,haccepted⟩ := h.accepted hs
    obtain ⟨hsound,hgrows⟩ := hs.accepted haccepted
    exact ⟨hsound,haccepted.advances hgrows (by rw [h.queue]; exact fun _ _ h => h),by rw [h.queue]⟩
  | untouched h =>
    refine ⟨hs.congr h.store h.files,?_,by rw [h.queue]⟩
    refine .of_store h.files (h.store ▸ .refl _) ?_ ?_
    · rw [h.queue]
      exact fun _ _ h => h
    · rw [h.store]
      exact fun _ _ h => h

/-! ## Pending builds -/

def PendingKept (queue queue' : Queue.Db) : Prop :=
  ∀ y p, Builds.pendingOf queue' y = some p → Builds.pendingOf queue y = some p

/-- An update of a scheduler row that keeps or clears its pending build. -/
theorem pendingKept_modify {queue : Queue.Db} {f : Queue.Scheduler → Queue.Scheduler}
    (hf : ∀ s, (f s).pending = s.pending ∨ (f s).pending = none) :
    PendingKept queue { queue with schedulers := queue.schedulers.modify x f } := by
  intro y p hp
  obtain ⟨s',hs',hpending⟩ := Option.bind_eq_some_iff.mp hp
  rw [Table.get?_modify] at hs'
  split at hs'
  · next hy =>
    obtain ⟨s,hs,rfl⟩ := Option.map_eq_some_iff.mp hs'
    rcases hf s with hsame | hnone
    · exact Option.bind_eq_some_iff.mpr ⟨s,hy ▸ hs,hsame ▸ hpending⟩
    · rw [hnone] at hpending
      cases hpending
  · exact Option.bind_eq_some_iff.mpr ⟨s',hs',hpending⟩

theorem Effect.pending (h : Effect db db') : PendingKept db.queue db'.queue := by
  cases h with
  | edited x h =>
    obtain ⟨_,_,_,_,_,_,_,_,_,_,rfl⟩ := h.exists_edit
    exact pendingKept_modify fun _ => Or.inr rfl
  | founded x h =>
    rw [h.queue]
    exact fun _ _ h => h
  | untouched h =>
    rw [h.queue]
    exact fun _ _ h => h

/-! ## Recorded states -/

structure Recoverable (codec : Codec) (db : Db) (x : WorkspaceId) (manifest : Value)
    (snapshotId : SnapshotId) (m : WorkspaceManifestV1) : Prop where
  workspace : manifest.get? "workspace" = some m.toValue
  identity : snapshotId = manifestSnapshotId codec m
  stored : db.store.snapshots.get? snapshotId = some snapshotId
  blob : db.store.blobs.get? snapshotId = some (canonicalJsonBytes codec m)
  covered : ∀ path, m.files.contains path = true ↔ ∃ id, identityOf manifest path = some id
  identified : Identified x manifest db.files

theorem Recoverable.advances {manifest : Value} {snapshotId : SnapshotId} {m : WorkspaceManifestV1}
    (h : Recoverable codec db x manifest snapshotId m) (hadv : Advances db db') :
    Recoverable codec db' x manifest snapshotId m where
  workspace := h.workspace
  identity := h.identity
  stored := hadv.snapshots _ _ h.stored
  blob := hadv.grows.blobs _ _ h.blob
  covered := h.covered
  identified := h.identified.kept hadv.rows

/-- While the captured state is that of the head, its identities are the live files. -/
structure CapturedAt (codec : Codec) (db : Db) (c : Captured) (m : WorkspaceManifestV1) : Prop where
  recoverable : Recoverable codec db c.workspaceId c.exact.manifest c.exact.snapshotId m
  bound : c.exact.workspaceVersion ≤ (db.store.log c.workspaceId).length
  state : ∃ state, Replayed db.store c.workspaceId c.exact.workspaceVersion state ∧
    state.toManifest = .ok m
  current : c.exact.workspaceVersion = (db.store.log c.workspaceId).length →
    ∀ path id, identityOf c.exact.manifest path = some id ↔ db.files.At (c.workspaceId,path) id

theorem CapturedAt.advances {c : Captured} {m : WorkspaceManifestV1} (h : CapturedAt codec db c m)
    (hadv : Advances db db') : CapturedAt codec db' c m where
  recoverable := h.recoverable.advances hadv
  bound := Nat.le_trans h.bound (hadv.grows.log _).length_le
  state := by
    obtain ⟨state,hstate,hmanifest⟩ := h.state
    exact ⟨state,hadv.grows.replayed hstate,hmanifest⟩
  current := by
    intro hcurrent path id
    have hle := (hadv.grows.log c.workspaceId).length_le
    have hbound := h.bound
    rw [hadv.steady c.workspaceId (by omega) path id]
    exact h.current (by omega) path id

/-- The invariant of the machine. -/
structure Governed (codec : Codec) (bytesPut : Set Bytes) (w : World) : Prop where
  sound : Sound codec bytesPut w.db
  versions : ∀ id version, w.db.queue.versions.get? id = some version →
    ∃ m, Recoverable codec w.db version.workspaceId version.manifest version.snapshotId m
  pending : ∀ x p, Builds.pendingOf w.db.queue x = some p →
    ∃ m, Recoverable codec w.db x p.manifest p.inputs.snapshotId m
  captured : ∀ c ∈ w.captured, ∃ m, CapturedAt codec w.db c m

/-- The new tables are sound and ahead of the old ones, and what is new in them can be restored. -/
theorem Governed.advance {w w' : World} (hg : Governed codec bytesPut w)
    (hsound : Sound codec bytesPut w'.db) (hadv : Advances w.db w'.db)
    (hversions : ∀ id version, w'.db.queue.versions.get? id = some version →
      w.db.queue.versions.get? id = some version ∨
        ∃ m, Recoverable codec w'.db version.workspaceId version.manifest version.snapshotId m)
    (hpending : ∀ x p, Builds.pendingOf w'.db.queue x = some p →
      Builds.pendingOf w.db.queue x = some p ∨
        ∃ m, Recoverable codec w'.db x p.manifest p.inputs.snapshotId m)
    (hcaptured : ∀ c ∈ w'.captured, c ∈ w.captured ∨ ∃ m, CapturedAt codec w'.db c m) :
    Governed codec bytesPut w' where
  sound := hsound
  versions := by
    intro id version hversion
    rcases hversions id version hversion with hold | hnew
    · obtain ⟨m,hm⟩ := hg.versions id version hold
      exact ⟨m,hm.advances hadv⟩
    · exact hnew
  pending := by
    intro x p hp
    rcases hpending x p hp with hold | hnew
    · obtain ⟨m,hm⟩ := hg.pending x p hold
      exact ⟨m,hm.advances hadv⟩
    · exact hnew
  captured := by
    intro c hc
    rcases hcaptured c hc with hold | hnew
    · obtain ⟨m,hm⟩ := hg.captured c hold
      exact ⟨m,hm.advances hadv⟩
    · exact hnew

/-! ## Blobs and captured states -/

theorem Sound.observed (hs : Sound codec bytesPut db) (hinv : Integrity codec bytesPut db'.store)
    (hobserved : Observed db.store db'.store) (hfiles : db'.files = db.files) :
    Sound codec bytesPut db' where
  integrity := hinv
  tracks := by
    intro y state hstate
    rw [HeadState,Replayed,hobserved.log] at hstate
    rw [hfiles]
    exact hs.tracks y state hstate
  housed := by
    rw [hfiles,hobserved.workspaces]
    exact hs.housed
  headed := by
    intro y head hhead
    have hsame := hobserved.durable y
    rw [hhead,Option.map_some,eq_comm,Option.map_eq_some_iff] at hsame
    obtain ⟨old,hold,_⟩ := hsame
    rw [hobserved.workspaces]
    exact hs.headed y old hold

theorem find?_reverse_key {α β : Type} [DecidableEq β] {l : List α} {f : α → β}
    (hnodup : (l.map f).Nodup) (b : β) (a : α) :
    l.reverse.find? (fun a => f a == b) = some a ↔ a ∈ l ∧ f a = b := by
  constructor
  · intro h
    exact ⟨List.mem_reverse.mp (List.mem_of_find?_eq_some h),by simpa using List.find?_some h⟩
  · rintro ⟨hmem,rfl⟩
    obtain ⟨other,hother⟩ : ∃ other, l.reverse.find? (fun c => f c == f a) = some other := by
      rw [← Option.isSome_iff_exists,List.find?_isSome]
      exact ⟨a,List.mem_reverse.mpr hmem,by simp⟩
    have hkey : f other = f a := by simpa using List.find?_some hother
    have hin := List.mem_reverse.mp (List.mem_of_find?_eq_some hother)
    rw [hother,List.inj_on_of_nodup_map hnodup hin hmem hkey]

theorem decodeIdentity_fileIdentity (r : Uuid × PaperFile) :
    decodeIdentity (fileIdentity r) = some (r.2.path.text,r.1) := by
  simp [decodeIdentity,fileIdentity,idFromValue,idToValue,Value.get?,Value.ofNat,Value.asStr?]

theorem identityOf_fileIdentities {manifest : Value} {files : List (Uuid × PaperFile)}
    (hmanifest : manifest.get? "file_identities" = some (.arr (files.map fileIdentity)))
    (hnodup : (files.map (fun r => r.2.path)).Nodup) (path : LogicalPath) (id : Uuid) :
    identityOf manifest path = some id ↔ ∃ r ∈ files, r.1 = id ∧ r.2.path = path := by
  have hdecoded : (elements manifest "file_identities").filterMap decodeIdentity =
      files.map (fun r => (r.2.path.text,r.1)) := by
    rw [elements,hmanifest,Option.bind_some,Value.asArr?_arr,Option.getD_some,List.filterMap_map]
    rw [← List.filterMap_eq_map]
    exact List.filterMap_congr fun r _ => decodeIdentity_fileIdentity r
  have htexts : ((files.map (fun r => (r.2.path.text,r.1))).map Prod.fst).Nodup := by
    rw [List.map_map]
    have hsame : (Prod.fst ∘ fun r : Uuid × PaperFile => (r.2.path.text,r.1)) =
        LogicalPath.text ∘ fun r => r.2.path := rfl
    rw [hsame,← List.map_map]
    exact hnodup.map fun _ _ h => LogicalPath.text_injective h
  rw [identityOf,hdecoded,Option.map_eq_some_iff]
  constructor
  · rintro ⟨e,he,rfl⟩
    obtain ⟨hmem,hkey⟩ := (find?_reverse_key htexts path.text e).mp he
    obtain ⟨r,hr,rfl⟩ := List.mem_map.mp hmem
    exact ⟨r,hr,rfl,LogicalPath.text_injective hkey⟩
  · rintro ⟨r,hr,rfl,rfl⟩
    exact ⟨_,(find?_reverse_key htexts _ _).mpr ⟨List.mem_map_of_mem hr,rfl⟩,rfl⟩

theorem identityOf_exactManifest (db : Db) (paperId : Uuid) (x : WorkspaceId) (epoch : ℕ)
    (checkpoint : WorkspaceCheckpoint) (m : WorkspaceManifestV1) (path : LogicalPath) (id : Uuid) :
    identityOf (exactManifest db paperId x epoch checkpoint m) path = some id ↔
      db.files.At (x,path) id := by
  have hmanifest : (exactManifest db paperId x epoch checkpoint m).get? "file_identities" =
      some (.arr ((liveFiles db x).map fileIdentity)) := by
    simp [exactManifest,Value.get?]
  rw [identityOf_fileIdentities hmanifest (liveFiles_nodup db x)]
  constructor
  · rintro ⟨r,hr,rfl,rfl⟩
    obtain ⟨hfile,hlive⟩ := mem_liveFiles.mp hr
    exact ⟨r.2,hfile,hlive⟩
  · rintro ⟨file,hfile,hlive⟩
    obtain ⟨_,_,rfl⟩ := liveIndex_eq.mp hlive
    exact ⟨(id,file),mem_liveFiles.mpr ⟨hfile,hlive⟩,rfl,rfl⟩

/-- What a capture leaves behind, whether it succeeds or not. -/
structure Observes (codec : Codec) (bytesPut : Set Bytes) (db db' : Db) : Prop where
  sound : Sound codec bytesPut db'
  advances : Advances db db'
  queue : db'.queue = db.queue

theorem capturedAt_checkpoint {s : Store} (hs : Sound codec bytesPut db)
    (hlog : db.store.log x = s.log x) {paperId : Uuid} {epoch : ℕ} {checkpoint : WorkspaceCheckpoint}
    {state : WorkspaceState} {m : WorkspaceManifestV1} {hash : String}
    (hc : Checkpointed codec s db.store x checkpoint state m) :
    CapturedAt codec db ⟨paperId,x,epoch,checkpoint.workspaceVersion,checkpoint.snapshotId,
      exactManifest db paperId x epoch checkpoint m,hash⟩ m := by
  have hversion : checkpoint.workspaceVersion = (db.store.log x).length :=
    Nat.le_antisymm hc.replayed.bound (hlog ▸ hc.latest)
  have hhead : HeadState db.store x state := by
    rw [HeadState,← hversion]
    exact hc.replayed
  have hfiles := (toManifest_ok.mp hc.taken).2
  have hidentity := identityOf_exactManifest db paperId x epoch checkpoint m
  exact {
    recoverable := {
      workspace := by simp [exactManifest,Value.get?]
      identity := hc.identity
      stored := hc.stored
      blob := hc.blob
      covered := by
        intro path
        have hcontains : m.files.contains path = state.files.contains path := by
          rw [hfiles,manifestFiles,ExtTreeMap.contains_map]
        rw [hcontains,hs.tracks x state hhead path]
        exact exists_congr (fun id => (hidentity path id).symm)
      identified := by
        refine ⟨?_,?_⟩
        · intro p q id hp hq
          have hkey := Indexed.At.key_unique ((hidentity p id).mp hp) ((hidentity q id).mp hq)
          exact congrArg Prod.snd hkey
        · intro p id hp
          obtain ⟨file,hfile,hlive⟩ := (hidentity p id).mp hp
          exact ⟨file,hfile,(liveIndex_eq.mp hlive).2.1⟩ }
    bound := hc.replayed.bound
    state := ⟨state,hc.replayed,hc.taken⟩
    current := fun _ => hidentity }

theorem captureExactV2State_ok (hs : Sound codec bytesPut db) (hfree : CollisionFree codec bytesPut)
    (paperId : Uuid) (hput : ∀ bytes ∈ ((forceSnapshot codec x).run.requests (serve codec)
      db.store).filterMap Call.puts, bytes ∈ bytesPut) {captured : Except Response ExactRestoreState}
    (h : captureExactV2State codec paperId x db = (db',captured)) :
    Observes codec bytesPut db db' ∧
      ∀ exact, captured = .ok exact → ∃ m, CapturedAt codec db' ⟨paperId,x,exact⟩ m := by
  unfold captureExactV2State at h
  split at h
  · cases hrun : (forceSnapshot codec x).run.alone (serve codec) db.store with
    | mk store r =>
      obtain ⟨hinv,hgrows,hobserved,hpost⟩ := forceSnapshot_alone hfree hs.integrity hput hrun
      dsimp only [paperDocumentEpoch] at h
      rw [hrun,Prod.mk.injEq] at h
      obtain ⟨rfl,rfl⟩ := h
      have hsound : Sound codec bytesPut { db with
          documentEpochs := (insertOrKeep db.documentEpochs x 1).1
          store := store } := hs.observed hinv hobserved rfl
      refine ⟨⟨hsound,.of_store rfl hgrows (fun _ _ h => h) hobserved.snapshots,rfl⟩,?_⟩
      intro exact hexact
      simp only [bind_ok,mapError_ok,require_ok,pure_ok] at hexact
      obtain ⟨checkpoint,hcheckpoint,bytes,hbytes,m,hm,rfl⟩ := hexact
      obtain ⟨state,manifest,hc⟩ := hpost checkpoint hcheckpoint
      have hsame : m = manifest := by
        simp only [getBlob,bind_ok,require_ok,ensure_ok,pure_ok] at hbytes
        obtain ⟨data,hdata,_,_,rfl⟩ := hbytes
        rw [hc.manifestBlob,hc.blob,Option.some.injEq] at hdata
        rw [← hdata,canonicalJsonBytes,codec.fromSlice_toVec,Option.bind_some,
          WorkspaceManifestV1.fromValue_toValue,Option.some.injEq] at hm
        exact hm.symm
      subst hsame
      exact ⟨m,capturedAt_checkpoint hsound (hobserved.log x) hc⟩
  · cases h
    refine ⟨⟨hs,.refl db,rfl⟩,?_⟩
    intro exact hexact
    cases hexact

end LatexCore.Papers
