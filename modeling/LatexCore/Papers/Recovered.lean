import LatexCore.Papers.Governed

/-! # The state after a restoration

A restoration to a version whose manifest can be recovered appends one accepted
event. The state that it leads to is that of the manifest, the live files carry
the identities of the manifest, and the snapshot that it records for the new head
is one of that state, so the tables stay sound.
-/
namespace LatexCore.Papers
open Core Foundation Workspace Std
variable {codec : Codec} {bytesPut : Set Bytes} {db db' : Db} {x : WorkspaceId} {actor : UserId}
variable {paperId target : Uuid} {safety : ExactRestoreState} {kind : RestoreKind}
variable {fresh : FreshRestore} {applied : RestorationApplied} {head : HeadRow}
variable {version : Queue.Version} {m : WorkspaceManifestV1} {epoch : ℕ}

theorem recordRestoredSnapshot_ok {s t : Store} {next : ℕ} {snapshotId : SnapshotId}
    (h : recordRestoredSnapshot s x next snapshotId = .ok t) :
    ∃ workspaceSnapshots, s.workspaceSnapshots.insert? (x,next) snapshotId = some workspaceSnapshots ∧
      t = { s with
        workspaceSnapshots := workspaceSnapshots
        heads := s.heads.modify x (fun h => { h with latestSnapshotVersion := some next }) } := by
  simp only [recordRestoredSnapshot,bind_ok,ensure_ok,require_ok,pure_ok] at h
  obtain ⟨_,_,workspaceSnapshots,hinsert,rfl⟩ := h
  exact ⟨workspaceSnapshots,hinsert,rfl⟩

/-- Only the snapshot rows and the latest snapshot version of the head change. -/
theorem observed_recordRestoredSnapshot {s t : Store} {next : ℕ} {snapshotId : SnapshotId}
    (h : recordRestoredSnapshot s x next snapshotId = .ok t) : Observed s t := by
  obtain ⟨_,_,rfl⟩ := recordRestoredSnapshot_ok h
  refine ⟨rfl,?_,fun _ _ h => h,rfl,rfl,rfl⟩
  intro y
  dsimp only
  rw [Table.get?_modify]
  split
  · rw [Option.map_map]
    rfl
  · rfl

theorem recorded_recordRestoredSnapshot {s t : Store} {next : ℕ} {snapshotId : SnapshotId}
    (hstored : s.snapshots.get? snapshotId = some snapshotId)
    (hlatest : ∀ head version, s.heads.get? x = some head →
      head.latestSnapshotVersion = some version → version < next)
    (h : recordRestoredSnapshot s x next snapshotId = .ok t) :
    Recorded s t x next snapshotId snapshotId := by
  obtain ⟨rows,hrows,rfl⟩ := recordRestoredSnapshot_ok h
  obtain ⟨hnone,_⟩ := Table.insert?_eq_some hrows
  have hget := Table.get?_insert? hrows
  exact {
    events := rfl
    blobs := rfl
    stored := hstored
    snapshots := fun _ _ h => h
    mapped := (hget _).trans (if_pos rfl)
    old := by
      intro key id hold
      have hne : key ≠ (x,next) := by
        rintro rfl
        rw [hnone] at hold
        cases hold
      exact (hget key).trans ((if_neg hne).trans hold)
    new := by
      intro key id hnew hne
      rwa [hget key,if_neg hne] at hnew
    heads := by
      intro y
      dsimp only
      rw [Table.get?_modify]
      split
      · next hy =>
        subst hy
        cases hhead : s.heads.get? y with
        | none => rfl
        | some head =>
          have hall : head.latestSnapshotVersion.all (fun latest => latest < next) = true := by
            cases hversion : head.latestSnapshotVersion with
            | none => rfl
            | some version => simpa using hlatest head version hhead hversion
          simp [hall]
      · next hy =>
        simp [hy] }

/-! ## The files -/

theorem Restored.files_at (h : Restored db db' actor paperId x target safety kind fresh applied head
      version m epoch) (hr : Recoverable codec db x version.manifest version.snapshotId m) :
    Kept x db.files db'.files ∧ ∀ path id, db'.files.At (x,path) id ↔
      identityOf version.manifest path = some id := by
  obtain ⟨before,mid,hbefore,hmid,hfiles⟩ := h.files
  have hidentified : Identified x version.manifest before.files := hbefore ▸ hr.identified
  have hkept : Kept x before.files (tombstoneAll before x).files := tombstoneAll_kept before x
  have hcovered : ∀ p ∈ m.files.keys, ∃ id, identityOf version.manifest p = some id := by
    intro p hp
    exact (hr.covered p).mp (ExtTreeMap.mem_keys.mp hp)
  obtain ⟨hkept',hat⟩ := materializeAll_ok hidentified hcovered hkept hmid
  rw [hfiles]
  refine ⟨hbefore ▸ hkept.trans hkept',?_⟩
  intro path id
  rw [hat path id]
  constructor
  · rintro (⟨_,hid⟩ | ⟨hlive,_⟩)
    · exact hid
    · exact absurd hlive (tombstoneAll_at before x path id)
  · intro hid
    have hcontains := (hr.covered path).mpr ⟨id,hid⟩
    exact Or.inl ⟨ExtTreeMap.mem_keys.mpr hcontains,hid⟩

theorem Restored.accepted (hs : Sound codec bytesPut db)
    (h : Restored db db' actor paperId x target safety kind fresh applied head version m epoch)
    (hr : Recoverable codec db x version.manifest version.snapshotId m) :
    ∃ hops store, Accepted db { db with
        store := store
        files := db'.files } x head.durableVersion ⟨restoreOperations db x m,hops⟩
        head.latestSnapshotVersion ∧
      recordRestoredSnapshot store x (head.durableVersion + 1) version.snapshotId = .ok db'.store := by
  obtain ⟨hops,store,happended,hrecord⟩ := h.store
  obtain ⟨head',hhead',_,hlogged⟩ := happended.logged
  rw [h.found,Option.some.injEq] at hhead'
  subst hhead'
  obtain ⟨hkept,hat⟩ := h.files_at hr
  refine ⟨hops,store,?_,hrecord⟩
  exact {
    logged := hlogged
    position := (hs.integrity.durable x head h.found).1
    snapshotted := fun version hlatest => hs.integrity.latest x head version h.found hlatest
    kept := hkept
    accepted := by
      intro state _ htracks
      obtain ⟨next,hnext,_,hfiles⟩ := foldlM_restoreOperations htracks
      refine ⟨next,hnext,?_⟩
      intro path
      rw [hfiles,manifestFiles,ExtTreeMap.contains_map,hr.covered path]
      exact exists_congr (fun id => (hat path id).symm)
    workspaces := by
      intro y hy
      dsimp only
      rw [happended.workspaces]
      exact hy
    here := by
      dsimp only
      rw [happended.workspaces]
      exact h.here }

/-! ## The state -/

def manifestState (x : WorkspaceId) (version : WorkspaceVersion) (m : WorkspaceManifestV1) :
    WorkspaceState := ⟨x,version,some m.mainFile,manifestFiles m⟩

theorem toManifest_manifestState (x : WorkspaceId) (version : WorkspaceVersion)
    (m : WorkspaceManifestV1) : (manifestState x version m).toManifest = .ok m :=
  toManifest_ok.mpr ⟨rfl,rfl⟩

/-- What a restoration to a version with the given manifest leaves of a workspace. -/
structure Recovered (codec : Codec) (bytesPut : Set Bytes) (db db' : Db) (x : WorkspaceId) (n : ℕ)
    (m : WorkspaceManifestV1) : Prop where
  sound : Sound codec bytesPut db'
  grows : Grows db.store db'.store
  kept : Kept x db.files db'.files
  snapshots : ∀ id hash, db.store.snapshots.get? id = some hash →
    db'.store.snapshots.get? id = some hash
  length : (db'.store.log x).length = n + 1
  others : ∀ y, y ≠ x → db'.store.log y = db.store.log y
  state : HeadState db'.store x (manifestState x (n + 1) m)
  head : db'.store.heads.get? x = some ⟨n + 1,some (n + 1)⟩
  row : db'.store.workspaceSnapshots.get? (x,n + 1) = some (manifestSnapshotId codec m)

theorem Restored.recovered (hs : Sound codec bytesPut db)
    (h : Restored db db' actor paperId x target safety kind fresh applied head version m epoch)
    (hr : Recoverable codec db x version.manifest version.snapshotId m) :
    Recovered codec bytesPut db db' x head.durableVersion m := by
  obtain ⟨hops,store,haccepted,hrecord⟩ := h.accepted hs hr
  obtain ⟨hmiddle,hgrows⟩ := hs.accepted haccepted
  obtain ⟨before,hbefore⟩ := hs.integrity.replays x
  obtain ⟨next,_,hstate,_,hfold⟩ := haccepted.headState hbefore (hs.tracks x before hbefore)
  obtain ⟨_,hfold',hmain,hfiles⟩ := foldlM_restoreOperations (hs.tracks x before hbefore) (m := m)
  rw [hfold,Except.ok.injEq] at hfold'
  subst hfold'
  have hid : next.workspaceId = x := (Replayed.version hstate).2
  have hnext : ({ next with version := head.durableVersion + 1 } : WorkspaceState) =
      manifestState x (head.durableVersion + 1) m := by
    rw [manifestState,← hmain,← hfiles,← hid]
  rw [hnext] at hstate
  have hlength : (store.log x).length = head.durableVersion + 1 := by
    rw [haccepted.logged.log,if_pos rfl,List.length_append,List.length_singleton,haccepted.position]
  have hobserved := observed_recordRestoredSnapshot hrecord
  have hstored : store.snapshots.get? version.snapshotId = some version.snapshotId := by
    rw [haccepted.logged.snapshots]
    exact hr.stored
  have hlatest : ∀ head' version, store.heads.get? x = some head' →
      head'.latestSnapshotVersion = some version → version < head.durableVersion + 1 := by
    intro head' version hhead hversion
    rw [haccepted.logged.head,Option.some.injEq] at hhead
    subst hhead
    obtain ⟨id,hid⟩ := hs.integrity.latest x head version h.found hversion
    obtain ⟨_,_,hsnap⟩ := hs.integrity.snapshot x version id hid
    have hbound := hsnap.replayed.bound
    rw [haccepted.position]
    exact Nat.lt_succ_of_le hbound
  have hrecorded := recorded_recordRestoredSnapshot hstored hlatest hrecord
  rw [hr.identity] at hrecorded
  have hblob : store.blobs.get? (manifestSnapshotId codec m) = some (canonicalJsonBytes codec m) := by
    rw [haccepted.logged.blobs,← hr.identity]
    exact hr.blob
  have hreplayed : Replayed store x (head.durableVersion + 1) (manifestState x
      (head.durableVersion + 1) m) := hlength ▸ hstate
  obtain ⟨hinv,hgrows'⟩ := hmiddle.integrity.recorded hreplayed (toManifest_manifestState x _ m) hblob
    hrecorded
  exact {
    sound := hmiddle.observed hinv hobserved rfl
    grows := hgrows.trans hgrows'
    kept := haccepted.kept
    snapshots := by
      intro id hash hold
      apply hobserved.snapshots
      rw [haccepted.logged.snapshots]
      exact hold
    length := by rw [hobserved.log,hlength]
    others := by
      intro y hy
      rw [hobserved.log,haccepted.logged.log,if_neg hy,List.append_nil]
    state := by
      rw [HeadState,Replayed,hobserved.log]
      exact hstate
    head := by
      have hnewer : head.latestSnapshotVersion.all
          (fun latest => latest < head.durableVersion + 1) = true := by
        cases hversion : head.latestSnapshotVersion with
        | none => rfl
        | some version => simpa using hlatest _ version haccepted.logged.head hversion
      rw [hrecorded.heads,haccepted.logged.head,Option.map_some,if_pos ⟨rfl,hnewer⟩]
      rfl
    row := hrecorded.mapped }

end LatexCore.Papers
