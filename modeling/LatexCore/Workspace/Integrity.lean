import LatexCore.Workspace.Service

/-! # Integrity of the workspace tables

The invariant of the log, the heads, the snapshots and the blobs together: the
log of every workspace is gapless and replays, and the manifest blob of every
recorded snapshot is that of the state at its version. Blobs are put from a set
of byte strings on which SHA-256 is collision free. Every transaction of the
service keeps the invariant and lets the log and the blobs only grow.
-/
namespace LatexCore.Workspace
open Core Foundation
variable (codec : Codec) (bytesPut : Set Bytes)

structure Snapshotted (s : Store) (workspaceId : WorkspaceId) (version : WorkspaceVersion)
    (snapshotId : SnapshotId) (state : WorkspaceState) (manifest : WorkspaceManifestV1) : Prop where
  replayed : Replayed s workspaceId version state
  taken : state.toManifest = .ok manifest
  identity : snapshotId = manifestSnapshotId codec manifest
  stored : s.snapshots.get? snapshotId = some snapshotId
  blob : s.blobs.get? snapshotId = some (canonicalJsonBytes codec manifest)

structure Integrity (s : Store) : Prop where
  blobs : ∀ hash bytes, s.blobs.get? hash = some bytes →
    codec.sha256 bytes = hash ∧ bytes ∈ bytesPut
  numbered : ∀ x, (s.log x).map WorkspaceEventRecord.sequence = List.range' 1 (s.log x).length
  replays : ∀ x, ∃ state, Replayed s x (s.log x).length state
  durable : ∀ x head, s.heads.get? x = some head →
    head.durableVersion = (s.log x).length ∧ head.durableVersion ≤ i64Max
  headless : ∀ x, s.heads.get? x = none → s.log x = []
  latest : ∀ x head version, s.heads.get? x = some head →
    head.latestSnapshotVersion = some version →
    ∃ snapshotId, s.workspaceSnapshots.get? (x,version) = some snapshotId
  snapshot : ∀ x version snapshotId, s.workspaceSnapshots.get? (x,version) = some snapshotId →
    ∃ state manifest, Snapshotted codec s x version snapshotId state manifest

structure Grows (s t : Store) : Prop where
  log : ∀ x, s.log x <+: t.log x
  blobs : ∀ hash bytes, s.blobs.get? hash = some bytes → t.blobs.get? hash = some bytes

variable {codec bytesPut} {s t : Store} {workspaceId : WorkspaceId}

theorem Grows.refl (s : Store) : Grows s s := ⟨fun _ => List.prefix_refl _,fun _ _ h => h⟩

theorem Grows.trans {u : Store} (h : Grows s t) (h' : Grows t u) : Grows s u where
  log := fun x => (h.log x).trans (h'.log x)
  blobs := fun hash bytes hb => h'.blobs hash bytes (h.blobs hash bytes hb)

theorem Grows.replayed (h : Grows s t) {n : ℕ} {state : WorkspaceState}
    (hr : Replayed s workspaceId n state) : Replayed t workspaceId n state :=
  hr.of_prefix (h.log workspaceId)

theorem integrity_initial (verifyOnRead : Bool) (tenants : List TenantId) (users : List UserId) :
    Integrity codec bytesPut (.initial verifyOnRead tenants users) where
  blobs := by
    intro hash bytes h
    cases h
  numbered := fun _ => rfl
  replays := fun x => ⟨.empty x,.zero⟩
  durable := by
    intro x head h
    cases h
  headless := fun _ _ => rfl
  latest := by
    intro x head version h
    cases h
  snapshot := by
    intro x version snapshotId h
    cases h

/-- Of two puts of the set, equal digests mean equal bytes. -/
def CollisionFree (codec : Codec) (bytesPut : Set Bytes) : Prop := Set.InjOn codec.sha256 bytesPut

theorem writeVerified_ok {expected : BlobHash} {bytes : Bytes} {result : PutResult}
    (h : writeVerified codec s expected bytes = .ok (t,result)) :
    codec.sha256 bytes = expected ∧ result = ⟨expected,UInt64.ofNat bytes.length⟩ ∧
      ((t = s ∧ ∃ data, s.blobs.get? expected = some data) ∨
        ∃ blobs, s.blobs.insert? expected bytes = some blobs ∧ t = { s with blobs := blobs }) := by
  simp only [writeVerified,bind_ok,ensure_ok,decide_eq_true_eq] at h
  obtain ⟨_,hdigest,_,_,hwrite⟩ := h
  split at hwrite
  · next data hdata =>
    simp only [bind_ok,ensure_ok,pure_ok,Prod.mk.injEq] at hwrite
    obtain ⟨_,_,rfl,rfl⟩ := hwrite
    exact ⟨hdigest,rfl,Or.inl ⟨rfl,data,hdata⟩⟩
  · simp only [bind_ok,require_ok,pure_ok,Prod.mk.injEq] at hwrite
    obtain ⟨blobs,hblobs,rfl,rfl⟩ := hwrite
    exact ⟨hdigest,rfl,Or.inr ⟨blobs,hblobs,rfl⟩⟩

theorem Snapshotted.grows {version : WorkspaceVersion} {snapshotId : SnapshotId}
    {state : WorkspaceState} {manifest : WorkspaceManifestV1}
    (h : Snapshotted codec s workspaceId version snapshotId state manifest) (hgrows : Grows s t)
    (hstored : t.snapshots.get? snapshotId = some snapshotId) :
    Snapshotted codec t workspaceId version snapshotId state manifest where
  replayed := hgrows.replayed h.replayed
  taken := h.taken
  identity := h.identity
  stored := hstored
  blob := hgrows.blobs _ _ h.blob

theorem Integrity.put (hinv : Integrity codec bytesPut s) (hfree : CollisionFree codec bytesPut)
    {expected : BlobHash} {bytes : Bytes} {result : PutResult} (hbytes : bytes ∈ bytesPut)
    (h : writeVerified codec s expected bytes = .ok (t,result)) :
    Integrity codec bytesPut t ∧ Grows s t ∧ t.blobs.get? expected = some bytes ∧
      result.hash = expected := by
  obtain ⟨hdigest,rfl,⟨rfl,data,hdata⟩ | ⟨blobs,hblobs,rfl⟩⟩ := writeVerified_ok h
  · obtain ⟨hsame,hmem⟩ := hinv.blobs _ _ hdata
    have heq : data = bytes := hfree hmem hbytes (hsame.trans hdigest.symm)
    exact ⟨hinv,.refl _,heq ▸ hdata,rfl⟩
  · obtain ⟨hnone,_⟩ := Table.insert?_eq_some hblobs
    have hgrows : Grows s { s with blobs := blobs } := by
      refine ⟨fun _ => List.prefix_refl _,?_⟩
      intro hash old hold
      have hne : hash ≠ expected := by
        rintro rfl
        rw [hnone] at hold
        cases hold
      exact (Table.get?_insert? hblobs hash).trans ((if_neg hne).trans hold)
    refine ⟨?_,hgrows,(Table.get?_insert? hblobs expected).trans (if_pos rfl),rfl⟩
    refine { hinv with blobs := ?_, snapshot := ?_ }
    · intro hash old hold
      dsimp only at hold
      rw [Table.get?_insert? hblobs hash] at hold
      split at hold
      · next he =>
        cases hold
        exact ⟨hdigest.trans he.symm,hbytes⟩
      · exact hinv.blobs hash old hold
    · intro x version snapshotId hs
      obtain ⟨state,manifest,hsnap⟩ := hinv.snapshot x version snapshotId hs
      exact ⟨state,manifest,hsnap.grows hgrows hsnap.stored⟩

theorem Integrity.logged (hinv : Integrity codec bytesPut s) {record : WorkspaceEventRecord}
    {latest : Option ℕ} (h : Logged s t workspaceId record latest)
    (hsequence : record.sequence = (s.log workspaceId).length + 1)
    (hreplay : ∀ state, Replayed s workspaceId (s.log workspaceId).length state →
      ∃ next, replayEvent state record = .ok next)
    (hlatest : ∀ version, latest = some version →
      ∃ snapshotId, s.workspaceSnapshots.get? (workspaceId,version) = some snapshotId) :
    Integrity codec bytesPut t ∧ Grows s t := by
  have hself : t.log workspaceId = s.log workspaceId ++ [record] := by
    rw [h.log,if_pos rfl]
  have hother {x : WorkspaceId} (hx : x ≠ workspaceId) : t.log x = s.log x := by
    rw [h.log,if_neg hx,List.append_nil]
  have hgrows : Grows s t := by
    refine ⟨fun x => ?_,fun hash bytes hb => h.blobs ▸ hb⟩
    rw [h.log]
    exact List.prefix_append _ _
  refine ⟨?_,hgrows⟩
  exact {
    blobs := by
      rw [h.blobs]
      exact hinv.blobs
    numbered := by
      intro x
      by_cases hx : x = workspaceId
      · subst hx
        rw [hself,List.map_append,hinv.numbered x,List.length_append,List.map_singleton,
          List.length_singleton,List.range'_1_concat,hsequence,Nat.add_comm]
      · rw [hother hx]
        exact hinv.numbered x
    replays := by
      intro x
      obtain ⟨state,hstate⟩ := hinv.replays x
      by_cases hx : x = workspaceId
      · subst hx
        obtain ⟨next,hnext⟩ := hreplay state hstate
        have hsnoc := hstate.snoc hnext
        rw [← hself] at hsnoc
        rw [hself,List.length_append]
        exact ⟨next,hsnoc⟩
      · rw [hother hx]
        exact ⟨state,hgrows.replayed hstate⟩
    durable := by
      intro x head hhead
      by_cases hx : x = workspaceId
      · subst hx
        rw [h.head,Option.some.injEq] at hhead
        subst hhead
        rw [hself,List.length_append]
        exact ⟨hsequence,h.bound⟩
      · rw [h.heads x hx] at hhead
        rw [hother hx]
        exact hinv.durable x head hhead
    headless := by
      intro x hhead
      have hx : x ≠ workspaceId := by
        rintro rfl
        rw [h.head] at hhead
        cases hhead
      rw [h.heads x hx] at hhead
      rw [hother hx]
      exact hinv.headless x hhead
    latest := by
      intro x head version hhead hversion
      rw [h.workspaceSnapshots]
      by_cases hx : x = workspaceId
      · subst hx
        rw [h.head,Option.some.injEq] at hhead
        subst hhead
        exact hlatest version hversion
      · rw [h.heads x hx] at hhead
        exact hinv.latest x head version hhead hversion
    snapshot := by
      intro x version snapshotId hs
      rw [h.workspaceSnapshots] at hs
      obtain ⟨state,manifest,hsnap⟩ := hinv.snapshot x version snapshotId hs
      refine ⟨state,manifest,hsnap.grows hgrows ?_⟩
      rw [h.snapshots]
      exact hsnap.stored }

theorem Integrity.append (hinv : Integrity codec bytesPut s) {user : UserId}
    {expected next : WorkspaceVersion} {mutation : WorkspaceMutationV1}
    {state after : WorkspaceState} (hstate : Replayed s workspaceId expected state)
    (happly : state.apply mutation expected = .ok after)
    (h : appendEvent workspaceId user expected eventTypeName eventSchema mutation.toValue s =
      .ok (t,next)) : Integrity codec bytesPut t ∧ Grows s t := by
  obtain ⟨head,hhead,hversion,hlogged⟩ := appendEvent_ok h
  have hlength : expected = (s.log workspaceId).length :=
    hversion.symm.trans (hinv.durable workspaceId head hhead).1
  apply hinv.logged hlogged
  · rw [hlength]
    rfl
  · intro other hother
    rw [← hlength] at hother
    obtain rfl := hstate.unique hother
    exact ⟨after,replayEvent_recordOf happly⟩
  · exact fun version hv => hinv.latest workspaceId head version hhead hv

theorem Integrity.create (hinv : Integrity codec bytesPut s) {tenant : TenantId} {owner : UserId}
    {next : WorkspaceVersion} {mutation : WorkspaceMutationV1} {after : WorkspaceState}
    (happly : (WorkspaceState.empty workspaceId).apply mutation 0 = .ok after)
    (h : createWorkspaceWithInitialEvent tenant owner workspaceId eventTypeName eventSchema
      mutation.toValue s = .ok (t,next)) : Integrity codec bytesPut t ∧ Grows s t := by
  obtain ⟨hnone,hlogged⟩ := createWorkspaceWithInitialEvent_ok h
  have hempty := hinv.headless workspaceId hnone
  apply hinv.logged hlogged
  · rw [hempty]
    rfl
  · intro other hother
    rw [hempty] at hother
    obtain rfl := Checkpoint.unique hother .zero
    exact ⟨after,replayEvent_recordOf happly⟩
  · intro version hv
    cases hv

theorem insertOrKeep_kept {κ ν : Type} [DecidableEq κ] (table : Table κ ν) (k : κ) (v : ν) :
    (insertOrKeep table k v).1.get? k = some (insertOrKeep table k v).2 ∧
      (∀ k' v', table.get? k' = some v' → (insertOrKeep table k v).1.get? k' = some v') ∧
      ∀ k' v', (insertOrKeep table k v).1.get? k' = some v' → k' ≠ k → table.get? k' = some v' := by
  unfold insertOrKeep
  split
  · next stored hstored => exact ⟨hstored,fun _ _ h => h,fun _ _ h _ => h⟩
  · next hnone =>
    obtain ⟨table',htable⟩ := Table.insert?_isSome hnone v
    have hget := Table.get?_insert? htable
    rw [htable,Option.getD_some]
    refine ⟨(hget k).trans (if_pos rfl),?_,?_⟩
    · intro k' v' hold
      have hne : k' ≠ k := by
        rintro rfl
        rw [hnone] at hold
        cases hold
      exact (hget k').trans ((if_neg hne).trans hold)
    · intro k' v' hnew hne
      rw [hget k',if_neg hne] at hnew
      exact hnew

/-- What a recorded snapshot changes: its own two rows and the latest version of the head. -/
structure Recorded (s t : Store) (workspaceId : WorkspaceId) (version : WorkspaceVersion)
    (snapshotId : SnapshotId) (manifestHash : BlobHash) : Prop where
  events : t.events = s.events
  blobs : t.blobs = s.blobs
  stored : t.snapshots.get? snapshotId = some manifestHash
  snapshots : ∀ id hash, s.snapshots.get? id = some hash → t.snapshots.get? id = some hash
  mapped : t.workspaceSnapshots.get? (workspaceId,version) = some snapshotId
  old : ∀ key id, s.workspaceSnapshots.get? key = some id → t.workspaceSnapshots.get? key = some id
  new : ∀ key id, t.workspaceSnapshots.get? key = some id → key ≠ (workspaceId,version) →
    s.workspaceSnapshots.get? key = some id
  heads : ∀ x, t.heads.get? x = (s.heads.get? x).map (fun h =>
    if x = workspaceId ∧ h.latestSnapshotVersion.all (fun latest => latest < version) = true
    then { h with latestSnapshotVersion := some version } else h)

theorem recordSnapshot_ok {version : WorkspaceVersion} {snapshotId : SnapshotId}
    {manifestHash : BlobHash} {u : Unit}
    (h : recordSnapshot workspaceId version snapshotId manifestHash s = .ok (t,u)) :
    Recorded s t workspaceId version snapshotId manifestHash := by
  obtain ⟨hsnap,hsnapOld,_⟩ := insertOrKeep_kept s.snapshots snapshotId manifestHash
  obtain ⟨hmap,hmapOld,hmapNew⟩ :=
    insertOrKeep_kept s.workspaceSnapshots (workspaceId,version) snapshotId
  simp only [recordSnapshot,bind_ok,ensure_ok,require_ok,pure_ok,Prod.mk.injEq,
    decide_eq_true_eq] at h
  obtain ⟨_,_,_,_,_,_,_,hmanifest,_,hsnapshot,rfl,_⟩ := h
  rw [hmanifest] at hsnap
  rw [hsnapshot] at hmap
  exact {
    events := rfl
    blobs := rfl
    stored := hsnap
    snapshots := hsnapOld
    mapped := hmap
    old := hmapOld
    new := hmapNew
    heads := by
      intro x
      rw [Table.get?_updateWhere]
      simp only [Bool.and_eq_true,beq_iff_eq] }

theorem Integrity.recorded (hinv : Integrity codec bytesPut s) {version : WorkspaceVersion}
    {state : WorkspaceState} {manifest : WorkspaceManifestV1}
    (hstate : Replayed s workspaceId version state) (hmanifest : state.toManifest = .ok manifest)
    (hblob : s.blobs.get? (manifestSnapshotId codec manifest) =
      some (canonicalJsonBytes codec manifest))
    (hrec : Recorded s t workspaceId version (manifestSnapshotId codec manifest)
      (manifestSnapshotId codec manifest)) :
    Integrity codec bytesPut t ∧ Grows s t := by
  have hlog (x : WorkspaceId) : t.log x = s.log x := by
    simp only [Store.log,hrec.events]
  have hgrows : Grows s t := by
    refine ⟨fun x => ⟨[],?_⟩,fun hash bytes hb => hrec.blobs ▸ hb⟩
    rw [List.append_nil,hlog]
  have hhead {x : WorkspaceId} {head : HeadRow} (hx : t.heads.get? x = some head) :
      ∃ old, s.heads.get? x = some old ∧ head.durableVersion = old.durableVersion ∧
        (head.latestSnapshotVersion = old.latestSnapshotVersion ∨
          x = workspaceId ∧ head.latestSnapshotVersion = some version) := by
    rw [hrec.heads,Option.map_eq_some_iff] at hx
    obtain ⟨old,hold,rfl⟩ := hx
    refine ⟨old,hold,?_⟩
    split
    · next hraise => exact ⟨rfl,Or.inr ⟨hraise.1,rfl⟩⟩
    · exact ⟨rfl,Or.inl rfl⟩
  refine ⟨?_,hgrows⟩
  exact {
    blobs := by
      rw [hrec.blobs]
      exact hinv.blobs
    numbered := by
      intro x
      rw [hlog]
      exact hinv.numbered x
    replays := by
      intro x
      obtain ⟨before,hbefore⟩ := hinv.replays x
      rw [hlog]
      exact ⟨before,hgrows.replayed hbefore⟩
    durable := by
      intro x head hx
      obtain ⟨old,hold,hdurable,_⟩ := hhead hx
      rw [hdurable,hlog]
      exact hinv.durable x old hold
    headless := by
      intro x hx
      rw [hrec.heads,Option.map_eq_none_iff] at hx
      rw [hlog]
      exact hinv.headless x hx
    latest := by
      intro x head v hx hv
      obtain ⟨old,hold,_,hsame | ⟨rfl,hraised⟩⟩ := hhead hx
      · obtain ⟨id,hid⟩ := hinv.latest x old v hold (hsame ▸ hv)
        exact ⟨id,hrec.old _ _ hid⟩
      · rw [hraised,Option.some.injEq] at hv
        exact ⟨_,hv ▸ hrec.mapped⟩
    snapshot := by
      intro x v id hid
      by_cases hkey : (x,v) = (workspaceId,version)
      · cases hkey
        rw [hrec.mapped,Option.some.injEq] at hid
        subst hid
        exact ⟨state,manifest,{
          replayed := hgrows.replayed hstate
          taken := hmanifest
          identity := rfl
          stored := hrec.stored
          blob := hgrows.blobs _ _ hblob }⟩
      · obtain ⟨old,oldManifest,hsnap⟩ := hinv.snapshot x v id (hrec.new _ _ hid hkey)
        exact ⟨old,oldManifest,hsnap.grows hgrows (hrec.snapshots _ _ hsnap.stored)⟩ }

theorem Integrity.record (hinv : Integrity codec bytesPut s) {version : WorkspaceVersion}
    {state : WorkspaceState} {manifest : WorkspaceManifestV1} {u : Unit}
    (hstate : Replayed s workspaceId version state) (hmanifest : state.toManifest = .ok manifest)
    (hblob : s.blobs.get? (manifestSnapshotId codec manifest) =
      some (canonicalJsonBytes codec manifest))
    (h : recordSnapshot workspaceId version (manifestSnapshotId codec manifest)
      (manifestSnapshotId codec manifest) s = .ok (t,u)) :
    Integrity codec bytesPut t ∧ Grows s t :=
  hinv.recorded hstate hmanifest hblob (recordSnapshot_ok h)

end LatexCore.Workspace
