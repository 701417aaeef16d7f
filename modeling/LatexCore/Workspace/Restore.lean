import LatexCore.Workspace.Integrity

/-! # Restoring

Every operation of the service keeps the integrity of the tables under any
interference, and a restore that has read the head ends with the state that the
events up to the durable version lead to from the empty state, whichever
snapshot it started from and whatever is appended meanwhile.
-/
namespace LatexCore.Workspace
open Core Foundation
variable {codec : Codec} {bytesPut : Set Bytes} {s : Store} {workspaceId : WorkspaceId} {α : Type}

/-- The clients rely on the integrity of the tables and on their growth. -/
def discipline (codec : Codec) (bytesPut : Set Bytes) : Discipline (serve codec) where
  inv := Integrity codec bytesPut
  grows := Grows
  allowed := fun request => ∀ bytes ∈ request.puts, bytes ∈ bytesPut
  refl := Grows.refl
  trans := Grows.trans

/-- The postcondition of a program whose success alone is described. -/
def OnOk (post : Store → α → Prop) (t : Store) (r : Except WorkspaceError α) : Prop :=
  ∀ a, r = .ok a → post t a

abbrev Ends (codec : Codec) (bytesPut : Set Bytes) (post : Store → Except WorkspaceError α → Prop)
    (p : Service α) (s : Store) : Prop := (discipline codec bytesPut).Holds post p.run s

theorem attempt_ok_bind {β : Type} (a : α) (k : α → Service β) :
    (attempt (.ok a) >>= k) = k a := rfl

theorem ends_read_bind {β : Type} {request : Call} {k : α → Service β}
    {answer : request.Reply → Except WorkspaceError α} {post : Store → Except WorkspaceError β → Prop}
    (hread : ∀ t, (serve codec t request).1 = t)
    (h : ∀ t, Grows s t → Integrity codec bytesPut t →
      (∃ a, answer (serve codec t request).2 = .ok a ∧ Ends codec bytesPut post (k a) t) ∨
        ∃ e, answer (serve codec t request).2 = .error e ∧ post t (.error e)) :
    Ends codec bytesPut post (ask request answer >>= k) s := by
  apply Discipline.Holds.bindExcept
  intro t hgrows hinv _
  refine ⟨by rw [hread t]; exact hinv,by rw [hread t]; exact .refl t,?_⟩
  rcases h t hgrows hinv with ⟨a,ha,hk⟩ | ⟨e,he,hpost⟩
  · dsimp only [Discipline.Holds]
    rw [ha,hread t]
    exact hk
  · dsimp only [Discipline.Holds]
    rw [he,hread t]
    exact hpost

theorem transact_cases {ε : Type} {f : Store → Except ε (Store × α)} {t : Store}
    (p : Store × Except ε α → Prop) (hfail : ∀ e, f t = .error e → p (t,.error e))
    (hdone : ∀ t' a, f t = .ok (t',a) → p (t',.ok a)) : p (transact f t) := by
  unfold transact
  cases h : f t with
  | error e =>
    rw [commit_error h]
    exact hfail e h
  | ok r =>
    rw [commit_ok h]
    exact hdone r.1 r.2 h

/-- A program goes on only where it succeeded. -/
theorem ends_bind {β : Type} {post : Store → α → Prop} {p : Service α} {k : α → Service β}
    {post' : Store → β → Prop} (h : Ends codec bytesPut (OnOk post) p s)
    (hk : ∀ t a, Grows s t → post t a → Ends codec bytesPut (OnOk post') (k a) t) :
    Ends codec bytesPut (OnOk post') (p >>= k) s := by
  apply Discipline.Holds.bindExcept
  apply Discipline.Holds.imp h
  intro t r hgrows hr
  cases r with
  | ok a => exact hk t a hgrows (hr a rfl)
  | error e =>
    intro b hb
    cases hb

theorem ends_attempt_bind {β : Type} {r : Except WorkspaceError α} {k : α → Service β}
    {post : Store → β → Prop}
    (hk : ∀ a, r = .ok a → Ends codec bytesPut (OnOk post) (k a) s) :
    Ends codec bytesPut (OnOk post) (attempt r >>= k) s := by
  cases r with
  | ok a => exact hk a rfl
  | error e =>
    intro b hb
    cases hb

theorem ends_replayTail {n m : ℕ} {base final : WorkspaceState}
    (hbase : Replayed s workspaceId n base) (hfinal : Replayed s workspaceId m final) (hle : n ≤ m)
    (hbound : m ≤ i64Max) :
    Ends codec bytesPut (fun _ r => r = .ok final) (replayTail workspaceId m base) s := by
  have hversion : base.version = n := (Replayed.version hbase).1
  have htarget : final.version = m := (Replayed.version hfinal).1
  apply ends_read_bind (fun _ => rfl)
  intro t hgrows hinv
  have hevents := loadEvents_eq (hinv.numbered workspaceId) hle hbound
  have hfold := Checkpoint.resume (hgrows.replayed hbase) (hgrows.replayed hfinal) hle
  have hserved : fromRepository (loadEvents t workspaceId base.version m) =
      .ok (((t.log workspaceId).take m).drop n) := by
    rw [hversion,hevents]
    rfl
  have hcheck : ensure (final.version = m) (WorkspaceError.corruptPersistentEvent (some
      ("replay ended at " ++ versionDebug final.version ++ ", expected " ++ versionDebug m))) =
      .ok () := by
    rw [ensure_ok,decide_eq_true_eq]
    exact htarget
  refine Or.inl ⟨_,hserved,?_⟩
  rw [hfold,attempt_ok_bind,hcheck,attempt_ok_bind]
  rfl

theorem loadHead_ok (hinv : Integrity codec bytesPut s) {head : WorkspaceHeadRecord}
    (h : loadHead s workspaceId = .ok head) :
    head.durableVersion = (s.log workspaceId).length ∧ head.durableVersion ≤ i64Max ∧
      ∀ snapshot, head.latestSnapshot = some snapshot →
        snapshot.manifestBlobHash = snapshot.snapshotId ∧ ∃ state manifest, Snapshotted codec s
          workspaceId snapshot.workspaceVersion snapshot.snapshotId state manifest := by
  simp only [loadHead,bind_ok,require_ok] at h
  obtain ⟨row,hrow,hjoin⟩ := h
  obtain ⟨hdurable,hbound⟩ := hinv.durable workspaceId row hrow
  split at hjoin
  · rw [pure_ok] at hjoin
    subst hjoin
    exact ⟨hdurable,hbound,fun snapshot hs => by cases hs⟩
  · next version hversion =>
    simp only [bind_ok,require_ok,pure_ok] at hjoin
    obtain ⟨id,hid,hash,hhash,rfl⟩ := hjoin
    refine ⟨hdurable,hbound,?_⟩
    intro snapshot hs
    cases hs
    obtain ⟨state,manifest,hsnap⟩ := hinv.snapshot workspaceId version id hid
    have hstored := hsnap.stored
    rw [hhash,Option.some.injEq] at hstored
    exact ⟨hstored,state,manifest,hsnap⟩

theorem loadHead_isOk (hinv : Integrity codec bytesPut s) {head : HeadRow}
    (h : s.heads.get? workspaceId = some head) :
    ∃ record, loadHead s workspaceId = .ok record ∧ record.durableVersion = head.durableVersion := by
  simp only [loadHead,bind_ok,require_ok]
  cases hlatest : head.latestSnapshotVersion with
  | none => exact ⟨⟨workspaceId,head.durableVersion,none⟩,⟨head,h,by rw [hlatest]; rfl⟩,rfl⟩
  | some version =>
    obtain ⟨id,hid⟩ := hinv.latest workspaceId head version h hlatest
    obtain ⟨state,manifest,hsnap⟩ := hinv.snapshot workspaceId version id hid
    refine ⟨⟨workspaceId,head.durableVersion,some ⟨version,id,id⟩⟩,⟨head,h,?_⟩,rfl⟩
    rw [hlatest]
    simp only [bind_ok,require_ok]
    exact ⟨id,hid,id,hsnap.stored,rfl⟩

theorem readSnapshot_eq {snapshot : WorkspaceSnapshotRecord} {state : WorkspaceState}
    {manifest : WorkspaceManifestV1}
    (h : Snapshotted codec s workspaceId snapshot.workspaceVersion snapshot.snapshotId state manifest)
    (hhash : snapshot.manifestBlobHash = snapshot.snapshotId) :
    readSnapshot codec workspaceId snapshot (canonicalJsonBytes codec manifest) = .ok state := by
  obtain ⟨hversion,hid⟩ := Replayed.version h.replayed
  have hdecoded : (codec.fromSlice (canonicalJsonBytes codec manifest)).bind
      WorkspaceManifestV1.fromValue = some manifest := by
    rw [canonicalJsonBytes,codec.fromSlice_toVec,Option.bind_some,
      WorkspaceManifestV1.fromValue_toValue]
  have hback := WorkspaceState.fromManifest_toManifest h.taken
  rw [hversion,hid] at hback
  simp only [readSnapshot,bind_ok,ensure_ok,require_ok,decide_eq_true_eq]
  exact ⟨(),(hhash.trans h.identity).symm,manifest,hdecoded,(),h.identity.symm,hback⟩

theorem ends_restoreBase {n : ℕ} {latest : Option WorkspaceSnapshotRecord}
    (hbound : n = (s.log workspaceId).length)
    (hlatest : ∀ snapshot, latest = some snapshot →
      snapshot.manifestBlobHash = snapshot.snapshotId ∧ ∃ state manifest, Snapshotted codec s
        workspaceId snapshot.workspaceVersion snapshot.snapshotId state manifest) :
    Ends codec bytesPut (fun t r => ∃ k base, r = .ok base ∧ k ≤ n ∧ Replayed t workspaceId k base)
      (restoreBase codec workspaceId latest) s := by
  cases latest with
  | none => exact ⟨0,.empty workspaceId,rfl,Nat.zero_le _,.zero⟩
  | some snapshot =>
    obtain ⟨hhash,state,manifest,hsnap⟩ := hlatest snapshot rfl
    apply ends_read_bind (fun _ => rfl)
    intro t hgrows hinv
    have hblob : t.blobs.get? snapshot.manifestBlobHash =
        some (canonicalJsonBytes codec manifest) := by
      rw [hhash]
      exact hgrows.blobs _ _ hsnap.blob
    have hserved : fromBlobs (getBlob codec t snapshot.manifestBlobHash) =
        .ok (canonicalJsonBytes codec manifest) := by
      have hdigest := (hinv.blobs _ _ hblob).1
      have hget : getBlob codec t snapshot.manifestBlobHash =
          .ok (canonicalJsonBytes codec manifest) := by
        simp only [getBlob,bind_ok,require_ok,ensure_ok,pure_ok]
        exact ⟨_,hblob,(),by simp [hdigest],rfl⟩
      rw [hget]
      rfl
    refine Or.inl ⟨_,hserved,?_⟩
    refine ⟨snapshot.workspaceVersion,state,readSnapshot_eq hsnap hhash,?_,
      hgrows.replayed hsnap.replayed⟩
    rw [hbound]
    exact hsnap.replayed.bound

theorem ends_restore_from {head : WorkspaceHeadRecord} {final : WorkspaceState}
    (hinv : Integrity codec bytesPut s) (h : loadHead s workspaceId = .ok head)
    (hfinal : Replayed s workspaceId head.durableVersion final) :
    Ends codec bytesPut (fun _ r => r = .ok final)
      (restoreBase codec workspaceId head.latestSnapshot >>=
        replayTail workspaceId head.durableVersion) s := by
  obtain ⟨hdurable,hbound,hlatest⟩ := loadHead_ok hinv h
  apply Discipline.Holds.bindExcept
  apply Discipline.Holds.imp (ends_restoreBase hdurable hlatest)
  rintro t r hgrows ⟨k,base,rfl,hle,hbase⟩
  exact ends_replayTail hbase (hgrows.replayed hfinal) hle hbound

theorem ends_restore_latest :
    Ends codec bytesPut (OnOk (fun t state => Replayed t workspaceId state.version state ∧
      (s.log workspaceId).length ≤ state.version)) (restore codec workspaceId) s := by
  apply ends_read_bind (fun _ => rfl)
  intro t hstart hinv
  cases hhead : loadHead t workspaceId with
  | error e =>
    refine Or.inr ⟨mapPersistence e,?_,fun state hstate => by cases hstate⟩
    change fromRepository (loadHead t workspaceId) = _
    rw [hhead]
    rfl
  | ok head =>
    obtain ⟨final,hfinal⟩ := hinv.replays workspaceId
    have hdurable := (loadHead_ok hinv hhead).1
    rw [← hdurable] at hfinal
    refine Or.inl ⟨head,?_,?_⟩
    · change fromRepository (loadHead t workspaceId) = _
      rw [hhead]
      rfl
    · apply Discipline.Holds.imp (ends_restore_from hinv hhead hfinal)
      rintro u r hgrows rfl state hstate
      cases hstate
      rw [(Replayed.version hfinal).1]
      refine ⟨hgrows.replayed hfinal,?_⟩
      rw [hdurable]
      exact (hstart.log workspaceId).length_le

theorem ends_restore :
    Ends codec bytesPut (OnOk (fun t state => Replayed t workspaceId state.version state))
      (restore codec workspaceId) s :=
  Discipline.Holds.imp ends_restore_latest (fun _ _ _ h state hstate => (h state hstate).1)

end LatexCore.Workspace
