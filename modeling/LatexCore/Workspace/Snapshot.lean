import LatexCore.Workspace.Restore

/-! # Snapshots

A forced snapshot stores the manifest of the restored state before it records
the snapshot, so a success leaves a snapshot that can be read. It observes the
log and never appends to it, which a program that runs alone makes exact: the
snapshot is that of the head.
-/
namespace LatexCore.Workspace
open Core Foundation
variable {codec : Codec} {bytesPut : Set Bytes} {s t : Store} {workspaceId : WorkspaceId} {α β : Type}
variable {r : Except WorkspaceError WorkspaceCheckpoint}

theorem ends_transact {ε γ : Type} {f : Store → Except ε (Store × γ)} {t : Store}
    (hinv : Integrity codec bytesPut t) {answer : Except ε γ → Except WorkspaceError α}
    {post : Store → α → Prop} (hfail : ∀ e a, answer (.error e) ≠ .ok a)
    (hdone : ∀ t' r, f t = .ok (t',r) → Integrity codec bytesPut t' ∧ Grows t t' ∧
      ∀ a, answer (.ok r) = .ok a → post t' a) :
    Integrity codec bytesPut (transact f t).1 ∧ Grows t (transact f t).1 ∧
      OnOk post (transact f t).1 (answer (transact f t).2) := by
  refine transact_cases (fun r => Integrity codec bytesPut r.1 ∧ Grows t r.1 ∧
    OnOk post r.1 (answer r.2)) ?_ hdone
  intro e _
  exact ⟨hinv,.refl t,fun a ha => absurd ha (hfail e a)⟩

theorem fromBlobs_error {e : BlobStoreError} {a : α} : fromBlobs (.error e) ≠ .ok a := by
  intro h
  cases h

theorem fromRepository_error {e : PersistenceError} {a : α} : fromRepository (.error e) ≠ .ok a := by
  intro h
  cases h

theorem ends_putVerified (hfree : CollisionFree codec bytesPut) {expected : BlobHash}
    {bytes : Bytes} : Ends codec bytesPut (OnOk (fun t _ => t.blobs.get? expected = some bytes))
      (ask (.putVerified expected bytes) fromBlobs) s := by
  intro t _ hinv hallowed
  apply ends_transact hinv (fun _ _ => fromBlobs_error)
  intro t' r hwrite
  obtain ⟨hinv',hgrows,hblob,_⟩ := hinv.put hfree (hallowed bytes rfl) hwrite
  exact ⟨hinv',hgrows,fun _ _ => hblob⟩

structure Checkpointed (codec : Codec) (s t : Store) (workspaceId : WorkspaceId)
    (checkpoint : WorkspaceCheckpoint) (state : WorkspaceState) (manifest : WorkspaceManifestV1) :
    Prop where
  replayed : Replayed t workspaceId checkpoint.workspaceVersion state
  latest : (s.log workspaceId).length ≤ checkpoint.workspaceVersion
  taken : state.toManifest = .ok manifest
  identity : checkpoint.snapshotId = manifestSnapshotId codec manifest
  manifestBlob : checkpoint.manifestBlobHash = checkpoint.snapshotId
  stored : t.snapshots.get? checkpoint.snapshotId = some checkpoint.snapshotId
  blob : t.blobs.get? checkpoint.snapshotId = some (canonicalJsonBytes codec manifest)

def takeSnapshot (codec : Codec) (workspaceId : WorkspaceId) (state : WorkspaceState) :
    Service WorkspaceCheckpoint := do
  let manifest ← attempt state.toManifest
  let canonical := canonicalJsonBytes codec manifest
  let snapshotId := manifestSnapshotId codec manifest
  let manifestBlobHash := codec.sha256 canonical
  let stored ← ask (.putVerified manifestBlobHash canonical) fromBlobs
  attempt (ensure (stored.hash = manifestBlobHash)
    (.corruptPersistentEvent (some "blob store returned a different manifest hash")))
  ask (.recordSnapshot workspaceId state.version snapshotId manifestBlobHash) fromRepository
  pure ⟨state.version,snapshotId,manifestBlobHash⟩

theorem ends_takeSnapshot (hfree : CollisionFree codec bytesPut) {start : Store}
    {state : WorkspaceState} (hstate : Replayed s workspaceId state.version state)
    (hlatest : (start.log workspaceId).length ≤ state.version) :
    Ends codec bytesPut (OnOk (fun t checkpoint => checkpoint.workspaceVersion = state.version ∧
      ∃ manifest, Checkpointed codec start t workspaceId checkpoint state manifest))
      (takeSnapshot codec workspaceId state) s := by
  apply ends_attempt_bind
  intro manifest hmanifest
  apply ends_bind (ends_putVerified hfree)
  intro u stored hgrows hblob
  apply ends_attempt_bind
  intro _ _
  have hrecorded : Ends codec bytesPut (OnOk (fun v _ => Replayed v workspaceId state.version state ∧
      v.snapshots.get? (manifestSnapshotId codec manifest) =
        some (manifestSnapshotId codec manifest) ∧
      v.blobs.get? (manifestSnapshotId codec manifest) = some (canonicalJsonBytes codec manifest)))
      (ask (.recordSnapshot workspaceId state.version (manifestSnapshotId codec manifest)
        (manifestSnapshotId codec manifest)) fromRepository) u := by
    intro v hgrows' hinv _
    apply ends_transact hinv (fun _ _ => fromRepository_error)
    intro v' u' hrecord
    have hbase := hgrows'.replayed (hgrows.replayed hstate)
    have hblob' := hgrows'.blobs _ _ hblob
    obtain ⟨hinv',hgrows''⟩ := hinv.record hbase hmanifest hblob' hrecord
    exact ⟨hinv',hgrows'',fun _ _ => ⟨hgrows''.replayed hbase,(recordSnapshot_ok hrecord).stored,
      hgrows''.blobs _ _ hblob'⟩⟩
  apply ends_bind hrecorded
  rintro v _ _ ⟨hbase,hstored,hblob'⟩ checkpoint hcheckpoint
  cases hcheckpoint
  exact ⟨rfl,manifest,{
    replayed := hbase
    latest := hlatest
    taken := hmanifest
    identity := rfl
    manifestBlob := rfl
    stored := hstored
    blob := hblob' }⟩

theorem ends_forceSnapshot (hfree : CollisionFree codec bytesPut) :
    Ends codec bytesPut (OnOk (fun t checkpoint => ∃ state manifest,
      Checkpointed codec s t workspaceId checkpoint state manifest))
      (forceSnapshot codec workspaceId) s := by
  apply ends_bind ends_restore_latest
  intro t state _ hrestored
  obtain ⟨hstate,hlatest⟩ := hrestored
  apply Discipline.Holds.imp (ends_takeSnapshot hfree hstate hlatest)
  intro u r _ h checkpoint hcheckpoint
  exact ⟨state,(h checkpoint hcheckpoint).2⟩

/-- What is left of a forced snapshot when the head is read. -/
def snapshotAfterHead (codec : Codec) (workspaceId : WorkspaceId)
    (reply : Except PersistenceError WorkspaceHeadRecord) : Service WorkspaceCheckpoint := do
  let head ← attempt (fromRepository reply)
  let state ← restoreBase codec workspaceId head.latestSnapshot >>=
    replayTail workspaceId head.durableVersion
  takeSnapshot codec workspaceId state

theorem forceSnapshot_run (codec : Codec) (workspaceId : WorkspaceId) :
    (forceSnapshot codec workspaceId).run =
      .call (.loadHead workspaceId) (fun reply => (snapshotAfterHead codec workspaceId reply).run) := by
  refine congrArg (Program.call (Call.loadHead workspaceId)) ?_
  funext reply
  change (ExceptT.run ((attempt (fromRepository reply) >>= fun head => _) >>= _) : Program ..) =
    ExceptT.run (attempt (fromRepository reply) >>= _)
  cases fromRepository reply with
  | ok head => rfl
  | error e => rfl

theorem ends_snapshotAfterHead (hfree : CollisionFree codec bytesPut)
    (hinv : Integrity codec bytesPut s) :
    Ends codec bytesPut (OnOk (fun t checkpoint =>
      checkpoint.workspaceVersion = (s.log workspaceId).length ∧ ∃ state manifest,
        Checkpointed codec s t workspaceId checkpoint state manifest))
      (snapshotAfterHead codec workspaceId (loadHead s workspaceId)) s := by
  apply ends_attempt_bind
  intro head hhead
  cases hload : loadHead s workspaceId with
  | error e =>
    rw [hload] at hhead
    cases hhead
  | ok record =>
    rw [hload] at hhead
    cases hhead
    obtain ⟨final,hfinal⟩ := hinv.replays workspaceId
    have hdurable := (loadHead_ok hinv hload).1
    rw [← hdurable] at hfinal
    apply Discipline.Holds.bindExcept
    apply Discipline.Holds.imp (ends_restore_from hinv hload hfinal)
    rintro t r hgrows rfl
    have hversion := (Replayed.version hfinal).1
    have hstate : Replayed t workspaceId final.version final := by
      rw [hversion]
      exact hgrows.replayed hfinal
    apply Discipline.Holds.imp (ends_takeSnapshot hfree hstate
      (show (s.log workspaceId).length ≤ final.version by rw [hversion,hdurable]))
    rintro u r _ h checkpoint hcheckpoint
    obtain ⟨hsame,manifest,hc⟩ := h checkpoint hcheckpoint
    exact ⟨by rw [hsame,hversion,hdurable],final,manifest,hc⟩

/-! ## Observation -/

/-- The calls that leave the log alone. -/
def Call.observes : Call → Prop
  | .put _ | .putVerified _ _ | .get _ | .loadHead _ | .loadEvents .. | .recordSnapshot .. => True
  | .createWorkspaceWithInitialEvent .. | .appendEvent .. => False

/-- Blobs and snapshots may be added, and the latest snapshot versions change; nothing else does. -/
structure Observed (s t : Store) : Prop where
  events : t.events = s.events
  durable : ∀ x, (t.heads.get? x).map HeadRow.durableVersion =
    (s.heads.get? x).map HeadRow.durableVersion
  snapshots : ∀ id hash, s.snapshots.get? id = some hash → t.snapshots.get? id = some hash
  workspaces : t.workspaces = s.workspaces
  tenants : t.tenants = s.tenants
  users : t.users = s.users

theorem Observed.refl (s : Store) : Observed s s := ⟨rfl,fun _ => rfl,fun _ _ h => h,rfl,rfl,rfl⟩

theorem Observed.trans {u : Store} (h : Observed s t) (h' : Observed t u) : Observed s u where
  events := h'.events.trans h.events
  durable := fun x => (h'.durable x).trans (h.durable x)
  snapshots := fun id hash hs => h'.snapshots id hash (h.snapshots id hash hs)
  workspaces := h'.workspaces.trans h.workspaces
  tenants := h'.tenants.trans h.tenants
  users := h'.users.trans h.users

theorem Observed.log (h : Observed s t) (x : WorkspaceId) : t.log x = s.log x := by
  rw [Store.log,h.events]
  rfl

theorem observed_transact {ε γ : Type} {f : Store → Except ε (Store × γ)}
    (h : ∀ t r, f s = .ok (t,r) → Observed s t) : Observed s (transact f s).1 := by
  refine transact_cases (fun r => Observed s r.1) ?_ h
  exact fun e _ => .refl s

theorem observed_writeVerified {expected : BlobHash} {bytes : Bytes} {r : PutResult}
    (h : writeVerified codec s expected bytes = .ok (t,r)) : Observed s t := by
  obtain ⟨_,_,⟨rfl,_⟩ | ⟨blobs,_,rfl⟩⟩ := writeVerified_ok h
  · exact .refl _
  · exact ⟨rfl,fun _ => rfl,fun _ _ h => h,rfl,rfl,rfl⟩

theorem observed_serve (s : Store) (request : Call) (h : request.observes) :
    Observed s (serve codec s request).1 := by
  cases request with
  | put bytes => exact observed_transact fun t r => observed_writeVerified
  | putVerified expected bytes => exact observed_transact fun t r => observed_writeVerified
  | get hash => exact .refl s
  | createWorkspaceWithInitialEvent => exact h.elim
  | appendEvent => exact h.elim
  | loadHead workspaceId => exact .refl s
  | loadEvents workspaceId after through => exact .refl s
  | recordSnapshot workspaceId version snapshotId manifestHash =>
    apply observed_transact
    intro t u hrecord
    have hrec := recordSnapshot_ok hrecord
    simp only [recordSnapshot,bind_ok,pure_ok,Prod.mk.injEq] at hrecord
    obtain ⟨_,_,_,_,_,_,_,_,_,_,rfl,_⟩ := hrecord
    refine ⟨rfl,?_,hrec.snapshots,rfl,rfl,rfl⟩
    intro x
    rw [hrec.heads,Option.map_map]
    congr 1
    funext head
    dsimp only [Function.comp_apply]
    split <;> rfl

theorem uses_bind {ok : Call → Prop} {p : Service α} {k : α → Service β} (h : p.run.Uses ok)
    (hk : ∀ a, (k a).run.Uses ok) : (p >>= k).run.Uses ok := by
  apply Program.Uses.bind h
  intro r
  cases r with
  | ok a => exact hk a
  | error e => trivial

theorem uses_ask {ok : Call → Prop} {request : Call}
    {answer : request.Reply → Except WorkspaceError α} (h : ok request) :
    (ask request answer).run.Uses ok := ⟨h,fun _ => trivial⟩

theorem uses_attempt {ok : Call → Prop} {r : Except WorkspaceError α} :
    (attempt r).run.Uses ok := trivial

theorem uses_restoreFrom {ok : Call → Prop} {head : WorkspaceHeadRecord} (hget : ∀ hash, ok (.get hash))
    (hevents : ∀ after through, ok (.loadEvents workspaceId after through)) :
    (restoreBase codec workspaceId head.latestSnapshot >>=
      replayTail workspaceId head.durableVersion).run.Uses ok := by
  apply uses_bind
  · cases head.latestSnapshot with
    | none => trivial
    | some snapshot => exact uses_bind (uses_ask (hget _)) (fun _ => uses_attempt)
  · intro base
    apply uses_bind (uses_ask (hevents _ _))
    intro events
    exact uses_bind uses_attempt (fun _ => uses_bind uses_attempt (fun _ => trivial))

theorem uses_restore {ok : Call → Prop} (hhead : ok (.loadHead workspaceId))
    (hget : ∀ hash, ok (.get hash)) (hevents : ∀ after through, ok (.loadEvents workspaceId after through)) :
    (restore codec workspaceId).run.Uses ok :=
  uses_bind (uses_ask hhead) (fun _ => uses_restoreFrom hget hevents)

theorem uses_takeSnapshot {ok : Call → Prop} {state : WorkspaceState}
    (hput : ∀ hash bytes, ok (.putVerified hash bytes))
    (hrecord : ∀ version id hash, ok (.recordSnapshot workspaceId version id hash)) :
    (takeSnapshot codec workspaceId state).run.Uses ok := by
  apply uses_bind uses_attempt
  intro manifest
  apply uses_bind (uses_ask (hput _ _))
  intro stored
  exact uses_bind uses_attempt (fun _ => uses_bind (uses_ask (hrecord _ _ _)) (fun _ => trivial))

theorem uses_forceSnapshot : (forceSnapshot codec workspaceId).run.Uses Call.observes := by
  apply uses_bind (uses_restore trivial (fun _ => trivial) (fun _ _ => trivial))
  exact fun _ => uses_takeSnapshot (fun _ _ => trivial) (fun _ _ _ => trivial)

/-- Calls that leave the log alone, the reading of a head apart. -/
def Call.observesTail (request : Call) : Prop := request.observes ∧ ∀ x, request ≠ .loadHead x

theorem uses_snapshotAfterHead (reply : Except PersistenceError WorkspaceHeadRecord) :
    (snapshotAfterHead codec workspaceId reply).run.Uses Call.observesTail := by
  apply uses_bind uses_attempt
  intro head
  apply uses_bind
  · apply uses_restoreFrom
    · exact fun _ => ⟨trivial,fun _ h => by cases h⟩
    · exact fun _ _ => ⟨trivial,fun _ h => by cases h⟩
  · exact fun _ => uses_takeSnapshot (fun _ _ => ⟨trivial,fun _ h => by cases h⟩)
      (fun _ _ _ => ⟨trivial,fun _ h => by cases h⟩)

theorem forceSnapshot_alone (hfree : CollisionFree codec bytesPut) (hinv : Integrity codec bytesPut s)
    (hput : ∀ bytes ∈ ((forceSnapshot codec workspaceId).run.requests (serve codec) s).filterMap
      Call.puts, bytes ∈ bytesPut)
    (h : (forceSnapshot codec workspaceId).run.alone (serve codec) s = (t,r)) :
    Integrity codec bytesPut t ∧ Grows s t ∧ Observed s t ∧
      ∀ checkpoint, r = .ok checkpoint → ∃ state manifest,
        Checkpointed codec s t workspaceId checkpoint state manifest := by
  have hends : Ends codec bytesPut (OnOk (fun t checkpoint => ∃ state manifest,
      Checkpointed codec s t workspaceId checkpoint state manifest))
      (forceSnapshot codec workspaceId) s := ends_forceSnapshot hfree
  obtain ⟨hinv',hgrows,hpost⟩ := hends.alone hinv (fun request hrequest bytes hbytes =>
    hput bytes (List.mem_filterMap.mpr ⟨request,hrequest,hbytes⟩))
  have hobserved : Observed s ((forceSnapshot codec workspaceId).run.alone (serve codec) s).1 :=
    uses_forceSnapshot.alone_relates Observed .refl .trans observed_serve s
  rw [h] at hinv' hgrows hpost hobserved
  exact ⟨hinv',hgrows,hobserved,hpost⟩

theorem restore_alone (hinv : Integrity codec bytesPut s) {head : HeadRow}
    (hhead : s.heads.get? workspaceId = some head) {final : WorkspaceState}
    (hfinal : Replayed s workspaceId (s.log workspaceId).length final) :
    ((restore codec workspaceId).run.alone (serve codec) s).2 = .ok final := by
  obtain ⟨record,hrecord,hversion⟩ := loadHead_isOk hinv hhead
  have hlength := (hinv.durable workspaceId head hhead).1
  rw [← hlength,← hversion] at hfinal
  let rest (reply : Except PersistenceError WorkspaceHeadRecord) :=
    (attempt (fromRepository reply) >>= fun head =>
      restoreBase codec workspaceId head.latestSnapshot >>=
        replayTail workspaceId head.durableVersion).run
  have hreply : fromRepository (loadHead s workspaceId) = .ok record := by
    rw [hrecord]
    rfl
  have hreads : (restore codec workspaceId).run.Uses (fun request => request.puts = none) :=
    uses_restore rfl (fun _ => rfl) (fun _ _ => rfl)
  have hallowed := (hreads.2 (loadHead s workspaceId)).requests (serve codec) s
  change ((rest (loadHead s workspaceId)).alone (serve codec) s).2 = _
  change ∀ request ∈ (rest (loadHead s workspaceId)).requests (serve codec) s, _ at hallowed
  dsimp only [rest] at hallowed ⊢
  rw [hreply,attempt_ok_bind] at hallowed ⊢
  refine ((ends_restore_from hinv hrecord hfinal).alone hinv ?_).2.2
  intro request hrequest bytes hbytes
  rw [hallowed request hrequest] at hbytes
  cases hbytes

end LatexCore.Workspace
