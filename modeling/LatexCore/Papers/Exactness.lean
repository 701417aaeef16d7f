import LatexCore.Papers.Runs
import LatexCore.Workspace.History

/-! # Agreement and exact restoration

The two results about whole histories of the papers. The live files of every
workspace are those of the state that its log replays to, so a workspace can
always be restored. A restoration takes a workspace back to exactly what a
version was recorded of, and its safety version takes it back again.
-/
namespace LatexCore.Papers
open Core Foundation Workspace
variable {codec : Codec} {bytesPut : Set Bytes} {db db' : Db} {x : WorkspaceId} {w : World}

/-! ## Agreement -/

theorem apply_of_replayed {start final : WorkspaceState} {log before after : List WorkspaceEventRecord}
    {event : WorkspaceEventRecord} (h : log.foldlM replayEvent start = .ok final)
    (hlog : log = before ++ event :: after) :
    ∃ state mutation next, before.foldlM replayEvent start = .ok state ∧
      WorkspaceMutationV1.fromValue event.payload = some mutation ∧
      state.apply mutation event.baseVersion = .ok next := by
  rw [hlog,List.foldlM_append,bind_ok] at h
  obtain ⟨state,hstate,h⟩ := h
  rw [List.foldlM_cons,bind_ok] at h
  obtain ⟨next,hreplay,_⟩ := h
  simp only [replayEvent,bind_ok,require_ok] at hreplay
  obtain ⟨_,_,_,_,_,_,_,_,_,_,mutation,hmutation,happly⟩ := hreplay
  exact ⟨state,mutation,next,hstate,hmutation,happly⟩

/-- In every history the live files of a workspace are those of the state that all its events replay
to, one file at each path; every event was accepted, and a restore ends with that state. A row stays
under its identifier for good, so no later row can take it. -/
theorem files_agree_with_log (codec : Codec) (tenants : List TenantId) (users : List UserId)
    (roles : Table UserId GlobalRole) (templates : List Uuid) (programmes : List String)
    (packs : List Uuid) (labels : List Label)
    (hfree : CollisionFree codec
      (bytesOf codec (.initial tenants users roles templates programmes packs) labels))
    (x : WorkspaceId) :
    let start := World.initial tenants users roles templates programmes packs
    let db := (run (step codec) start labels).db
    (∃ state, (db.store.log x).foldlM replayEvent (.empty x) = .ok state ∧
      (∀ path, state.files.contains path = true ↔ ∃ id, db.files.At (x,path) id) ∧
      (∀ path id id', db.files.At (x,path) id → db.files.At (x,path) id' → id = id') ∧
      ∀ head, db.store.heads.get? x = some head →
        ((restore codec x).run.alone (serve codec) db.store).2 = .ok state) ∧
    (∀ before event after, db.store.log x = before ++ event :: after →
      ∃ state mutation next, before.foldlM replayEvent (.empty x) = .ok state ∧
        WorkspaceMutationV1.fromValue event.payload = some mutation ∧
        state.apply mutation event.baseVersion = .ok next) ∧
    ∀ before after, labels = before ++ after →
      ∀ id file, (run (step codec) start before).db.files.get? id = some file →
        (∃ file', db.files.get? id = some file' ∧ file'.workspaceId = file.workspaceId) ∧
          ∀ row, db.files.insert? id row = none := by
  intro start db
  have hstart : Governed codec (bytesOf codec start labels) start := governed_initial ..
  have hsound := (governed_run hfree hstart labels (fun _ h => h)).1.sound
  obtain ⟨state,hstate⟩ := hsound.integrity.replays x
  have hreplayed : (db.store.log x).foldlM replayEvent (.empty x) = .ok state := by
    have htake := hstate.replayed
    rwa [List.take_length] at htake
  refine ⟨⟨state,hreplayed,hsound.tracks x state hstate,?_,?_⟩,?_,?_⟩
  · exact fun path id id' h h' => h.unique h'
  · exact fun head hhead => restore_alone hsound.integrity hhead hstate
  · exact fun before event after hlog => apply_of_replayed hreplayed hlog
  · rintro before after rfl id file hfile
    obtain ⟨_,_,hadv⟩ := governed_append hfree hstart
    obtain ⟨file',hfile',hspace⟩ := hadv.rows id file hfile
    refine ⟨⟨file',hfile',hspace⟩,?_⟩
    intro row
    cases hinsert : db.files.insert? id row with
    | none => rfl
    | some files =>
      obtain ⟨hnone,_⟩ := Indexed.insert?_eq_some hinsert
      rw [hfile'] at hnone
      cases hnone

theorem collisionFree_before {before after : List Label}
    (h : CollisionFree codec (bytesOf codec w (before ++ after))) :
    CollisionFree codec (bytesOf codec w before) := by
  apply h.mono
  intro bytes hb
  change bytes ∈ emitted (step codec) (blobsPut codec) w (before ++ after)
  rw [emitted_append]
  exact List.mem_append_left _ hb

theorem collisionFree_of_dedup {labels : List Label}
    (h : ((emitted (step codec) (blobsPut codec) w labels).dedup.map codec.sha256).Nodup) :
    CollisionFree codec (bytesOf codec w labels) := by
  intro a ha b hb
  exact List.inj_on_of_nodup_map h (List.mem_dedup.mpr ha) (List.mem_dedup.mpr hb)

def secondMain : LogicalPath := ⟨"b.tex",by decide⟩
def secondManifestDigest : Digest :=
  ⟨"7c6cfb32467907864c16a1444a886169f8e622ea3aebc7db130e14420bdc8a96",by decide⟩

/-- SHA-256 on the blobs of the runs below: the text, and the manifests of one and of two files. -/
def paperCodec : Codec where
  sha256 := fun bytes => if bytes = sampleText then sampleTextDigest
    else if bytes.length = 160 then sampleManifestDigest else secondManifestDigest
  toVec := Json.toBytes
  fromSlice := Json.fromBytes
  fromSlice_toVec := fromBytes_manifest

def setupRun : List Label :=
  [.put sampleText,.request (.setGlobalRole 0 .writer),
    .request (.createInitializedPersonalPaper 0 0 0 "Paper" sampleMain sampleTextDigest 4 50 60),
    .capture 50]

/-- The first state is recorded, a second file is created, and the new state is captured. -/
def editRun : List Label :=
  [.createManualVersion 0 0 "first" 70,
    .request (.createFile 0 0 1 secondMain sampleTextDigest 4 ⟨61,80⟩),.capture 50]

/-- The writer goes back to a version; the two new versions get the next two identifiers. -/
def backTo (target first : Uuid) : Restoration := .personal 0 target ⟨first,first + 1,fun n => 90 + n⟩

/-- A restoration, a rename to the path that it freed, and the undo of the rename. -/
def renameRun : List Label :=
  setupRun ++ editRun ++ [.restore 1 (backTo 70 71),.request (.renameFile 60 0 3 secondMain 81),
    .request (.structuralUndo 50 0 0)]

theorem files_agree_with_log_sample :
    let start := World.initial [0] [0] .empty [] [] []
    let db := (run (step paperCodec) start renameRun).db
    (db.store.log 0).length = 5 ∧
      ∃ state, (db.store.log 0).foldlM replayEvent (.empty 0) = .ok state ∧
        (∀ path, state.files.contains path = true ↔ ∃ id, db.files.At (0,path) id) ∧
        (∀ path id id', db.files.At (0,path) id → db.files.At (0,path) id' → id = id') ∧
        ∀ head, db.store.heads.get? 0 = some head →
          ((restore paperCodec 0).run.alone (serve paperCodec) db.store).2 = .ok state := by
  have hfacts : ((emitted (step paperCodec) (blobsPut paperCodec)
      (.initial [0] [0] .empty [] [] []) renameRun).dedup.map paperCodec.sha256).Nodup ∧
      ((run (step paperCodec) (.initial [0] [0] .empty [] [] []) renameRun).db.store.log 0).length =
        5 := by
    decide +kernel
  have hfree := collisionFree_of_dedup hfacts.1
  exact ⟨hfacts.2,(files_agree_with_log paperCodec [0] [0] .empty [] [] [] renameRun hfree 0).1⟩

/-! ## Restoration -/

/-- A version that was recorded of a state: it carries the files of the state and, for each path, the
identity of the live file. -/
structure Carries (codec : Codec) (db : Db) (x : WorkspaceId) (version : Queue.Version) : Prop where
  files : ∃ state m, HeadState db.store x state ∧ state.toManifest = .ok m ∧
    version.manifest.get? "workspace" = some m.toValue ∧
    version.snapshotId = manifestSnapshotId codec m
  identities : ∀ path id, identityOf version.manifest path = some id ↔ db.files.At (x,path) id

/-- The workspace is taken from version `v` of the tables `db` to the next version, at which it is what
it was in the tables `past`. -/
structure TakenBack (codec : Codec) (past db db' : Db) (x : WorkspaceId) (v : ℕ) : Prop where
  found : ∃ latest, db.store.heads.get? x = some ⟨v,latest⟩
  head : db'.store.heads.get? x = some ⟨v + 1,some (v + 1)⟩
  length : (db'.store.log x).length = v + 1
  state : ∃ before m, HeadState past.store x before ∧ before.toManifest = .ok m ∧
    (db'.store.log x).foldlM replayEvent (.empty x) = .ok { before with version := v + 1 } ∧
    ((restore codec x).run.alone (serve codec) db'.store).2 = .ok { before with version := v + 1 } ∧
    (∃ snapshotId hash bytes, db'.store.workspaceSnapshots.get? (x,v + 1) = some snapshotId ∧
      db'.store.snapshots.get? snapshotId = some hash ∧ getBlob codec db'.store hash = .ok bytes ∧
      readSnapshot codec x ⟨v + 1,snapshotId,hash⟩ bytes = .ok { before with version := v + 1 }) ∧
    ∀ path, m.files.contains path = true ↔ ∃ id, db'.files.At (x,path) id
  files : ∀ path id, db'.files.At (x,path) id ↔ past.files.At (x,path) id
  injective : ∀ p q id, db'.files.At (x,p) id → db'.files.At (x,q) id → p = q
  epoch : ∃ epoch, db.documentEpochs.get? x = some epoch ∧
    db'.documentEpochs.get? x = some (epoch + 1)

theorem CapturedAt.carries {c : Captured} {m : WorkspaceManifestV1} (h : CapturedAt codec db c m)
    (hcurrent : c.exact.workspaceVersion = (db.store.log c.workspaceId).length) {row : Queue.Version}
    (hmanifest : row.manifest = c.exact.manifest) (hsnapshot : row.snapshotId = c.exact.snapshotId) :
    Carries codec db c.workspaceId row := by
  obtain ⟨state,hstate,htaken⟩ := h.state
  rw [hcurrent] at hstate
  refine ⟨⟨state,m,hstate,htaken,?_,?_⟩,?_⟩
  · rw [hmanifest]
    exact h.recoverable.workspace
  · rw [hsnapshot]
    exact h.recoverable.identity
  · rw [hmanifest]
    exact h.current hcurrent

theorem createManualVersion_carries {before after : List Label} {i : ℕ} {actor : UserId}
    {name : String} {id answer : Uuid} {c : Captured}
    (hfree : CollisionFree codec
      (bytesOf codec w (before ++ .createManualVersion i actor name id :: after)))
    (hg : Governed codec (bytesOf codec w (before ++ .createManualVersion i actor name id :: after)) w)
    (hc : (run (step codec) w before).captured[i]? = some c)
    (hcurrent : c.exact.workspaceVersion =
      ((run (step codec) w before).db.store.log c.workspaceId).length)
    (h : createManualVersion c.paperId c.workspaceId c.exact actor name id
      (run (step codec) w before).db = .ok (db',answer)) :
    ∃ row, (run (step codec) w (before ++ .createManualVersion i actor name id :: after)).db.queue.versions.get?
        id = some row ∧ Carries codec (run (step codec) w before).db c.workspaceId row := by
  obtain ⟨hbefore,_,_⟩ := governed_append hfree hg
  obtain ⟨m,hm⟩ := hbefore.captured c (List.mem_of_getElem? hc)
  have hlabels : before ++ .createManualVersion i actor name id :: after =
      (before ++ [.createManualVersion i actor name id]) ++ after := by
    rw [List.append_assoc,List.singleton_append]
  rw [hlabels] at hfree hg ⊢
  obtain ⟨_,_,hadv⟩ := governed_append hfree hg
  have hstepped : (run (step codec) w (before ++ [.createManualVersion i actor name id])).db =
      { db' with now := db'.now + 1 } := by
    rw [run_concat]
    change (act codec _ _).tick.db = _
    dsimp only [act]
    rw [hc]
    dsimp only [World.tick]
    rw [commit_ok h]
  obtain ⟨queue,number,rfl,hversions,_⟩ := createManualVersion_ok h
  have hrow := (Table.get?_insert? hversions id).trans (if_pos rfl)
  refine ⟨_,hadv.versions id _ (by rw [hstepped]; exact hrow),?_⟩
  exact hm.carries hcurrent rfl rfl

theorem Governed.takenBack (hg : Governed codec bytesPut w) {c : Captured} (hc : c ∈ w.captured)
    {restoration : Restoration} {target : Uuid} {version : Queue.Version}
    {applied : RestorationApplied} {past : Db}
    (htarget : restoration.target w.db = some target)
    (hversion : w.db.queue.versions.get? target = some version)
    (hcarries : Carries codec past c.workspaceId version)
    (h : applyRestoration c restoration w.db = .ok (db',applied)) :
    (∃ v, TakenBack codec past w.db db' c.workspaceId v) ∧
      ∃ safety, db'.queue.versions.get? applied.safetyVersionId = some safety ∧
        safety.versionType = .preRestoreSafety ∧ safety.workspaceId = c.workspaceId ∧
        Carries codec w.db c.workspaceId safety := by
  obtain ⟨actor,target',kind,fresh,head,version',m,epoch,htarget',hrestored⟩ := applyRestoration_ok h
  rw [htarget,Option.some.injEq] at htarget'
  subst htarget'
  have hsame := hrestored.targeted
  rw [hversion,Option.some.injEq] at hsame
  subst hsame
  obtain ⟨hm,hrec,_,_⟩ := hg.restored hc hrestored
  obtain ⟨state,m',hstate,htaken,hworkspace,_⟩ := hcarries.files
  have hmanifest : m' = m := hm.unique (by
    rw [hworkspace,Option.bind_some,WorkspaceManifestV1.fromValue_toValue])
  subst hmanifest
  obtain ⟨hmain,hfiles⟩ := toManifest_ok.mp htaken
  have hid : state.workspaceId = c.workspaceId := (Replayed.version hstate).2
  have hafter : manifestState c.workspaceId (head.durableVersion + 1) m' =
      { state with version := head.durableVersion + 1 } := by
    rw [manifestState,← hmain,← hfiles,← hid]
  have hreplayed := hrec.state.replayed
  rw [List.take_length,hafter] at hreplayed
  have halone := restore_alone hrec.sound.integrity hrec.head hrec.state
  rw [hafter] at halone
  obtain ⟨_,hat⟩ := hrestored.files_at hm
  obtain ⟨snapState,snapManifest,hsnap⟩ :=
    hrec.sound.integrity.snapshot c.workspaceId (head.durableVersion + 1) _ hrec.row
  have hsnapState : snapState = manifestState c.workspaceId (head.durableVersion + 1) m' := by
    have hhead := hrec.state
    rw [HeadState,hrec.length] at hhead
    exact hsnap.replayed.unique hhead
  rw [hsnapState,hafter] at hsnap
  constructor
  · refine ⟨head.durableVersion,?_⟩
    exact {
      found := ⟨head.latestSnapshotVersion,hrestored.found⟩
      head := hrec.head
      length := hrec.length
      state := by
        refine ⟨state,m',hstate,htaken,hreplayed,halone,?_,?_⟩
        · have hdigest := (hrec.sound.integrity.blobs _ _ hsnap.blob).1
          refine ⟨_,_,_,hrec.row,hsnap.stored,?_,readSnapshot_eq hsnap rfl⟩
          simp only [getBlob,bind_ok,require_ok,ensure_ok,pure_ok]
          exact ⟨_,hsnap.blob,(),by simp [hdigest],rfl⟩
        · intro path
          rw [hm.covered path]
          exact exists_congr (fun id => (hat path id).symm)
      files := fun path id => (hat path id).trans (hcarries.identities path id)
      injective := by
        intro p q id hp hq
        exact hm.identified.injective p q id ((hat p id).mp hp) ((hat q id).mp hq)
      epoch := by
        refine ⟨epoch,hrestored.counted,?_⟩
        rw [hrestored.raised,Table.get?_modify_self,hrestored.counted]
        rfl }
  · obtain ⟨_,⟨safety,hsafety,htype,hspace,hsafetyManifest,hsafetySnapshot⟩,_⟩ :=
      hrestored.versions_new
    refine ⟨safety,hsafety,htype,hspace,?_⟩
    obtain ⟨mc,hmc⟩ := hg.captured c hc
    refine hmc.carries ?_ hsafetyManifest hsafetySnapshot
    rw [← hrestored.current]
    exact (hg.sound.integrity.durable c.workspaceId head hrestored.found).1

end LatexCore.Papers
