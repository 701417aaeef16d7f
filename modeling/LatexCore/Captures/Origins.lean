import LatexCore.Captures.Reads

/-! # The origin of a capture

A capture takes its snapshot of the head that one of its reads finds, so the
tables at that read are the state that it is about. The epoch was read before
them and the live files are read after them. As long as neither is changed in
between, what the capture has settled stays true of its origin.
-/
namespace LatexCore.Captures
open Core Foundation Workspace Papers
variable {codec : Codec} {bytesPut : Set Bytes} {visited : List Db} {x : WorkspaceId}
variable {db₀ db db' : Db} {stage stage' : Stage}

def epochOf (db : Db) (workspaceId : WorkspaceId) : ℕ := (db.documentEpochs.get? workspaceId).getD 1

def livePaths (db : Db) (workspaceId : WorkspaceId) : List (Uuid × LogicalPath) :=
  (liveFiles db workspaceId).map (fun r => (r.1,r.2.path))

theorem fileIdentities_eq (db : Db) (x : WorkspaceId) : (liveFiles db x).map fileIdentity =
    (livePaths db x).map (fun r => .obj [("file_id",idToValue r.1),("path",.str r.2.text)]) := by
  rw [livePaths,List.map_map]
  rfl

theorem livePaths_congr (h : db'.files = db.files) (x : WorkspaceId) :
    livePaths db' x = livePaths db x := by
  simp only [livePaths,liveFiles,h]

/-- The captured state is that of the paper in the given tables. -/
structure Faithful (codec : Codec) (db : Db) (c : Captured) : Prop where
  sequence : c.exact.workspaceVersion = (db.store.log c.workspaceId).length
  sourceSequence : c.exact.manifest.get? "source_sequence" =
    some (.ofNat (db.store.log c.workspaceId).length)
  workspace : ∃ state m, HeadState db.store c.workspaceId state ∧ state.toManifest = .ok m ∧
    c.exact.manifest.get? "workspace" = some m.toValue ∧
    c.exact.snapshotId = manifestSnapshotId codec m ∧
    ∀ path, m.files.contains path = true ↔ ∃ id, identityOf c.exact.manifest path = some id
  identities : c.exact.manifest.get? "file_identities" =
    some (.arr ((liveFiles db c.workspaceId).map fileIdentity))
  identified : ∀ path id, identityOf c.exact.manifest path = some id ↔
    db.files.At (c.workspaceId,path) id
  epoch : c.exact.documentEpoch = epochOf db c.workspaceId
  documentEpoch : c.exact.manifest.get? "document_epoch" = some (.ofNat (epochOf db c.workspaceId))

/-! ## What the reads settle -/

/-- Visited tables in which a capture with the given epoch found the head. -/
structure Origin (codec : Codec) (bytesPut : Set Bytes) (visited : List Db) (x : WorkspaceId)
    (epoch : ℕ) (db₀ db : Db) : Prop where
  visited : db₀ ∈ visited
  sound : Sound codec bytesPut db₀
  epoch : epoch = epochOf db₀ x
  advances : Advances db₀ db

theorem Origin.advances' {epoch : ℕ} {visited' : List Db}
    (h : Origin codec bytesPut visited x epoch db₀ db) (hadv : Advances db db')
    (hvisited : visited ⊆ visited') : Origin codec bytesPut visited' x epoch db₀ db' :=
  ⟨hvisited h.visited,h.sound,h.epoch,h.advances.trans hadv⟩

def Shot (codec : Codec) (x : WorkspaceId) (s t : Store) (checkpoint : WorkspaceCheckpoint)
    (manifest : WorkspaceManifestV1) : Prop :=
  checkpoint.workspaceVersion = (s.log x).length ∧
    ∃ state, Checkpointed codec s t x checkpoint state manifest

theorem Shot.advances {s : Store} {checkpoint : WorkspaceCheckpoint} {m : WorkspaceManifestV1}
    (h : Shot codec x s db.store checkpoint m) (hadv : Advances db db') :
    Shot codec x s db'.store checkpoint m := by
  obtain ⟨hversion,state,hc⟩ := h
  refine ⟨hversion,state,?_⟩
  exact {
    replayed := hadv.grows.replayed hc.replayed
    latest := hc.latest
    taken := hc.taken
    identity := hc.identity
    manifestBlob := hc.manifestBlob
    stored := hadv.snapshots _ _ hc.stored
    blob := hadv.grows.blobs _ _ hc.blob }

def Snapshots (codec : Codec) (bytesPut : Set Bytes) (x : WorkspaceId) (s t : Store) :
    Program Call Call.Reply (Except WorkspaceError WorkspaceCheckpoint) → Prop
  | .done result => ∀ checkpoint, result = .ok checkpoint → ∃ m, Shot codec x s t checkpoint m
  | .call request next => (discipline codec bytesPut).Holds
      (OnOk (fun t checkpoint => ∃ m, Shot codec x s t checkpoint m)) (.call request next) t

theorem Snapshots.of_holds {s t : Store}
    {p : Program Call Call.Reply (Except WorkspaceError WorkspaceCheckpoint)}
    (h : (discipline codec bytesPut).Holds
      (OnOk (fun t checkpoint => ∃ m, Shot codec x s t checkpoint m)) p t) :
    Snapshots codec bytesPut x s t p := by
  cases p with
  | done result => exact h
  | call request next => exact h

theorem Snapshots.advances {s : Store}
    {p : Program Call Call.Reply (Except WorkspaceError WorkspaceCheckpoint)}
    (h : Snapshots codec bytesPut x s db.store p) (hadv : Advances db db') :
    Snapshots codec bytesPut x s db'.store p := by
  cases p with
  | done result =>
    intro checkpoint hcheckpoint
    obtain ⟨m,hm⟩ := h checkpoint hcheckpoint
    exact ⟨m,hm.advances hadv⟩
  | call request next => exact fun u hu => h u (hadv.grows.trans hu)

/-- The head is the next thing that a capture reads. -/
def Stage.awaitsHead : Stage → Bool
  | .snapshot _ (.call (.loadHead _) _) => true
  | _ => false

def Stage.awaitsFiles : Stage → Bool
  | .snapshot _ (.call (.loadHead _) _) => false
  | .snapshot _ (.call _ _) | .snapshot _ (.done (.ok _)) => true
  | .manifest .. | .cutoffs _ | .files .. => true
  | _ => false

def StageSound (codec : Codec) (bytesPut : Set Bytes) (visited : List Db) (x : WorkspaceId) (db : Db)
    (stage : Stage) : Prop :=
  match stage with
  | .epoch => True
  | .snapshot epoch p => p = (forceSnapshot codec x).run ∧ epoch = epochOf db x ∨
      ∃ db₀, Origin codec bytesPut visited x epoch db₀ db ∧ p.Uses Call.observesTail ∧
        (stage.awaitsFiles = true → livePaths db x = livePaths db₀ x) ∧
        Snapshots codec bytesPut x db₀.store db.store p
  | .manifest epoch checkpoint => ∃ db₀, Origin codec bytesPut visited x epoch db₀ db ∧
      livePaths db x = livePaths db₀ x ∧ ∃ m, Shot codec x db₀.store db.store checkpoint m
  | .cutoffs taken | .files taken _ => ∃ db₀,
      Origin codec bytesPut visited x taken.documentEpoch db₀ db ∧
      livePaths db x = livePaths db₀ x ∧
        Shot codec x db₀.store db.store taken.checkpoint taken.manifest
  | .policies listed todo => ∃ db₀, Origin codec bytesPut visited x listed.documentEpoch db₀ db ∧
      Shot codec x db₀.store db.store listed.checkpoint listed.manifest ∧
        listed.identities ++ todo.map fileIdentity = (liveFiles db₀ x).map fileIdentity
  | .frontMatter listed => ∃ db₀, Origin codec bytesPut visited x listed.documentEpoch db₀ db ∧
      Shot codec x db₀.store db.store listed.checkpoint listed.manifest ∧
        listed.identities = (liveFiles db₀ x).map fileIdentity
  | .ended _ => True

/-- Tables that move on, and leave alone what the capture is about to read, keep it sound. -/
theorem StageSound.advances {visited' : List Db}
    (h : StageSound codec bytesPut visited x db stage) (hadv : Advances db db')
    (hvisited : visited ⊆ visited')
    (hepoch : stage.awaitsHead = true → epochOf db' x = epochOf db x)
    (hfiles : stage.awaitsFiles = true → livePaths db' x = livePaths db x) :
    StageSound codec bytesPut visited' x db' stage := by
  cases stage with
  | epoch => trivial
  | snapshot epoch p =>
    rcases h with ⟨rfl,rfl⟩ | ⟨db₀,horigin,huses,hsame,hshots⟩
    · exact Or.inl ⟨rfl,(hepoch rfl).symm⟩
    · exact Or.inr ⟨db₀,horigin.advances' hadv hvisited,huses,
        fun hawaits => (hfiles hawaits).trans (hsame hawaits),hshots.advances hadv⟩
  | manifest epoch checkpoint =>
    obtain ⟨db₀,horigin,hsame,m,hshot⟩ := h
    exact ⟨db₀,horigin.advances' hadv hvisited,(hfiles rfl).trans hsame,m,hshot.advances hadv⟩
  | cutoffs taken =>
    obtain ⟨db₀,horigin,hsame,hshot⟩ := h
    exact ⟨db₀,horigin.advances' hadv hvisited,(hfiles rfl).trans hsame,hshot.advances hadv⟩
  | files taken cutoffs =>
    obtain ⟨db₀,horigin,hsame,hshot⟩ := h
    exact ⟨db₀,horigin.advances' hadv hvisited,(hfiles rfl).trans hsame,hshot.advances hadv⟩
  | policies listed todo =>
    obtain ⟨db₀,horigin,hshot,hidentities⟩ := h
    exact ⟨db₀,horigin.advances' hadv hvisited,hshot.advances hadv,hidentities⟩
  | frontMatter listed =>
    obtain ⟨db₀,horigin,hshot,hidentities⟩ := h
    exact ⟨db₀,horigin.advances' hadv hvisited,hshot.advances hadv,hidentities⟩
  | ended result => trivial

/-! ## The exact state -/

theorem get?_assembleManifest (paperId : Uuid) (listed : Listed) (frontMatter : List (String × Value)) :
    let manifest := assembleManifest paperId x listed frontMatter
    manifest.get? "document_epoch" = some (.ofNat listed.documentEpoch) ∧
      manifest.get? "source_sequence" = some (.ofNat listed.checkpoint.workspaceVersion) ∧
      manifest.get? "file_identities" = some (.arr listed.identities) ∧
      manifest.get? "workspace" = some listed.manifest.toValue :=
  ⟨rfl,rfl,rfl,rfl⟩

theorem identityOf_liveFiles {manifest : Value}
    (h : manifest.get? "file_identities" = some (.arr ((liveFiles db x).map fileIdentity)))
    (path : LogicalPath) (id : Uuid) :
    identityOf manifest path = some id ↔ db.files.At (x,path) id := by
  rw [identityOf_fileIdentities h (liveFiles_nodup db x)]
  constructor
  · rintro ⟨r,hr,rfl,rfl⟩
    obtain ⟨hfile,hlive⟩ := mem_liveFiles.mp hr
    exact ⟨r.2,hfile,hlive⟩
  · rintro ⟨file,hfile,hlive⟩
    obtain ⟨_,_,rfl⟩ := liveIndex_eq.mp hlive
    exact ⟨(id,file),mem_liveFiles.mpr ⟨hfile,hlive⟩,rfl,rfl⟩

theorem Shot.headState {checkpoint : WorkspaceCheckpoint} {m : WorkspaceManifestV1}
    (hs : Sound codec bytesPut db₀) (hadv : Advances db₀ db)
    (h : Shot codec x db₀.store db.store checkpoint m) :
    ∃ state, HeadState db₀.store x state ∧ state.toManifest = .ok m ∧
      Checkpointed codec db₀.store db.store x checkpoint state m := by
  obtain ⟨hversion,state,hc⟩ := h
  obtain ⟨final,hfinal⟩ := hs.integrity.replays x
  have hreplayed := hc.replayed
  rw [hversion] at hreplayed
  obtain rfl := hreplayed.unique (hadv.grows.replayed hfinal)
  exact ⟨state,hfinal,hc.taken,hc⟩

theorem faithful_assembleState {listed : Listed} (frontMatter : List (String × Value))
    (paperId : Uuid) (horigin : Origin codec bytesPut visited x listed.documentEpoch db₀ db)
    (hshot : Shot codec x db₀.store db.store listed.checkpoint listed.manifest)
    (hidentities : listed.identities = (liveFiles db₀ x).map fileIdentity) :
    let c : Captured := ⟨paperId,x,assembleState paperId x listed frontMatter⟩
    Faithful codec db₀ c ∧ CapturedAt codec db c listed.manifest := by
  intro c
  obtain ⟨hepoch,hsequence,hlisted,hworkspace⟩ := get?_assembleManifest (x := x) paperId listed frontMatter
  obtain ⟨state,hstate,htaken,hc⟩ := hshot.headState horigin.sound horigin.advances
  have hversion : listed.checkpoint.workspaceVersion = (db₀.store.log x).length := hshot.1
  rw [hidentities] at hlisted
  have hidentity := identityOf_liveFiles hlisted
  have hcovered (path : LogicalPath) : listed.manifest.files.contains path = true ↔
      ∃ id, identityOf c.exact.manifest path = some id := by
    have hcontains : listed.manifest.files.contains path = state.files.contains path := by
      rw [(toManifest_ok.mp htaken).2,manifestFiles,Std.ExtTreeMap.contains_map]
    rw [hcontains,horigin.sound.tracks x state hstate path]
    exact exists_congr (fun id => (hidentity path id).symm)
  refine ⟨?_,?_⟩
  · exact {
      sequence := hversion
      sourceSequence := by
        rw [← hversion]
        exact hsequence
      workspace := ⟨state,listed.manifest,hstate,htaken,hworkspace,hc.identity,hcovered⟩
      identities := hlisted
      identified := hidentity
      epoch := horigin.epoch
      documentEpoch := by
        rw [← horigin.epoch]
        exact hepoch }
  · exact {
      recoverable := {
        workspace := hworkspace
        identity := hc.identity
        stored := hc.stored
        blob := hc.blob
        covered := hcovered
        identified := by
          refine ⟨?_,?_⟩
          · intro p q id hp hq
            have hkey := Indexed.At.key_unique ((hidentity p id).mp hp) ((hidentity q id).mp hq)
            exact congrArg Prod.snd hkey
          · intro p id hp
            obtain ⟨file,hfile,hlive⟩ := (hidentity p id).mp hp
            obtain ⟨file',hfile',hspace⟩ := horigin.advances.rows id file hfile
            exact ⟨file',hfile',hspace.trans (liveIndex_eq.mp hlive).2.1⟩ }
      bound := hc.replayed.bound
      state := ⟨state,hc.replayed,hc.taken⟩
      current := by
        intro hcurrent path id
        rw [horigin.advances.steady x (hcurrent.symm.trans hversion) path id]
        exact hidentity path id }

end LatexCore.Captures
