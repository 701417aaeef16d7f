import LatexCore.Papers.Runs

/-! # Captures read by read

The capture of an exact state is not one transaction. It reads the document epoch,
forces a snapshot call by call, loads the manifest, and reads the cutoffs, the
live files, the policy of each file and the front matter, and other requests may
commit between any two of these reads.
-/
namespace LatexCore.Captures
open Core Foundation Workspace Papers

/-- What the reads up to the manifest have settled. -/
structure Snapshotted where
  documentEpoch : ℕ
  checkpoint : WorkspaceCheckpoint
  manifest : WorkspaceManifestV1

/-- What the reads up to the live files have settled. -/
structure Listed extends Snapshotted where
  cutoffs : List Value
  identities : List Value
  policies : List Value

/-- The next read of a capture, with what the reads before it have settled. -/
inductive Stage
  | epoch
  | snapshot (documentEpoch : ℕ)
      (program : Program Call Call.Reply (Except WorkspaceError WorkspaceCheckpoint))
  | manifest (documentEpoch : ℕ) (checkpoint : WorkspaceCheckpoint)
  | cutoffs (taken : Snapshotted)
  | files (taken : Snapshotted) (cutoffs : List Value)
  | policies (listed : Listed) (todo : List (Uuid × PaperFile))
  | frontMatter (listed : Listed)
  | ended (result : Except Response ExactRestoreState)

structure Capture where
  paperId : Uuid
  workspaceId : WorkspaceId
  team : Bool
  stage : Stage

/-- The manifest as it is put together from the reads. -/
def assembleManifest (paperId : Uuid) (workspaceId : WorkspaceId) (listed : Listed)
    (frontMatter : List (String × Value)) : Value :=
  .obj ([("schema_version",.ofNat 1),("paper_id",idToValue paperId),
    ("workspace_id",idToValue workspaceId),("document_epoch",.ofNat listed.documentEpoch),
    ("source_sequence",.ofNat listed.checkpoint.workspaceVersion),
    ("workspace_snapshot_id",.str listed.checkpoint.snapshotId.toHex),
    ("collaboration_cutoffs",.arr listed.cutoffs),("file_identities",.arr listed.identities),
    ("workspace",listed.manifest.toValue),
    ("template_policy_provenance",.obj [("file_policies",.arr listed.policies)])] ++ frontMatter)

def assembleState (paperId : Uuid) (workspaceId : WorkspaceId) (listed : Listed)
    (frontMatter : List (String × Value)) : ExactRestoreState where
  documentEpoch := listed.documentEpoch
  workspaceVersion := listed.checkpoint.workspaceVersion
  snapshotId := listed.checkpoint.snapshotId
  manifest := assembleManifest paperId workspaceId listed frontMatter
  stateHash := listed.checkpoint.snapshotId.toHex

/-- `collaboration_cutoffs`: in the order of the file identities. -/
def collaborationCutoffs (db : Db) (workspaceId : WorkspaceId) (epoch : ℕ) : List Value :=
  ((liveFiles db workspaceId).insertionSort (fun a b => a.1 ≤ b.1)).map
    (collaborationCutoff db workspaceId epoch)

def frontMatterField (db : Db) (paperId : Uuid) : List (String × Value) :=
  [("front_matter",(frontMatterVersionState db paperId).getD .null)]

variable (codec : Codec)

def loadManifest (db : Db) (checkpoint : WorkspaceCheckpoint) :
    Except Response WorkspaceManifestV1 := do
  let bytes ← (getBlob codec db.store checkpoint.manifestBlobHash).mapError
    (fun _ => ⟨500,"snapshot storage failure"⟩)
  require ((codec.fromSlice bytes).bind WorkspaceManifestV1.fromValue)
    ⟨500,"invalid snapshot manifest"⟩

/-- One read of `capture_exact_v2_state`. -/
def read (paperId : Uuid) (workspaceId : WorkspaceId) (team : Bool) (db : Db) : Stage → Db × Stage
  | .epoch =>
    if (db.store.workspaces.get? workspaceId).isSome then
      let (db,epoch) := paperDocumentEpoch db workspaceId
      (db,.snapshot epoch (forceSnapshot codec workspaceId).run)
    else (db,.ended (.error ⟨500,"V2 persistence failed"⟩))
  | .snapshot epoch (.call request next) =>
    let (store,reply) := serve codec db.store request
    ({ db with store := store },.snapshot epoch (next reply))
  | .snapshot epoch (.done (.ok checkpoint)) => (db,.manifest epoch checkpoint)
  | .snapshot _ (.done (.error _)) => (db,.ended (.error ⟨400,"paper must have a main file"⟩))
  | .manifest epoch checkpoint =>
    match loadManifest codec db checkpoint with
    | .ok manifest => (db,.cutoffs ⟨epoch,checkpoint,manifest⟩)
    | .error response => (db,.ended (.error response))
  | .cutoffs taken => (db,.files taken (collaborationCutoffs db workspaceId taken.documentEpoch))
  | .files taken cutoffs => (db,.policies ⟨taken,cutoffs,[],[]⟩ (liveFiles db workspaceId))
  | .policies listed (file :: todo) =>
    (db,.policies { listed with
      identities := listed.identities ++ [fileIdentity file]
      policies := listed.policies ++ [filePolicy db file] } todo)
  | .policies listed [] =>
    if team then (db,.frontMatter listed)
    else (db,.ended (.ok (assembleState paperId workspaceId listed [])))
  | .frontMatter listed =>
    (db,.ended (.ok (assembleState paperId workspaceId listed (frontMatterField db paperId))))
  | .ended result => (db,.ended result)

def Capture.read (c : Capture) (db : Db) : Db × Stage :=
  Captures.read codec c.paperId c.workspaceId c.team db c.stage

/-! ## Captures with nobody else at work -/

section Alone
variable {codec} {paperId : Uuid} {workspaceId : WorkspaceId} {team : Bool}

def Leads (codec : Codec) (paperId : Uuid) (workspaceId : WorkspaceId) (team : Bool)
    (s t : Db × Stage) : Prop :=
  ∃ n, (fun s => read codec paperId workspaceId team s.1 s.2)^[n] s = t

theorem Leads.refl (s : Db × Stage) : Leads codec paperId workspaceId team s s := ⟨0,rfl⟩

theorem Leads.head {s t : Db × Stage}
    (h : Leads codec paperId workspaceId team (read codec paperId workspaceId team s.1 s.2) t) :
    Leads codec paperId workspaceId team s t := by
  obtain ⟨n,hn⟩ := h
  exact ⟨n + 1,by rw [Function.iterate_succ_apply]; exact hn⟩

theorem Leads.trans {s t u : Db × Stage} (h : Leads codec paperId workspaceId team s t)
    (h' : Leads codec paperId workspaceId team t u) : Leads codec paperId workspaceId team s u := by
  obtain ⟨n,rfl⟩ := h
  obtain ⟨m,rfl⟩ := h'
  exact ⟨m + n,Function.iterate_add_apply ..⟩

theorem leads_snapshot (db : Db) (epoch : ℕ)
    (p : Program Call Call.Reply (Except WorkspaceError WorkspaceCheckpoint)) :
    Leads codec paperId workspaceId team (db,.snapshot epoch p)
      ({ db with store := (p.alone (serve codec) db.store).1 },
        .snapshot epoch (.done (p.alone (serve codec) db.store).2)) := by
  induction p generalizing db with
  | done r => exact .refl _
  | call request next ih => exact .head (ih _ { db with store := (serve codec db.store request).1 })

theorem leads_policies (db : Db) (listed : Listed) (todo : List (Uuid × PaperFile)) :
    Leads codec paperId workspaceId team (db,.policies listed todo)
      (db,.policies { listed with
        identities := listed.identities ++ todo.map fileIdentity
        policies := listed.policies ++ todo.map (filePolicy db) } []) := by
  induction todo generalizing listed with
  | nil =>
    rw [List.map_nil,List.map_nil,List.append_nil,List.append_nil]
    exact .refl _
  | cons file todo ih =>
    have hrest := ih { listed with
      identities := listed.identities ++ [fileIdentity file]
      policies := listed.policies ++ [filePolicy db file] }
    rw [List.append_assoc,List.append_assoc] at hrest
    exact .head hrest

theorem exactManifest_eq (paperId : Uuid) (workspaceId : WorkspaceId) (db : Db) (epoch : ℕ)
    (checkpoint : WorkspaceCheckpoint) (manifest : WorkspaceManifestV1) :
    exactManifest db paperId workspaceId epoch checkpoint manifest =
      assembleManifest paperId workspaceId ⟨⟨epoch,checkpoint,manifest⟩,
        collaborationCutoffs db workspaceId epoch,(liveFiles db workspaceId).map fileIdentity,
        (liveFiles db workspaceId).map (filePolicy db)⟩
        (if (db.paperTeams.get? paperId).isSome then frontMatterField db paperId else []) := rfl

theorem leads_manifest (db : Db) (hteam : team = (db.paperTeams.get? paperId).isSome) (epoch : ℕ)
    (checkpoint : WorkspaceCheckpoint) :
    Leads codec paperId workspaceId team (db,.manifest epoch checkpoint)
      (db,.ended (do
        let bytes ← (getBlob codec db.store checkpoint.manifestBlobHash).mapError
          (fun _ => ⟨500,"snapshot storage failure"⟩)
        let manifest ← require ((codec.fromSlice bytes).bind WorkspaceManifestV1.fromValue)
          ⟨500,"invalid snapshot manifest"⟩
        pure ⟨epoch,checkpoint.workspaceVersion,checkpoint.snapshotId,
          exactManifest db paperId workspaceId epoch checkpoint manifest,
          checkpoint.snapshotId.toHex⟩)) := by
  have hload (k : WorkspaceManifestV1 → Except Response ExactRestoreState) :
      (do
        let bytes ← (getBlob codec db.store checkpoint.manifestBlobHash).mapError
          (fun _ => (⟨500,"snapshot storage failure"⟩ : Response))
        let manifest ← require ((codec.fromSlice bytes).bind WorkspaceManifestV1.fromValue)
          (⟨500,"invalid snapshot manifest"⟩ : Response)
        k manifest) = loadManifest codec db checkpoint >>= k := by
    rw [loadManifest,bind_assoc]
  rw [hload]
  apply Leads.head
  dsimp only [read]
  cases loadManifest codec db checkpoint with
  | error response => exact .refl _
  | ok manifest =>
    refine Leads.head (Leads.head ((leads_policies db _ _).trans (Leads.head ?_)))
    have hmanifest := exactManifest_eq paperId workspaceId db epoch checkpoint manifest
    rw [← hteam] at hmanifest
    dsimp only [bind,Except.bind,pure,Except.pure]
    rw [hmanifest]
    cases team with
    | true => exact .head (.refl _)
    | false => exact .refl _

theorem leads_captureExactV2State (codec : Codec) (paperId : Uuid) (workspaceId : WorkspaceId)
    (db : Db) : Leads codec paperId workspaceId (db.paperTeams.get? paperId).isSome (db,.epoch)
      ((captureExactV2State codec paperId workspaceId db).1,
        .ended (captureExactV2State codec paperId workspaceId db).2) := by
  apply Leads.head
  unfold captureExactV2State
  dsimp only [read]
  split
  · dsimp only [paperDocumentEpoch]
    refine (leads_snapshot _ _ _).trans ?_
    dsimp only
    cases (forceSnapshot codec workspaceId).run.alone (serve codec) db.store with
    | mk store checkpoint =>
      apply Leads.head
      cases checkpoint with
      | error e => exact .refl _
      | ok checkpoint =>
        exact leads_manifest { db with
          documentEpochs := (insertOrKeep db.documentEpochs workspaceId 1).1
          store := store } rfl _ checkpoint
  · exact .refl _

end Alone

/-! ## Captures among the other requests -/

def isCapture : Papers.Label → Bool
  | .capture _ => true
  | _ => false

structure World where
  papers : Papers.World
  captures : List Capture

inductive Label
  | papers (label : Papers.Label) (h : isCapture label = false)
  | begin (paperId : Uuid)
  | read (i : ℕ)

def Stage.isEnded : Stage → Bool
  | .ended _ => true
  | _ => false

def Stage.exactState : Stage → Option ExactRestoreState
  | .ended (.ok exact) => some exact
  | _ => none

def Capture.captured (c : Capture) (stage : Stage) : List Captured :=
  (stage.exactState.map (fun exact => ⟨c.paperId,c.workspaceId,exact⟩)).toList

def readNext (w : World) (i : ℕ) (c : Capture) : World :=
  let (db,stage) := c.read codec w.papers.db
  { papers := ⟨db,w.papers.captured ++ c.captured stage⟩
    captures := w.captures.set i { c with stage := stage } }

def act (w : World) : Label → World
  | .papers label _ => { w with papers := Papers.act codec w.papers label }
  | .begin paperId =>
    match paperWorkspace w.papers.db paperId with
    | none => w
    | some workspaceId => { w with
        captures := w.captures ++
          [⟨paperId,workspaceId,(w.papers.db.paperTeams.get? paperId).isSome,.epoch⟩] }
  | .read i =>
    match w.captures[i]? with
    | none => w
    | some c => if c.stage.isEnded then w else readNext codec w i c

/-- One request or one read; the next one comes later. -/
def step (w : World) (label : Label) : World :=
  let w := act codec w label
  { w with papers := w.papers.tick }

/-- The blob that the next read of a capture puts. -/
def Stage.puts : Stage → List Bytes
  | .snapshot _ (.call request _) => request.puts.toList
  | _ => []

/-- The blobs whose write a step performs. -/
def blobsPut (w : World) : Label → List Bytes
  | .papers label _ => Papers.blobsPut codec w.papers label
  | .begin _ => []
  | .read i => ((w.captures[i]?).map (fun c => c.stage.puts)).getD []

end LatexCore.Captures
