import LatexCore.Papers.Create
import LatexCore.Queue.Submit

/-! # Exact states and governed restorations

The exact state of a paper is a snapshot of its workspace with a manifest: the files, the
identity of each live file and, for a team, the front matter. A restoration records the
state before it as a safety version, deletes every live file and puts every file of the
target version in one event, and makes the snapshot of the target that of the new head.
Each restored path gets the identity that the target recorded for it, else that of the
live file there, else a fresh one.
-/
namespace LatexCore.Papers
open Core Foundation Workspace
open Collaboration (V2FilePolicy)

/-! ## Recorded versions -/

structure ExactRestoreState where
  documentEpoch : ℕ
  workspaceVersion : ℕ
  snapshotId : SnapshotId
  manifest : Value
  stateHash : String

/-- `list_live_paper_files`: in the order of the paths. -/
def liveFiles (db : Db) (workspaceId : WorkspaceId) : List (Uuid × PaperFile) :=
  (db.files.table.rows.filter (fun r => r.2.workspaceId == workspaceId && !r.2.tombstoned)).insertionSort
    (fun a b => (compare a.2.path b.2.path).isLE = true)

def optionToValue (text : Option String) : Value := (text.map Value.str).getD .null

def fileIdentity (r : Uuid × PaperFile) : Value :=
  .obj [("file_id",idToValue r.1),("path",.str r.2.path.text)]

def policyText : V2FilePolicy → String
  | .editable => "EDITABLE"
  | .contentReadOnly => "CONTENT_READ_ONLY"
  | .structureLocked => "STRUCTURE_LOCKED"
  | .templateManaged => "TEMPLATE_MANAGED"
  | .hiddenSystem => "HIDDEN_SYSTEM"

def filePolicy (db : Db) (r : Uuid × PaperFile) : Value :=
  .obj [("file_id",idToValue r.1),("policy",.str (policyText ((db.policies.get? r.1).getD .editable)))]

/-- `collaboration_cutoffs` of one file: its last durable update in the epoch. -/
def collaborationCutoff (db : Db) (workspaceId : WorkspaceId) (epoch : ℕ) (r : Uuid × PaperFile) :
    Value :=
  let sequence := (db.updates.filter (fun u => u.document == ⟨⟨workspaceId,r.1⟩,epoch⟩)).foldl
    (fun n u => max n u.id) 0
  .obj [("file_id",idToValue r.1),("durable_sequence",.ofNat sequence)]

/-- The rows of a team in one of the front matter tables, in the order of their keys. -/
def sectionRows {ν : Type} (t : Table (Uuid × String) ν) (paperId : Uuid) : List (String × ν) :=
  ((t.rows.filter (fun r => r.1.1 == paperId)).map (fun r => (r.1.2,r.2))).insertionSort
    (fun a b => (compare a.1 b.1).isLE = true)

def frontMatterVersionState (db : Db) (paperId : Uuid) : Option Value :=
  (db.frontMatterPins.get? paperId).map fun pin =>
    .obj [("schema_version",.ofNat 1),
      ("pin",.obj [("front_matter_pack_id",idToValue pin.frontMatterPackId),
        ("dominant_programme_code",optionToValue pin.dominantProgrammeCode),
        ("resolution_method",.str pin.resolutionMethod),("status",.str pin.status),
        ("missing_required_fields",pin.missingRequiredFields),
        ("last_error",optionToValue pin.lastError)]),
      ("values",.arr ((sectionRows db.frontMatterValues paperId).map (fun r =>
        .obj [("field_key",.str r.1),("value_json",r.2.valueJson),
          ("value_source",.str r.2.valueSource),
          ("updated_by_user_id",idToValue r.2.updatedByUserId)]))),
      ("sections",.arr ((sectionRows db.frontMatterSections paperId).map (fun r =>
        .obj [("section_key",.str r.1),("enabled",.bool r.2.1),
          ("updated_by_user_id",idToValue r.2.2)])))]

def exactManifest (db : Db) (paperId : Uuid) (workspaceId : WorkspaceId) (epoch : ℕ)
    (checkpoint : WorkspaceCheckpoint) (manifest : WorkspaceManifestV1) : Value :=
  let files := liveFiles db workspaceId
  let frontMatter := if (db.paperTeams.get? paperId).isSome then
    [("front_matter",(frontMatterVersionState db paperId).getD .null)] else []
  .obj ([("schema_version",.ofNat 1),("paper_id",idToValue paperId),
    ("workspace_id",idToValue workspaceId),("document_epoch",.ofNat epoch),
    ("source_sequence",.ofNat checkpoint.workspaceVersion),
    ("workspace_snapshot_id",.str checkpoint.snapshotId.toHex),
    ("collaboration_cutoffs",.arr ((files.insertionSort (fun a b => a.1 ≤ b.1)).map
      (collaborationCutoff db workspaceId epoch))),
    ("file_identities",.arr (files.map fileIdentity)),("workspace",manifest.toValue),
    ("template_policy_provenance",.obj [("file_policies",.arr (files.map (filePolicy db)))])] ++
    frontMatter)

/-- The status code and the text of a failed request. -/
structure Response where
  status : ℕ
  message : String
deriving DecidableEq

/-- `paper_document_epoch`: a workspace without a collaboration state gets one. -/
def paperDocumentEpoch (db : Db) (workspaceId : WorkspaceId) : Db × ℕ :=
  let (epochs,epoch) := insertOrKeep db.documentEpochs workspaceId 1
  ({ db with documentEpochs := epochs },epoch)

/-- `capture_exact_v2_state` of a paper, with nobody else at work on the tables. -/
def captureExactV2State (codec : Codec) (paperId : Uuid) (workspaceId : WorkspaceId) (db : Db) :
    Db × Except Response ExactRestoreState :=
  if (db.store.workspaces.get? workspaceId).isSome then
    let (db,epoch) := paperDocumentEpoch db workspaceId
    let (store,checkpoint) := (forceSnapshot codec workspaceId).run.alone (serve codec) db.store
    let db := { db with store := store }
    (db,do
      let checkpoint ← checkpoint.mapError (fun _ => ⟨400,"paper must have a main file"⟩)
      let bytes ← (getBlob codec db.store checkpoint.manifestBlobHash).mapError
        (fun _ => ⟨500,"snapshot storage failure"⟩)
      let manifest ← require ((codec.fromSlice bytes).bind WorkspaceManifestV1.fromValue)
        ⟨500,"invalid snapshot manifest"⟩
      pure ⟨epoch,checkpoint.workspaceVersion,checkpoint.snapshotId,
        exactManifest db paperId workspaceId epoch checkpoint manifest,
        checkpoint.snapshotId.toHex⟩)
  else (db,.error ⟨500,"V2 persistence failed"⟩)

/-! ## Versions -/

/-- `INSERT INTO paper_versions`, with the references of its row. -/
def insertPaperVersion (db : Db) (id : Uuid) (version : Queue.Version) : Except V2Error Db := do
  ensure (db.store.workspaces.get? version.workspaceId).isSome
    (.database "paper_versions_workspace_id_fkey")
  ensure (db.store.users.contains version.createdByUserId)
    (.database "paper_versions_created_by_user_id_fkey")
  ensure (db.store.snapshots.get? version.snapshotId).isSome
    (.database "paper_versions_snapshot_id_fkey")
  ensure (isDigestText version.stateHash) (.database "paper_versions_state_hash_digest")
  let queue ← (Queue.insertVersion db.queue id version).mapError .database
  pure { db with queue := queue }

def writerAccess (db : Db) (actor : UserId) (paperId : Uuid) (workspaceId : WorkspaceId) :
    Option PaperStatus :=
  if db.roles.get? actor = some .writer then
    let personal := (db.personalPapers.get? paperId).filter
      (fun p => p.workspaceId == workspaceId && p.ownerUserId == actor)
    let team := (db.paperTeams.get? paperId).filter
      (fun t => t.workspaceId == workspaceId && (db.members.get? (paperId,actor)).isSome)
    (personal.map PersonalPaper.status).or (team.map PaperTeam.status)
  else none

def requireWriterAccess (db : Db) (actor : UserId) (paperId : Uuid) (workspaceId : WorkspaceId)
    (active : Bool) : Except V2Error Unit := do
  let status ← require (writerAccess db actor paperId workspaceId) (.notFound "paper")
  ensure (!active || status = .active) (.conflict "read-only paper")

def createManualVersion (paperId : Uuid) (workspaceId : WorkspaceId) (exact : ExactRestoreState)
    (actor : UserId) (name : String) (id : Uuid) (db : Db) : Except V2Error (Db × Uuid) := do
  ensure (!(trim name).isEmpty && (trim name).toList.length ≤ 200) .invalidName
  requireWriterAccess db actor paperId workspaceId true
  let queue ← Queue.lockScheduler db.queue paperId workspaceId
  let number := Queue.nextVersionNumber queue workspaceId
  toI64 exact.documentEpoch "document epoch"
  toI64 number "version number"
  toI64 exact.workspaceVersion "workspace version"
  let db ← insertPaperVersion { db with queue := queue } id
    ⟨paperId,workspaceId,exact.documentEpoch,number,.manualCheckpoint,actor,exact.workspaceVersion,
      exact.snapshotId,exact.manifest,exact.stateHash⟩
  pure (db,id)

/-! ## Restorations -/

inductive RestoreKind
  | team | personal
deriving DecidableEq

def RestoreKind.versionType : RestoreKind → Queue.VersionType
  | .team => .teamRevert
  | .personal => .adminRestoration

structure RestorationApplied where
  appliedVersionId : Uuid
  safetyVersionId : Uuid
  documentEpoch : ℕ
  workspaceVersion : ℕ
deriving DecidableEq

/-- The identifiers that a restoration draws. -/
structure FreshRestore where
  safety : Uuid
  applied : Uuid
  file : ℕ → Uuid

/-! ## Front matter -/

def stateField {α : Type} (value : Value) (name : String) (decode : Value → Option α)
    (message : String) : Except V2Error α :=
  require ((value.get? name).bind decode) (.integrity message)

def resolutionMethods : List String := ["PROGRAMME_DEFAULT","GLOBAL_FALLBACK","MANUAL_OVERRIDE"]

def frontMatterStatuses : List String :=
  ["READY","NEEDS_INFORMATION","INCOMPATIBLE_TEMPLATE","RENDER_FAILED"]

def valueSources : List String := ["AUTO","PACK_DEFAULT","TEAM_OVERRIDE"]

def insertFrontMatterPin (db : Db) (paperId : Uuid) (pin : FrontMatterPin) : Except V2Error Db := do
  ensure (db.frontMatterPacks.contains pin.frontMatterPackId)
    (.database "paper_front_matter_pins_front_matter_pack_id_fkey")
  ensure (pin.dominantProgrammeCode.all db.programmes.contains)
    (.database "paper_front_matter_pins_dominant_programme_code_fkey")
  ensure (resolutionMethods.contains pin.resolutionMethod)
    (.database "paper_front_matter_resolution_method")
  ensure (frontMatterStatuses.contains pin.status) (.database "paper_front_matter_status")
  ensure pin.missingRequiredFields.asArr?.isSome (.database "paper_front_matter_missing_array")
  ensure (pin.lastError.all (fun e => e.toList.length ≤ 4000))
    (.database "paper_front_matter_error_length")
  let pins ← require (db.frontMatterPins.insert? paperId pin)
    (.database "paper_front_matter_pins_pkey")
  pure { db with frontMatterPins := pins }

def keyLength (key : String) (constraint : String) : Except V2Error Unit :=
  ensure (1 ≤ key.toList.length && key.toList.length ≤ 100) (.database constraint)

def restoreValues (actor : UserId) (paperId : Uuid) : List Value → Db → Except V2Error Db
  | [], db => .ok db
  | value :: rest, db => do
    let key ← stateField value "field_key" Value.asStr? "Front Matter version value has no key"
    let content ← stateField value "value_json" some "Front Matter version value has no value"
    let source ← stateField value "value_source" Value.asStr?
      "Front Matter version value has no source"
    keyLength key "paper_front_matter_field_key_length"
    ensure (valueSources.contains source) (.database "paper_front_matter_value_source")
    let values ← require (db.frontMatterValues.insert? (paperId,key) ⟨content,source,actor⟩)
      (.database "paper_front_matter_values_pkey")
    restoreValues actor paperId rest { db with frontMatterValues := values }

def restoreSections (actor : UserId) (paperId : Uuid) : List Value → Db → Except V2Error Db
  | [], db => .ok db
  | sectionState :: rest, db => do
    let key ← stateField sectionState "section_key" Value.asStr?
      "Front Matter version section has no key"
    let enabled ← stateField sectionState "enabled" Value.asBool?
      "Front Matter version section has no enabled state"
    keyLength key "paper_front_matter_section_key_length"
    let sections ← require (db.frontMatterSections.insert? (paperId,key) (enabled,actor))
      (.database "paper_front_matter_sections_pkey")
    restoreSections actor paperId rest { db with frontMatterSections := sections }

/-- The elements of an array field; anything else has none. -/
def elements (value : Value) (name : String) : List Value :=
  ((value.get? name).bind Value.asArr?).getD []

def clearFrontMatter (db : Db) (paperId : Uuid) : Db :=
  { db with
    frontMatterSections := db.frontMatterSections.deleteWhere (fun k _ => k.1 == paperId)
    frontMatterValues := db.frontMatterValues.deleteWhere (fun k _ => k.1 == paperId)
    frontMatterPins := db.frontMatterPins.deleteWhere (fun k _ => k == paperId) }

def isNull : Value → Bool
  | .null => true
  | _ => false

def restoreFrontMatterVersionState (actor : UserId) (paperId : Uuid) (state : Option Value)
    (db : Db) : Except V2Error Db :=
  let db := clearFrontMatter db paperId
  match state.filter (fun value => !isNull value) with
  | none => .ok db
  | some state => do
    ensure ((state.get? "schema_version").bind Value.asU64? = some 1)
      (.integrity "invalid Front Matter version state")
    let pin ← stateField state "pin" some "Front Matter version state has no pin"
    let pack ← stateField pin "front_matter_pack_id" idFromValue
      "Front Matter version state has invalid front_matter_pack_id"
    let method ← stateField pin "resolution_method" Value.asStr?
      "Front Matter version state has no resolution method"
    let text (name : String) := (pin.get? name).bind Value.asStr?
    let db ← insertFrontMatterPin db paperId ⟨pack,text "dominant_programme_code",method,actor,
      (text "status").getD "READY",(pin.get? "missing_required_fields").getD (.arr []),
      text "last_error"⟩
    let db ← restoreValues actor paperId (elements state "values") db
    restoreSections actor paperId (elements state "sections") db

/-! ## Files -/

/-- One entry of `file_identities`; an entry that does not decode is passed over. -/
def decodeIdentity (entry : Value) : Option (String × Uuid) := do
  let path ← (entry.get? "path").bind Value.asStr?
  let fileId ← (entry.get? "file_id").bind idFromValue
  pure (path,fileId)

/-- The recorded identity of a path; of two entries the later one counts. -/
def identityOf (manifest : Value) (path : LogicalPath) : Option Uuid :=
  (((elements manifest "file_identities").filterMap decodeIdentity).reverse.find?
    (fun e => e.1 == path.text)).map Prod.snd

def livePath (db : Db) (workspaceId : WorkspaceId) (path : LogicalPath) : Option Uuid :=
  ((liveFiles db workspaceId).find? (fun r => r.2.path == path)).map Prod.fst

def chosenIdentity (before : Db) (workspaceId : WorkspaceId) (manifest : Value) (path : LogicalPath)
    (fresh : Uuid) : Uuid :=
  ((identityOf manifest path).or (livePath before workspaceId path)).getD fresh

def PaperFile.restoreAt (path : LogicalPath) (file : PaperFile) : PaperFile :=
  { file with path := path, tombstoned := false, revision := file.revision + 1 }

def materialize (before : Db) (workspaceId : WorkspaceId) (chosen : Uuid) (path : LogicalPath)
    (db : Db) : Except V2Error Db :=
  if (before.files.get? chosen).any (fun f => f.workspaceId == workspaceId) then
    updateFile db chosen (PaperFile.restoreAt path)
      (.database "paper_files_live_workspace_path_unique_idx")
  else insertFile db chosen workspaceId path (.database "paper_files_live_workspace_path_unique_idx")

def materializeAll (before : Db) (workspaceId : WorkspaceId) (manifest : Value) (fresh : ℕ → Uuid) :
    ℕ → List LogicalPath → Db → Except V2Error Db
  | _, [], db => .ok db
  | n, path :: rest, db => do
    let db ← materialize before workspaceId (chosenIdentity before workspaceId manifest path (fresh n))
      path db
    materializeAll before workspaceId manifest fresh (n + 1) rest db

def tombstoneAll (db : Db) (workspaceId : WorkspaceId) : Db :=
  { db with
    files := db.files.updateWhere (fun _ f => f.workspaceId == workspaceId && !f.tombstoned)
      PaperFile.tombstone liveIndex_tombstone }

def putEntry (entry : LogicalPath × FileEntryV1) : WorkspaceOperationV1 :=
  .putFile entry.1 entry.2.blobHash entry.2.sizeBytes

/-- The one event of a restoration. -/
def restoreOperations (before : Db) (workspaceId : WorkspaceId) (manifest : WorkspaceManifestV1) :
    List WorkspaceOperationV1 :=
  (liveFiles before workspaceId).map (fun r => .deleteFile r.2.path) ++
    manifest.files.toList.map putEntry ++ [.setMainFile manifest.mainFile]

/-! ## The restoration -/

def targetVersion (db : Db) (paperId : Uuid) (workspaceId : WorkspaceId) (target : Uuid) :
    Except V2Error (Queue.Version × WorkspaceManifestV1) := do
  let version ← require ((db.queue.versions.get? target).filter
    (fun v => v.paperId == paperId && v.workspaceId == workspaceId)) (.notFound "target paper version")
  let workspace ← require (version.manifest.get? "workspace")
    (.integrity "target version lacks workspace manifest")
  let manifest ← require (WorkspaceManifestV1.fromValue workspace)
    (.integrity "invalid target workspace manifest")
  pure (version,manifest)

/-- The snapshot of the target becomes that of the new head. -/
def recordRestoredSnapshot (s : Store) (workspaceId : WorkspaceId) (next : ℕ)
    (snapshotId : SnapshotId) : Except V2Error Store := do
  ensure (s.snapshots.get? snapshotId).isSome (.database "workspace_snapshots_snapshot_fk")
  let workspaceSnapshots ← require (s.workspaceSnapshots.insert? (workspaceId,next) snapshotId)
    (.database "workspace_snapshots_pk")
  pure { s with
    workspaceSnapshots := workspaceSnapshots
    heads := s.heads.modify workspaceId (fun h => { h with latestSnapshotVersion := some next }) }

def raiseEpoch (db : Db) (workspaceId : WorkspaceId) : Except V2Error (Db × ℕ) := do
  let epoch ← require (db.documentEpochs.get? workspaceId) (.database "paper_collaboration_state")
  ensure (epoch < i64Max) (.database "bigint out of range")
  pure ({ db with documentEpochs := db.documentEpochs.modify workspaceId (· + 1) },epoch + 1)

def appliedManifest (manifest : Value) (epoch next : ℕ) (target : Uuid) : Value :=
  ((manifest.set "document_epoch" (.ofNat epoch)).set "source_sequence" (.ofNat next)).set
    "restored_from_version_id" (idToValue target)

/-- The restored state becomes the desired one, with nothing active and nothing pending. -/
def desireRestored (queue : Queue.Db) (workspaceId : WorkspaceId) (stateHash : String) (next : ℕ) :
    Queue.Db :=
  { queue with
    schedulers := queue.schedulers.modify workspaceId (fun s => { s with
      desiredStateHash := some stateHash
      desiredSourceSequence := some next
      activeBuildId := none
      pending := none }) }

def restoreTeamFrontMatter (kind : RestoreKind) (actor : UserId) (paperId : Uuid)
    (state : Option Value) (db : Db) : Except V2Error Db :=
  match kind with
  | .team => restoreFrontMatterVersionState actor paperId state db
  | .personal => .ok db

def governanceI64 (value : ℕ) : Except V2Error Unit :=
  ensure (value ≤ i64Max) (.integrity "governance number exceeds PostgreSQL BIGINT")

def applyRestore (actor : UserId) (paperId : Uuid) (workspaceId : WorkspaceId) (target : Uuid)
    (safety : ExactRestoreState) (kind : RestoreKind) (fresh : FreshRestore) (db : Db) :
    Except V2Error (Db × RestorationApplied) := do
  ensure (safety.workspaceVersion ≠ 0 && safety.stateHash.utf8ByteSize = 64)
    (.integrity "invalid pre-restore exact state")
  let head ← require (db.store.heads.get? workspaceId) (.database "workspace_heads")
  let actual := head.durableVersion
  ensure (actual = safety.workspaceVersion) (.versionConflict safety.workspaceVersion actual)
  let (version,manifest) ← targetVersion db paperId workspaceId target
  let number := Queue.nextVersionNumber db.queue workspaceId
  governanceI64 safety.documentEpoch
  let db ← insertPaperVersion db fresh.safety ⟨paperId,workspaceId,safety.documentEpoch,number,
    .preRestoreSafety,actor,actual,safety.snapshotId,safety.manifest,safety.stateHash⟩
  let db ← restoreTeamFrontMatter kind actor paperId (version.manifest.get? "front_matter") db
  let before := db
  let db ← materializeAll before workspaceId version.manifest fresh.file 0 manifest.files.keys
    (tombstoneAll db workspaceId)
  let next := actual + 1
  ensure (next ≤ i64Max) (.integrity "workspace version overflow")
  let store ← insertNextEvent db.store workspaceId actor head
    (restoreOperations before workspaceId manifest)
  let store ← recordRestoredSnapshot store workspaceId next version.snapshotId
  let (db,epoch) ← raiseEpoch { db with store := store } workspaceId
  let db ← insertPaperVersion db fresh.applied ⟨paperId,workspaceId,epoch,number + 1,kind.versionType,
    actor,next,version.snapshotId,appliedManifest version.manifest epoch next target,version.stateHash⟩
  pure ({ db with queue := desireRestored db.queue workspaceId version.stateHash next },
    ⟨fresh.applied,fresh.safety,epoch,next⟩)

/-! ## Who may restore -/

def validateNote (note : Option String) : Except V2Error Unit :=
  ensure (note.all (fun value => value.toList.length ≤ 4000))
    (.integrity "governance note exceeds 4000 characters")

def trimmedNote (note : Option String) : Option String :=
  (note.map trim).filter (fun value => !value.isEmpty)

def ledTeam (db : Db) (leader : UserId) (paperId : Uuid) : Option PaperTeam :=
  (db.paperTeams.get? paperId).filter (fun team => team.status != .archived &&
    (db.members.get? (paperId,leader)).any (fun m => m.isLeader))

def notTeamLeader (leader : UserId) : V2Error := .roleForbidden leader "Team Leader" .writer

def createRestorationRequest (writer : UserId) (paperId target : Uuid) (reason : Option String)
    (id : Uuid) (db : Db) : Except V2Error (Db × Uuid) := do
  validateNote reason
  requireRoleTx db writer .writer
  let team ← require ((db.paperTeams.get? paperId).filter (fun team => team.status != .archived &&
    (db.members.get? (paperId,writer)).isSome)) (.notFound "assigned Team Paper")
  ensure ((db.queue.versions.get? target).any
    (fun v => v.paperId == paperId && v.workspaceId == team.workspaceId))
    (.notFound "target paper version")
  let requests ← require (db.requests.insert? id ⟨paperId,team.workspaceId,writer,target,.requested,
    trimmedNote reason,none,none,none⟩) (.database "restoration_requests_pkey")
  pure ({ db with requests := requests },id)

def leaderRejectRestoration (leader : UserId) (request : Uuid) (note : Option String) (db : Db) :
    Except V2Error (Db × Unit) := do
  validateNote note
  requireRoleTx db leader .writer
  let row ← require ((db.requests.get? request).filter (fun r => r.state == .requested))
    (.conflict "requested Team revert")
  let _ ← require (ledTeam db leader row.paperId) (notTeamLeader leader)
  pure ({ db with requests := db.requests.modify request (fun r => { r with
    state := .leaderRejected
    leaderWriterUserId := some leader
    leaderDecisionNote := trimmedNote note }) },())

def applyTeamRestoration (leader : UserId) (request : Uuid) (safety : ExactRestoreState)
    (note : Option String) (fresh : FreshRestore) (db : Db) :
    Except V2Error (Db × RestorationApplied) := do
  validateNote note
  requireRoleTx db leader .writer
  let row ← require ((db.requests.get? request).filter (fun r => r.state == .requested))
    (.conflict "requested Team revert")
  let _ ← require (ledTeam db leader row.paperId) (notTeamLeader leader)
  let (db,applied) ← applyRestore leader row.paperId row.workspaceId row.targetVersionId safety .team
    fresh db
  pure ({ db with requests := db.requests.modify request (fun r => { r with
    state := .applied
    leaderWriterUserId := some leader
    leaderDecisionNote := trimmedNote note
    appliedVersionId := some applied.appliedVersionId }) },applied)

def applyDirectTeamRestoration (leader : UserId) (paperId target : Uuid) (safety : ExactRestoreState)
    (fresh : FreshRestore) (db : Db) : Except V2Error (Db × RestorationApplied) := do
  requireRoleTx db leader .writer
  let team ← require (ledTeam db leader paperId) (notTeamLeader leader)
  ensure ((db.queue.versions.get? target).any
    (fun v => v.paperId == paperId && v.workspaceId == team.workspaceId))
    (.notFound "target paper version")
  applyRestore leader paperId team.workspaceId target safety .team fresh db

def applyPersonalRestoration (writer : UserId) (paperId target : Uuid) (safety : ExactRestoreState)
    (fresh : FreshRestore) (db : Db) : Except V2Error (Db × RestorationApplied) := do
  requireRoleTx db writer .writer
  let paper ← require ((db.personalPapers.get? paperId).filter
    (fun p => p.ownerUserId == writer && p.status == .active))
    (.notFound "owned active personal paper")
  applyRestore writer paperId paper.workspaceId target safety .personal fresh db

end LatexCore.Papers
