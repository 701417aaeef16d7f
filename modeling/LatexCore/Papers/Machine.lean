import LatexCore.Papers.Restore
import LatexCore.Papers.Create
import LatexCore.Papers.Edits
import LatexCore.Queue.Submit

/-! # The papers as one machine

A run is a list of requests in the order in which their transactions commit. The
exact states that the server has captured are kept beside the tables: a version
records one of them, a build compiles one, and a restoration takes one as the
state to fall back to.
-/
namespace LatexCore.Papers
open Core Foundation Workspace
open Collaboration (CollaborationUpdateInput V2FilePolicy)

/-- The requests to the repository that are one transaction on the tables alone. -/
inductive Request
  | setGlobalRole (user : UserId) (role : GlobalRole)
  | removeGlobalRole (user : UserId)
  | createPersonalPaper (owner : UserId) (workspaceId : WorkspaceId) (name : String) (id : Uuid)
  | createInitializedPersonalPaper (owner : UserId) (tenant : TenantId) (workspaceId : WorkspaceId)
      (name : String) (mainPath : LogicalPath) (blobHash : BlobHash) (sizeBytes : UInt64)
      (id fileId : Uuid)
  | createPaperTeam (creator : UserId) (workspaceId : WorkspaceId) (name : String) (leader : UserId)
      (id : Uuid)
  | createInitializedPaperTeam (creator : UserId) (tenant : TenantId) (workspaceId : WorkspaceId)
      (name : String) (leader : UserId) (writers mentors : List UserId) (mainPath : LogicalPath)
      (blobHash : BlobHash) (sizeBytes : UInt64) (id fileId : Uuid)
  | createTemplatePaperTeam (admin : UserId) (tenant : TenantId) (workspaceId : WorkspaceId)
      (name : String) (leader : UserId) (writers mentors : List UserId) (templateId : Uuid)
      (sourceIdentity : String) (mainPath : LogicalPath) (files : List TemplateSeedFile) (id : Uuid)
      (fileId : ℕ → Uuid)
  | setPersonalPaperStatus (id : Uuid) (status : PaperStatus)
  | setPaperTeamStatus (id : Uuid) (status : PaperStatus)
  | addPaperTeamMember (teamId : Uuid) (userId assignedBy : UserId)
  | removePaperTeamMember (teamId : Uuid) (userId removedBy : UserId)
  | changePaperTeamLeader (teamId : Uuid) (leader changedBy : UserId)
  | setFilePolicy (admin : UserId) (paperId fileId : Uuid) (policy : V2FilePolicy)
  | createFile (workspaceId : WorkspaceId) (actor : UserId) (expected : WorkspaceVersion)
      (path : LogicalPath) (blobHash : BlobHash) (sizeBytes : UInt64) (fresh : FreshFile)
  | saveFile (fileId : Uuid) (actor : UserId) (expected : WorkspaceVersion) (blobHash : BlobHash)
      (sizeBytes : UInt64)
  | renameFile (fileId : Uuid) (actor : UserId) (expected : WorkspaceVersion) (path : LogicalPath)
      (operation : Uuid)
  | deleteFile (fileId : Uuid) (actor : UserId) (expected : WorkspaceVersion) (blobHash : BlobHash)
      (sizeBytes : UInt64) (wasMain : Bool) (operation : Uuid)
  | setMain (fileId : Uuid) (actor : UserId) (expected : WorkspaceVersion)
      (previousMain : Option LogicalPath) (operation : Uuid)
  | structuralUndo (paperId : Uuid) (workspaceId : WorkspaceId) (actor : UserId)
  | structuralRedo (paperId : Uuid) (workspaceId : WorkspaceId) (actor : UserId)
  | collaborationBatch (workspaceId : WorkspaceId) (fileId : Uuid) (documentEpoch : ℕ)
      (inputs : List (CollaborationUpdateInput Bytes)) (blobHash : BlobHash) (sizeBytes : UInt64)
  | createRestorationRequest (writer : UserId) (paperId target : Uuid) (reason : Option String)
      (id : Uuid)
  | leaderRejectRestoration (leader : UserId) (request : Uuid) (note : Option String)

/-- `set_file_policy`: the policy of a live file of a team, front matter apart. -/
def setFilePolicy (admin : UserId) (paperId fileId : Uuid) (policy : V2FilePolicy) (db : Db) :
    Except V2Error (Db × Unit) := do
  requireRoleTx db admin .admin
  let team ← require (db.paperTeams.get? paperId) (.notFound "Paper Team file")
  let file ← require ((db.files.get? fileId).filter
    (fun f => f.workspaceId == team.workspaceId && !f.tombstoned)) (.notFound "Paper Team file")
  let current := (db.policies.get? fileId).getD .editable
  ensure (!(managedPrefix.isPrefixOf file.path.text.toList) ||
    (current = .hiddenSystem && policy = .hiddenSystem)) (.conflict "managed Front Matter file policy")
  pure ({ db with policies := db.policies.upsert fileId policy },())

/-- The tables after the transaction of a request. -/
def serveRequest (db : Db) : Request → Db
  | .setGlobalRole user role => commit (setGlobalRole user role) db
  | .removeGlobalRole user => commit (removeGlobalRole user) db
  | .createPersonalPaper owner workspaceId name id =>
    commit (createPersonalPaper owner workspaceId name id) db
  | .createInitializedPersonalPaper owner tenant workspaceId name mainPath blobHash sizeBytes id
      fileId =>
    commit (createInitializedPersonalPaper owner tenant workspaceId name mainPath blobHash sizeBytes
      id fileId) db
  | .createPaperTeam creator workspaceId name leader id =>
    commit (createPaperTeam creator workspaceId name leader id) db
  | .createInitializedPaperTeam creator tenant workspaceId name leader writers mentors mainPath
      blobHash sizeBytes id fileId =>
    commit (createInitializedPaperTeam creator tenant workspaceId name leader writers mentors mainPath
      blobHash sizeBytes id fileId) db
  | .createTemplatePaperTeam admin tenant workspaceId name leader writers mentors templateId
      sourceIdentity mainPath files id fileId =>
    commit (createTemplatePaperTeam admin tenant workspaceId name leader writers mentors templateId
      sourceIdentity mainPath files id fileId) db
  | .setPersonalPaperStatus id status => commit (setPersonalPaperStatus id status) db
  | .setPaperTeamStatus id status => commit (setPaperTeamStatus id status) db
  | .addPaperTeamMember teamId userId assignedBy =>
    commit (addPaperTeamMember teamId userId assignedBy) db
  | .removePaperTeamMember teamId userId removedBy =>
    commit (removePaperTeamMember teamId userId removedBy) db
  | .changePaperTeamLeader teamId leader changedBy =>
    commit (changePaperTeamLeader teamId leader changedBy) db
  | .setFilePolicy admin paperId fileId policy => commit (setFilePolicy admin paperId fileId policy) db
  | .createFile workspaceId actor expected path blobHash sizeBytes fresh =>
    commit (createFileWithEvent workspaceId actor expected path blobHash sizeBytes fresh) db
  | .saveFile fileId actor expected blobHash sizeBytes =>
    commit (saveFileWithEvent fileId actor expected blobHash sizeBytes) db
  | .renameFile fileId actor expected path operation =>
    commit (renameFileWithEvent fileId actor expected path operation) db
  | .deleteFile fileId actor expected blobHash sizeBytes wasMain operation =>
    commit (deleteFileWithEvent fileId actor expected blobHash sizeBytes wasMain operation) db
  | .setMain fileId actor expected previousMain operation =>
    commit (setMainWithEvent fileId actor expected previousMain operation) db
  | .structuralUndo paperId workspaceId actor => commit (structuralUndo paperId workspaceId actor) db
  | .structuralRedo paperId workspaceId actor => commit (structuralRedo paperId workspaceId actor) db
  | .collaborationBatch workspaceId fileId documentEpoch inputs blobHash sizeBytes =>
    commit (persistCollaborationBatch workspaceId fileId documentEpoch inputs blobHash sizeBytes) db
  | .createRestorationRequest writer paperId target reason id =>
    commit (createRestorationRequest writer paperId target reason id) db
  | .leaderRejectRestoration leader request note =>
    commit (leaderRejectRestoration leader request note) db

structure Captured where
  paperId : Uuid
  workspaceId : WorkspaceId
  exact : ExactRestoreState

structure World where
  db : Db
  captured : List Captured

/-- A restoration, which falls back to the state that was captured for it. -/
inductive Restoration
  | team (leader : UserId) (request : Uuid) (note : Option String) (fresh : FreshRestore)
  | directTeam (leader : UserId) (target : Uuid) (fresh : FreshRestore)
  | personal (writer : UserId) (target : Uuid) (fresh : FreshRestore)

def Restoration.workspace (db : Db) (paperId : Uuid) : Restoration → Option WorkspaceId
  | .team _ request _ _ => ((db.requests.get? request).filter (fun r => r.paperId == paperId)).map
      RestorationRequest.workspaceId
  | .directTeam .. => (db.paperTeams.get? paperId).map PaperTeam.workspaceId
  | .personal .. => (db.personalPapers.get? paperId).map PersonalPaper.workspaceId

def applyRestoration (c : Captured) (restoration : Restoration) (db : Db) :
    Except V2Error (Db × RestorationApplied) := do
  ensure (restoration.workspace db c.paperId = some c.workspaceId) (.notFound "paper")
  match restoration with
  | .team leader request note fresh => applyTeamRestoration leader request c.exact note fresh db
  | .directTeam leader target fresh =>
    applyDirectTeamRestoration leader c.paperId target c.exact fresh db
  | .personal writer target fresh => applyPersonalRestoration writer c.paperId target c.exact fresh db

def Restoration.target (db : Db) : Restoration → Option Uuid
  | .team _ request _ _ => (db.requests.get? request).map RestorationRequest.targetVersionId
  | .directTeam _ target _ | .personal _ target _ => some target

/-- The submission of `v2_submit_build`, for the state that it captured. -/
def buildRequest (c : Captured) (tenantId : TenantId) (userId : UserId) (triggerType : String)
    (compileKey : CompileKey) (environment : String) : Queue.V2BuildRequest where
  paperId := c.paperId
  workspaceId := c.workspaceId
  documentEpoch := c.exact.documentEpoch
  sourceSequence := c.exact.workspaceVersion
  manifest := c.exact.manifest
  stateHash := c.exact.stateHash
  tenantId := tenantId
  userId := userId
  triggerType := triggerType
  inputs := ⟨c.exact.snapshotId,compileKey,.pdfLatex,environment,"safe-v1",.safe,true⟩

def isSubmission : Queue.QueueOp → Bool
  | .submitV2Build .. => true
  | _ => false

inductive Label
  | put (bytes : Bytes)
  | capture (paperId : Uuid)
  | request (request : Request)
  | createManualVersion (captured : ℕ) (actor : UserId) (name : String) (id : Uuid)
  | restore (captured : ℕ) (restoration : Restoration)
  | submitV2Build (captured : ℕ) (tenantId : TenantId) (userId : UserId) (triggerType : String)
      (compileKey : CompileKey) (environment : String) (facts : Queue.SubmitFacts)
      (rank : Uuid → ℕ) (fresh : Queue.FreshIds) (clock : Queue.Clock)
  | queue (limits : Queue.QueueLimits) (op : Queue.QueueOp) (h : isSubmission op = false)

def paperWorkspace (db : Db) (paperId : Uuid) : Option WorkspaceId :=
  ((db.personalPapers.get? paperId).map PersonalPaper.workspaceId).or
    ((db.paperTeams.get? paperId).map PaperTeam.workspaceId)

variable (codec : Codec)

/-- The capture of a paper, which a failure may leave half done. -/
def capturePaper (w : World) (paperId : Uuid) : World :=
  match paperWorkspace w.db paperId with
  | none => w
  | some workspaceId =>
    match captureExactV2State codec paperId workspaceId w.db with
    | (db,.ok exact) => ⟨db,w.captured ++ [⟨paperId,workspaceId,exact⟩]⟩
    | (db,.error _) => ⟨db,w.captured⟩

/-- One request, without the passing of time. -/
def act (w : World) : Label → World
  | .put bytes => { w with
      db := { w.db with store :=
        (transact (fun s => writeVerified codec s (codec.sha256 bytes) bytes) w.db.store).1 } }
  | .capture paperId => capturePaper codec w paperId
  | .request request => { w with db := serveRequest w.db request }
  | .createManualVersion i actor name id =>
    match w.captured[i]? with
    | none => w
    | some c => { w with
        db := commit (createManualVersion c.paperId c.workspaceId c.exact actor name id) w.db }
  | .restore i restoration =>
    match w.captured[i]? with
    | none => w
    | some c => { w with db := commit (applyRestoration c restoration) w.db }
  | .submitV2Build i tenantId userId triggerType compileKey environment facts rank fresh clock =>
    match w.captured[i]? with
    | none => w
    | some c =>
      let request := buildRequest c tenantId userId triggerType compileKey environment
      let queue := commit (fun queue => Queue.submitV2Build queue request facts rank fresh clock)
        w.db.queue
      { w with db := { w.db with queue := queue } }
  | .queue limits op _ => { w with db := { w.db with queue := Queue.step limits w.db.queue op } }

def World.tick (w : World) : World := { w with db := { w.db with now := w.db.now + 1 } }

/-- One request; the next one comes later. -/
def step (w : World) (label : Label) : World := (act codec w label).tick

/-- The blobs whose write a step performs. -/
def blobsPut (w : World) : Label → List Bytes
  | .put bytes => [bytes]
  | .capture paperId =>
    match paperWorkspace w.db paperId with
    | none => []
    | some workspaceId =>
      ((forceSnapshot codec workspaceId).run.requests (serve codec) w.db.store).filterMap Call.puts
  | _ => []

end LatexCore.Papers
