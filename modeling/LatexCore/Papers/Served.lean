import LatexCore.Papers.Leadership

/-! # What a step may do

A request does one of a few things to the tables, and a step that is no request one of a few
more. The invariants of the governance, of the events, of the restorations and of the version
numbers are settled from these cases and never look at the transactions again.
-/
namespace LatexCore.Papers
open Core Foundation Workspace
open Collaboration (V2FilePolicy CollaborationUpdateInput)
variable {codec : Codec} {db db' : Db} {x : WorkspaceId}

def Restoration.actor : Restoration → UserId
  | .team leader .. | .directTeam leader .. => leader
  | .personal writer .. => writer

variable {actor : UserId}

/-! ## Signatures -/

/-- One new event of the workspace, in the name of the actor. -/
def Signed (s t : Store) (x : WorkspaceId) (actor : UserId) : Prop :=
  ∃ n row, row.createdByUserId = actor ∧ s.events.insert? (x,n) row = some t.events

theorem insertNextEvent_signed {s t : Store} {head : HeadRow} {operations : List WorkspaceOperationV1}
    (h : insertNextEvent s x actor head operations = .ok t) : Signed s t x actor := by
  simp only [insertNextEvent,bind_ok,mapError_ok,pure_ok] at h
  obtain ⟨_,hinsert,rfl⟩ := h
  obtain ⟨_,hevents,rfl⟩ := insertEvent_ok hinsert
  exact ⟨_,_,rfl,hevents⟩

theorem Signed.observed {s t u : Store} (h : Signed s t x actor) (hu : Observed t u) :
    Signed s u x actor := by
  obtain ⟨n,row,hrow,hevents⟩ := h
  exact ⟨n,row,hrow,hevents.trans (congrArg some hu.events.symm)⟩

/-- No update of a document and no epoch changes. -/
def Quiet (db db' : Db) : Prop := db'.updates = db.updates ∧ db'.nextUpdateId = db.nextUpdateId ∧
  db'.documentEpochs = db.documentEpochs

theorem appendWorkspaceOperations_signed {expected version : WorkspaceVersion}
    {operations : List WorkspaceOperationV1}
    (h : appendWorkspaceOperations x actor expected operations db = .ok (db',version)) :
    Signed db.store db'.store x actor ∧ Quiet db db' := by
  simp only [appendWorkspaceOperations,bind_ok,pure_ok,Prod.mk.injEq] at h
  obtain ⟨_,_,_,_,_,_,_,_,store,hstore,rfl,_⟩ := h
  exact ⟨insertNextEvent_signed hstore,rfl,rfl,rfl⟩

theorem insertWorkspace_signed {s t : Store} {tenant : TenantId}
    {operations : List WorkspaceOperationV1}
    (h : insertWorkspace s tenant actor x operations = .ok t) : Signed s t x actor := by
  simp only [insertWorkspace,bind_ok,mapError_ok] at h
  obtain ⟨_,_,_,_,_,_,_,_,hinsert⟩ := h
  obtain ⟨_,hevents,rfl⟩ := insertEvent_ok hinsert
  exact ⟨_,_,rfl,hevents⟩

def SignedWith (db db' : Db) (actor : UserId) : Prop :=
  ∃ x, requireWriterWorkspaceAccess db actor x = .ok () ∧ Signed db.store db'.store x actor ∧
    Quiet db db'

theorem createFileWithEvent_signed {expected : WorkspaceVersion} {path : LogicalPath}
    {blobHash : BlobHash} {sizeBytes : UInt64} {fresh : FreshFile} {r : Uuid × WorkspaceVersion}
    (h : createFileWithEvent x actor expected path blobHash sizeBytes fresh db = .ok (db',r)) :
    SignedWith db db' actor := by
  simp only [createFileWithEvent,bind_ok,pure_ok,Prod.exists,Prod.mk.injEq] at h
  obtain ⟨_,_,_,haccess,_,hinsert,_,_,happend,_,hrecord,rfl,_⟩ := h
  obtain ⟨_,_,rfl⟩ := insertFile_ok hinsert
  obtain ⟨_,rfl⟩ := recordStructuralOperation_ok hrecord
  have hsigned := appendWorkspaceOperations_signed happend
  exact ⟨x,haccess,hsigned⟩

theorem saveFileWithEvent_signed {id : Uuid} {expected version : WorkspaceVersion}
    {blobHash : BlobHash} {sizeBytes : UInt64}
    (h : saveFileWithEvent id actor expected blobHash sizeBytes db = .ok (db',version)) :
    SignedWith db db' actor := by
  simp only [saveFileWithEvent,bind_ok,pure_ok,Prod.exists,Prod.mk.injEq] at h
  obtain ⟨_,_,_,haccess,_,_,_,_,happend,rfl,_⟩ := h
  have hsigned := appendWorkspaceOperations_signed happend
  exact ⟨_,haccess,hsigned⟩

theorem renameFileWithEvent_signed {id operation : Uuid} {expected version : WorkspaceVersion}
    {path : LogicalPath}
    (h : renameFileWithEvent id actor expected path operation db = .ok (db',version)) :
    SignedWith db db' actor := by
  simp only [renameFileWithEvent,bind_ok,pure_ok,Prod.exists,Prod.mk.injEq] at h
  obtain ⟨_,_,_,_,_,haccess,_,_,_,_,happend,_,hupdate,_,hrecord,rfl,_⟩ := h
  obtain ⟨_,_,rfl⟩ := updateFile_ok hupdate
  obtain ⟨_,rfl⟩ := recordStructuralOperation_ok hrecord
  have hsigned := appendWorkspaceOperations_signed happend
  exact ⟨_,haccess,hsigned⟩

theorem deleteFileWithEvent_signed {id operation : Uuid} {expected version : WorkspaceVersion}
    {blobHash : BlobHash} {sizeBytes : UInt64} {wasMain : Bool}
    (h : deleteFileWithEvent id actor expected blobHash sizeBytes wasMain operation db =
      .ok (db',version)) : SignedWith db db' actor := by
  simp only [deleteFileWithEvent,bind_ok,pure_ok,Prod.exists,Prod.mk.injEq] at h
  obtain ⟨_,_,_,haccess,_,_,_,_,happend,_,hrecord,rfl,_⟩ := h
  obtain ⟨_,rfl⟩ := recordStructuralOperation_ok hrecord
  have hsigned := appendWorkspaceOperations_signed happend
  exact ⟨_,haccess,hsigned⟩

theorem setMainWithEvent_signed {id operation : Uuid} {expected version : WorkspaceVersion}
    {previousMain : Option LogicalPath}
    (h : setMainWithEvent id actor expected previousMain operation db = .ok (db',version)) :
    SignedWith db db' actor := by
  simp only [setMainWithEvent,bind_ok,Prod.exists] at h
  obtain ⟨_,_,_,haccess,_,_,_,_,happend,hrecord⟩ := h
  have hsigned := appendWorkspaceOperations_signed happend
  refine ⟨_,haccess,?_⟩
  split at hrecord
  · cases hrecord
    exact hsigned
  · simp only [bind_ok,pure_ok,Prod.mk.injEq] at hrecord
    obtain ⟨_,hrecord,rfl,_⟩ := hrecord
    obtain ⟨_,rfl⟩ := recordStructuralOperation_ok hrecord
    exact hsigned

theorem applyStructuralHistory_signed {paperId : Uuid} {redo : Bool} {r : StructuralOperationResult}
    (h : applyStructuralHistory paperId x actor redo db = .ok (db',r)) : SignedWith db db' actor := by
  simp only [applyStructuralHistory,bind_ok,pure_ok,Prod.exists,Prod.mk.injEq] at h
  obtain ⟨_,haccess,_,_,_,_,_,_,_,_,_,_,_,hpayload,_,hpatch,_,_,happend,rfl,_⟩ := h
  obtain ⟨_,_,_,rfl⟩ := applyStructuralPayload_ok hpayload
  obtain ⟨_,rfl⟩ := patchRevision_ok hpatch
  have hsigned := appendWorkspaceOperations_signed happend
  exact ⟨x,haccess,hsigned⟩

/-- What a batch of a live document is checked against; the status of the paper is not. -/
structure Flushed (db db' : Db) (x : WorkspaceId) (fileId : Uuid) (documentEpoch : ℕ)
    (inputs : List (CollaborationUpdateInput Bytes)) : Prop where
  live : ∃ file, db.files.get? fileId = some file ∧ file.tombstoned = false ∧ file.workspaceId = x
  policy : ((db.policies.get? fileId).getD .editable).contentEditable = true
  epoch : db.documentEpochs.get? x = some documentEpoch
  signed : ∃ last, inputs.getLast? = some last ∧ Signed db.store db'.store x last.actorUserId
  epochs : db'.documentEpochs = db.documentEpochs
  updates : db'.nextUpdateId = db.nextUpdateId + inputs.length ∧ db'.updates = db.updates ++
    inputs.mapIdx (fun n input => ⟨db.nextUpdateId + n,⟨⟨x,fileId⟩,documentEpoch⟩,input.actorUserId,
      input.updateBytes⟩)

theorem insertUpdates_appends {document : Collaboration.DocumentKey} {last r : ℕ}
    {inputs : List (CollaborationUpdateInput Bytes)} (h : insertUpdates document db last inputs = .ok (db',r)) :
    db' = { db with
      nextUpdateId := db.nextUpdateId + inputs.length
      updates := db.updates ++ inputs.mapIdx (fun n input =>
        ⟨db.nextUpdateId + n,document,input.actorUserId,input.updateBytes⟩) } := by
  induction inputs generalizing db last with
  | nil =>
    cases h
    simp
  | cons input rest ih =>
    simp only [insertUpdates,bind_ok] at h
    obtain ⟨_,_,_,_,hrest⟩ := h
    rw [ih hrest]
    simp [List.mapIdx_cons,Nat.add_comm,Nat.add_left_comm]
    omega

theorem persistCollaborationBatch_flushed {id : Uuid} {documentEpoch sequence : ℕ}
    {inputs : List (CollaborationUpdateInput Bytes)} {blobHash : BlobHash} {sizeBytes : UInt64}
    (h : persistCollaborationBatch x id documentEpoch inputs blobHash sizeBytes db =
      .ok (db',sequence)) : Flushed db db' x id documentEpoch inputs := by
  simp only [persistCollaborationBatch,bind_ok,pure_ok,Prod.exists,Prod.mk.injEq,lockLiveFile_ok,
    ensure_ok,require_ok,decide_eq_true_eq,assertContentPolicy,assertPolicy,policyTx] at h
  obtain ⟨last,hlast,_,_,file,⟨hfile,hlive⟩,_,hspace,_,⟨_,⟨_,_,rfl⟩,hpolicy⟩,_,hepoch,_,rfl,_,_,
    hupdates,_,_,_,_,happend,rfl,_⟩ := h
  obtain rfl := insertUpdates_appends hupdates
  obtain ⟨hsigned,hrows,hnext,hepochs⟩ := appendWorkspaceOperations_signed happend
  exact ⟨⟨file,hfile,hlive,hspace⟩,hpolicy,hepoch,⟨last,hlast,hsigned⟩,hepochs,hnext,hrows⟩

/-! ## Requests -/

/-- The workspace that a request creates, in whose name, and the role that this takes. -/
def Request.opens : Request → Option (WorkspaceId × UserId × GlobalRole)
  | .createInitializedPersonalPaper owner _ x .. => some (x,owner,.writer)
  | .createInitializedPaperTeam creator _ x .. => some (x,creator,.admin)
  | .createTemplatePaperTeam admin _ x .. => some (x,admin,.admin)
  | _ => none

def Request.editor? : Request → Option UserId
  | .createFile _ actor .. | .saveFile _ actor .. | .renameFile _ actor .. | .deleteFile _ actor ..
  | .setMain _ actor .. | .structuralUndo _ _ actor | .structuralRedo _ _ actor => some actor
  | _ => none

/-- All that a request may do to the tables. -/
inductive Served (db : Db) : Request → Db → Prop
  | refused (request : Request) : Served db request db
  | ruled (request : Request) (g : Governance) (hlawful : db.governance.Lawful → g.Lawful)
      (hhoused : Housed db.paperTeams g.paperTeams) : Served db request (db.govern g)
  | founded (request : Request) (x : WorkspaceId) (actor : UserId) (role : GlobalRole) {db' : Db}
      (hopens : request.opens = some (x,actor,role)) (hrole : db.roles.get? actor = some role)
      (hsigned : Signed db.store db'.store x actor)
      (hlawful : db.governance.Lawful → db'.governance.Lawful)
      (hhoused : Housed db.paperTeams db'.paperTeams) (hqueue : db'.queue = db.queue)
      (hrequests : db'.requests = db.requests) (hquiet : Quiet db db') : Served db request db'
  | policed (request : Request) (policies : Table Uuid V2FilePolicy) :
      Served db request { db with policies := policies }
  | edited (request : Request) (x : WorkspaceId) (actor : UserId) {db' : Db}
      (hactor : request.editor? = some actor) (hsigned : SignedWith db db' actor)
      (hedited : Edited db db' x) : Served db request db'
  | flushed (x : WorkspaceId) (fileId : Uuid) (documentEpoch : ℕ)
      (inputs : List (CollaborationUpdateInput Bytes)) (blobHash : BlobHash) (sizeBytes : UInt64)
      {db' : Db} (hflushed : Flushed db db' x fileId documentEpoch inputs) (hedited : Edited db db' x) :
      Served db (.collaborationBatch x fileId documentEpoch inputs blobHash sizeBytes) db'
  | asked (writer : UserId) (paperId target : Uuid) (reason : Option String) (id : Uuid)
      (requests : Table Uuid RestorationRequest) {answer : Uuid}
      (h : createRestorationRequest writer paperId target reason id db =
        .ok ({ db with requests := requests },answer)) :
      Served db (.createRestorationRequest writer paperId target reason id)
        { db with requests := requests }
  | rejected (leader : UserId) (id : Uuid) (note : Option String)
      (requests : Table Uuid RestorationRequest) {u : Unit}
      (h : leaderRejectRestoration leader id note db = .ok ({ db with requests := requests },u)) :
      Served db (.leaderRejectRestoration leader id note) { db with requests := requests }

theorem Ruled.served (h : Ruled db db') (request : Request) : Served db request db' := by
  obtain ⟨g,rfl,hlawful,hhoused⟩ := h
  exact .ruled request g hlawful hhoused

theorem served_commit {α : Type} {request : Request} {t : Db → Except V2Error (Db × α)}
    (h : ∀ db' a, t db = .ok (db',a) → Served db request db') : Served db request (commit t db) :=
  commit_cases (fun db' : Db => Served db request db') (.refused request) h

theorem createInitializedPersonalPaper_served {tenant : TenantId} {name : String}
    {main : LogicalPath} {blobHash : BlobHash} {sizeBytes : UInt64} {id fileId : Uuid} {u : Unit}
    (h : createInitializedPersonalPaper actor tenant x name main blobHash sizeBytes id fileId db =
      .ok (db',u)) :
    Served db (.createInitializedPersonalPaper actor tenant x name main blobHash sizeBytes id fileId)
      db' := by
  simp only [createInitializedPersonalPaper,bind_ok,pure_ok,Prod.mk.injEq] at h
  obtain ⟨_,_,_,_,_,hrole,_,hspace,_,hpaper,_,hfile,rfl,_⟩ := h
  obtain ⟨store,rfl,hstore⟩ := createInitialWorkspace_ok hspace
  obtain ⟨papers,hpapers,rfl⟩ := insertPersonalPaper_ok hpaper
  obtain ⟨files,-,rfl⟩ := insertFile_ok hfile
  have hrole := requireRole_single hrole
  exact .founded _ x actor .writer rfl hrole (insertWorkspace_signed hstore)
    (fun hlawful => hlawful.own hpapers hrole) (.refl _) rfl rfl ⟨rfl,rfl,rfl⟩

theorem createInitializedPaperTeam_served {leader : UserId} {tenant : TenantId} {name : String}
    {writers mentors : List UserId} {main : LogicalPath} {blobHash : BlobHash} {sizeBytes : UInt64}
    {id fileId : Uuid} {u : Unit}
    (h : createInitializedPaperTeam actor tenant x name leader writers mentors main blobHash sizeBytes
      id fileId db = .ok (db',u)) :
    Served db (.createInitializedPaperTeam actor tenant x name leader writers mentors main blobHash
      sizeBytes id fileId) db' := by
  simp only [createInitializedPaperTeam,validateTeamRequest,bind_ok,ensure_ok,require_ok,pure_ok,
    Prod.mk.injEq,Bool.and_eq_true,List.contains_iff_mem] at h
  obtain ⟨_,_,_,_,_,⟨_,_,_,⟨_,hleader⟩,_⟩,_,_,_,hrole,_,hwriters,_,hmentors,_,hspace,_,hteam,_,hmembers,
    _,hfile,rfl,_⟩ := h
  obtain ⟨store,rfl,hstore⟩ := createInitialWorkspace_ok hspace
  obtain ⟨teams,hteams,rfl⟩ := insertPaperTeam_ok hteam
  obtain ⟨members,rfl,hget⟩ := insertMembers_get? hmembers
  obtain ⟨files,-,rfl⟩ := insertFile_ok hfile
  have hwriters := requireMembers_ok hwriters
  have hroles := mem_roles hwriters (requireMembers_ok hmentors)
  exact .founded _ x actor .admin rfl (requireRole_single hrole) (insertWorkspace_signed hstore)
    (fun hlawful => hlawful.enlist hteams hget (List.mem_append_left _ hleader) (hwriters _ hleader)
      hroles) (.insert hteams) rfl rfl ⟨rfl,rfl,rfl⟩

theorem createTemplatePaperTeam_served {leader : UserId} {tenant : TenantId} {name : String}
    {writers mentors : List UserId} {templateId : Uuid} {sourceIdentity : String}
    {main : LogicalPath} {seeds : List TemplateSeedFile} {id : Uuid} {fileId : ℕ → Uuid} {u : Unit}
    (h : createTemplatePaperTeam actor tenant x name leader writers mentors templateId sourceIdentity
      main seeds id fileId db = .ok (db',u)) :
    Served db (.createTemplatePaperTeam actor tenant x name leader writers mentors templateId
      sourceIdentity main seeds id fileId) db' := by
  simp only [createTemplatePaperTeam,bind_ok,ensure_ok,pure_ok,Prod.mk.injEq,
    List.contains_iff_mem] at h
  obtain ⟨_,_,_,hleader,_,_,_,_,_,hrole,_,hwriters,_,hmentors,_,_,store,hstore,_,hteam,_,hmembers,_,hfiles,
    _,_,pins,_,rfl,_⟩ := h
  obtain ⟨teams,hteams,rfl⟩ := insertPaperTeam_ok hteam
  obtain ⟨members,rfl,hget⟩ := insertMembers_get? hmembers
  obtain ⟨files,policies,-,rfl⟩ := insertSeedFiles_ok hfiles
  have hwriters := requireRolesTx_ok hwriters
  have hroles := mem_roles hwriters (requireRolesTx_ok hmentors)
  exact .founded _ x actor .admin rfl (requireRoleTx_ok hrole) (insertWorkspace_signed hstore)
    (fun hlawful => hlawful.enlist hteams hget (List.mem_append_left _ hleader) (hwriters _ hleader)
      hroles) (.insert hteams) rfl rfl ⟨rfl,rfl,rfl⟩

theorem serveRequest_served (db : Db) (request : Request) :
    Served db request (serveRequest db request) := by
  cases request with
  | setGlobalRole => exact served_commit fun _ _ h => (setGlobalRole_ruled h).served _
  | removeGlobalRole => exact served_commit fun _ _ h => (removeGlobalRole_ruled h).served _
  | createPersonalPaper => exact served_commit fun _ _ h => (createPersonalPaper_ruled h).served _
  | createInitializedPersonalPaper =>
    exact served_commit fun _ _ h => createInitializedPersonalPaper_served h
  | createPaperTeam => exact served_commit fun _ _ h => (createPaperTeam_ruled h).served _
  | createInitializedPaperTeam => exact served_commit fun _ _ h => createInitializedPaperTeam_served h
  | createTemplatePaperTeam => exact served_commit fun _ _ h => createTemplatePaperTeam_served h
  | setPersonalPaperStatus => exact served_commit fun _ _ h => (setPersonalPaperStatus_ruled h).served _
  | setPaperTeamStatus => exact served_commit fun _ _ h => (setPaperTeamStatus_ruled h).served _
  | addPaperTeamMember => exact served_commit fun _ _ h => (addPaperTeamMember_ruled h).served _
  | removePaperTeamMember => exact served_commit fun _ _ h => (removePaperTeamMember_ruled h).served _
  | changePaperTeamLeader => exact served_commit fun _ _ h => (changePaperTeamLeader_ruled h).served _
  | setFilePolicy =>
    apply served_commit
    intro db' u h
    simp only [setFilePolicy,bind_ok,pure_ok,Prod.mk.injEq] at h
    obtain ⟨_,_,_,_,_,_,_,_,rfl,_⟩ := h
    exact .policed _ _
  | createFile =>
    exact served_commit fun _ _ h =>
      .edited _ _ _ rfl (createFileWithEvent_signed h) (createFileWithEvent_ok h).2
  | saveFile =>
    apply served_commit
    intro db' version h
    obtain ⟨x,_,hedited⟩ := saveFileWithEvent_ok h
    exact .edited _ x _ rfl (saveFileWithEvent_signed h) hedited
  | renameFile =>
    apply served_commit
    intro db' version h
    obtain ⟨x,_,hedited⟩ := renameFileWithEvent_ok h
    exact .edited _ x _ rfl (renameFileWithEvent_signed h) hedited
  | deleteFile =>
    apply served_commit
    intro db' version h
    obtain ⟨x,_,hedited⟩ := deleteFileWithEvent_ok h
    exact .edited _ x _ rfl (deleteFileWithEvent_signed h) hedited
  | setMain =>
    apply served_commit
    intro db' version h
    obtain ⟨x,_,hedited⟩ := setMainWithEvent_ok h
    exact .edited _ x _ rfl (setMainWithEvent_signed h) hedited
  | structuralUndo =>
    exact served_commit fun _ _ h =>
      .edited _ _ _ rfl (applyStructuralHistory_signed h) (applyStructuralHistory_ok h).2
  | structuralRedo =>
    exact served_commit fun _ _ h =>
      .edited _ _ _ rfl (applyStructuralHistory_signed h) (applyStructuralHistory_ok h).2
  | collaborationBatch =>
    exact served_commit fun _ _ h =>
      .flushed _ _ _ _ _ _ (persistCollaborationBatch_flushed h) (persistCollaborationBatch_ok h)
  | createRestorationRequest =>
    apply served_commit
    intro db' answer h
    have hasked := h
    simp only [createRestorationRequest,bind_ok,pure_ok,Prod.mk.injEq] at h
    obtain ⟨_,_,_,_,_,_,_,_,_,_,rfl,_⟩ := h
    exact .asked _ _ _ _ _ _ hasked
  | leaderRejectRestoration =>
    apply served_commit
    intro db' u h
    have hrejected := h
    simp only [leaderRejectRestoration,bind_ok,pure_ok,Prod.mk.injEq] at h
    obtain ⟨_,_,_,_,_,_,_,_,rfl,_⟩ := h
    exact .rejected _ _ _ _ hrejected

/-! ## Restorations -/

/-- What a restoration takes: the leadership of the team, or the active paper of its owner. -/
def Restoration.Allowed (db : Db) (c : Captured) : Restoration → Prop
  | .team leader id .. => ∃ team row, ledTeam db leader c.paperId = some team ∧
      db.requests.get? id = some row ∧ row.state = .requested ∧ row.paperId = c.paperId ∧
      row.workspaceId = c.workspaceId
  | .directTeam leader .. => ∃ team, ledTeam db leader c.paperId = some team ∧
      team.workspaceId = c.workspaceId
  | .personal writer .. => ∃ paper, db.personalPapers.get? c.paperId = some paper ∧
      paper.ownerUserId = writer ∧ paper.status = .active ∧ paper.workspaceId = c.workspaceId

/-- What a restoration leaves of the other tables. -/
structure Restorative (db db' : Db) (x : WorkspaceId) (actor : UserId) : Prop where
  governance : db'.governance = db.governance
  requests : db'.requests = db.requests
  signed : Signed db.store db'.store x actor
  updates : db'.updates = db.updates ∧ db'.nextUpdateId = db.nextUpdateId
  epochs : db'.documentEpochs = db.documentEpochs.modify x (· + 1)

theorem applyRestore_restorative {paperId target : Uuid} {safety : ExactRestoreState}
    {kind : RestoreKind} {fresh : FreshRestore} {applied : RestorationApplied}
    (h : applyRestore actor paperId x target safety kind fresh db = .ok (db',applied)) :
    Restorative db db' x actor := by
  simp only [applyRestore,bind_ok,pure_ok,Prod.exists,Prod.mk.injEq] at h
  obtain ⟨_,_,_,_,_,_,_,_,_,_,_,_,hsafety,_,hfront,_,hmid,_,_,store,hstore,_,hrecord,_,_,hepoch,_,
    happlied,rfl,-⟩ := h
  have hsigned := (insertNextEvent_signed hstore).observed (observed_recordRestoredSnapshot hrecord)
  obtain ⟨_,_,_,rfl⟩ := insertPaperVersion_ok hsafety
  obtain ⟨_,_,_,rfl⟩ := restoreTeamFrontMatter_frame hfront
  obtain ⟨_,rfl⟩ := materializeAll_frame hmid
  obtain ⟨_,_,_,rfl⟩ := raiseEpoch_ok hepoch
  obtain ⟨_,_,_,rfl⟩ := insertPaperVersion_ok happlied
  exact ⟨rfl,rfl,hsigned,⟨rfl,rfl⟩,rfl⟩

/-- How a restoration leaves the requests: that of a team request decides it. -/
def Restoration.Decides (db db' : Db) (c : Captured) (applied : RestorationApplied) :
    Restoration → Prop
  | .team leader id note fresh => ∃ row mid, db.requests.get? id = some row ∧ row.state = .requested ∧
      applyRestore leader row.paperId row.workspaceId row.targetVersionId c.exact .team fresh db =
        .ok (mid,applied) ∧ db'.queue = mid.queue ∧
      db'.requests = db.requests.modify id (fun r => { r with
        state := .applied
        leaderWriterUserId := some leader
        leaderDecisionNote := trimmedNote note
        appliedVersionId := some applied.appliedVersionId })
  | _ => db'.requests = db.requests

theorem applyRestoration_allowed {c : Captured} {restoration : Restoration}
    {applied : RestorationApplied} (h : applyRestoration c restoration db = .ok (db',applied)) :
    restoration.Allowed db c ∧ db.roles.get? restoration.actor = some .writer ∧
      (∃ mid, Restorative db mid c.workspaceId restoration.actor ∧
        db' = { mid with requests := db'.requests }) ∧ restoration.Decides db db' c applied := by
  simp only [applyRestoration,bind_ok,ensure_ok,decide_eq_true_eq] at h
  obtain ⟨_,hspace,h⟩ := h
  cases restoration with
  | team leader id note fresh =>
    simp only [applyTeamRestoration,bind_ok,require_ok,pure_ok,Prod.exists,Prod.mk.injEq,
      Option.filter_eq_some_iff,beq_iff_eq] at h
    obtain ⟨_,_,_,hrole,row,⟨hrow,hstate⟩,team,hteam,mid,_,hrestore,rfl,rfl⟩ := h
    simp only [Restoration.workspace,hrow,Option.map_eq_some_iff,Option.filter_eq_some_iff,
      Option.some.injEq,beq_iff_eq] at hspace
    obtain ⟨_,⟨rfl,hpaper⟩,hspace⟩ := hspace
    have hrestorative := applyRestore_restorative hrestore
    exact ⟨⟨team,row,hpaper ▸ hteam,hrow,hstate,hpaper,hspace⟩,requireRoleTx_ok hrole,
      ⟨mid,hspace ▸ hrestorative,rfl⟩,row,mid,hrow,hstate,hrestore,rfl,by rw [hrestorative.requests]⟩
  | directTeam leader target fresh =>
    simp only [applyDirectTeamRestoration,bind_ok,require_ok] at h
    obtain ⟨_,hrole,team,hteam,_,_,hrestore⟩ := h
    simp only [Restoration.workspace,(Option.filter_eq_some_iff.mp hteam).1,Option.map_some,
      Option.some.injEq] at hspace
    rw [hspace] at hrestore
    have hrestorative := applyRestore_restorative hrestore
    exact ⟨⟨team,hteam,hspace⟩,requireRoleTx_ok hrole,⟨db',hrestorative,rfl⟩,hrestorative.requests⟩
  | personal writer target fresh =>
    simp only [applyPersonalRestoration,bind_ok,require_ok,Option.filter_eq_some_iff,
      Bool.and_eq_true,beq_iff_eq] at h
    obtain ⟨_,hrole,paper,⟨hpaper,howner,hactive⟩,hrestore⟩ := h
    simp only [Restoration.workspace,hpaper,Option.map_some,Option.some.injEq] at hspace
    rw [hspace] at hrestore
    have hrestorative := applyRestore_restorative hrestore
    exact ⟨⟨paper,hpaper,howner,hactive,hspace⟩,requireRoleTx_ok hrole,⟨db',hrestorative,rfl⟩,
      hrestorative.requests⟩

/-! ## Steps -/

/-- All that a step may do to the tables. -/
inductive Acted (codec : Codec) (w : World) : Label → Db → Prop
  | observed (label : Label) (now : Timestamp) (store : Store) (documentEpochs : Table WorkspaceId ℕ)
      (h : store.events = w.db.store.events) (hepochs : ∀ x epoch,
        w.db.documentEpochs.get? x = some epoch → documentEpochs.get? x = some epoch) : Acted codec w label
        { w.db with now := now, store := store, documentEpochs := documentEpochs }
  | served (request : Request) (now : Timestamp) {db : Db} (h : Served w.db request db) :
      Acted codec w (.request request) { db with now := now }
  | versioned (i : ℕ) (actor : UserId) (name : String) (id : Uuid) (now : Timestamp) {db : Db}
      {c : Captured} {answer : Uuid}
      (h : createManualVersion c.paperId c.workspaceId c.exact actor name id w.db = .ok (db,answer)) :
      Acted codec w (.createManualVersion i actor name id) { db with now := now }
  | restored (i : ℕ) (restoration : Restoration) (now : Timestamp) {db : Db} {c : Captured}
      {applied : RestorationApplied} (hc : w.captured[i]? = some c)
      (h : applyRestoration c restoration w.db = .ok (db,applied)) :
      Acted codec w (.restore i restoration) { db with now := now }
  | queued (label : Label) (now : Timestamp) (limits : Queue.QueueLimits) (op : Queue.QueueOp) :
      Acted codec w label { w.db with now := now, queue := Queue.step limits w.db.queue op }

theorem observed_captureExactV2State (codec : Codec) (paperId : Uuid) (x : WorkspaceId) (db : Db) :
    ∃ store epochs, store.events = db.store.events ∧
      (∀ x epoch, db.documentEpochs.get? x = some epoch → epochs.get? x = some epoch) ∧
      (captureExactV2State codec paperId x db).1 =
        { db with store := store, documentEpochs := epochs } := by
  unfold captureExactV2State
  split
  · exact ⟨_,_,(uses_forceSnapshot.alone_relates Observed .refl .trans observed_serve _).events,
      (insertOrKeep_kept db.documentEpochs x 1).2.1,rfl⟩
  · exact ⟨_,_,rfl,fun _ _ h => h,rfl⟩

theorem step_acted (codec : Codec) (w : World) (label : Label) :
    Acted codec w label (step codec w label).db := by
  have hidle : Acted codec w label { w.db with now := w.db.now + 1 } := .observed label _ _ _ rfl (fun _ _ h => h)
  cases label with
  | put bytes =>
    have hput : Observed w.db.store (transact (fun s => writeVerified codec s (codec.sha256 bytes) bytes)
        w.db.store).1 := observed_transact fun _ _ => observed_writeVerified
    exact .observed _ _ _ w.db.documentEpochs hput.events (fun _ _ h => h)
  | capture paperId =>
    dsimp only [step,act,capturePaper]
    cases paperWorkspace w.db paperId with
    | none => exact hidle
    | some x =>
      have hcapture := observed_captureExactV2State codec paperId x w.db
      dsimp only
      split <;> next heq =>
        rw [heq] at hcapture
        obtain ⟨store,epochs,hevents,hepochs,rfl⟩ := hcapture
        exact .observed _ _ store epochs hevents hepochs
  | request request => exact .served request _ (serveRequest_served w.db request)
  | createManualVersion i actor name id =>
    dsimp only [step,act]
    cases w.captured[i]? with
    | none => exact hidle
    | some c =>
      exact commit_cases (fun db : Db => Acted codec w (.createManualVersion i actor name id)
        { db with now := db.now + 1 }) hidle (fun db _ h => .versioned i actor name id _ h)
  | restore i restoration =>
    dsimp only [step,act]
    cases hc : w.captured[i]? with
    | none => exact hidle
    | some c =>
      exact commit_cases (fun db : Db => Acted codec w (.restore i restoration)
        { db with now := db.now + 1 }) hidle (fun db _ h => .restored i restoration _ hc h)
  | submitV2Build i tenantId userId triggerType compileKey environment facts rank fresh clock =>
    dsimp only [step,act]
    cases w.captured[i]? with
    | none => exact hidle
    | some c =>
      exact .queued _ _ Queue.sampleLimits (.submitV2Build
        (buildRequest c tenantId userId triggerType compileKey environment) facts rank fresh clock)
  | queue limits op => exact .queued _ _ limits op

end LatexCore.Papers
