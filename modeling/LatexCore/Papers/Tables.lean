import LatexCore.Collaboration.Store
import LatexCore.Foundation.UniqueIndex
import LatexCore.Queue.Finalize
import LatexCore.Workspace.Service

/-! # Tables of the V2 papers

The papers, their members and roles, the identity of their files, the reversible
structural operations and the governed versions, beside the workspace tables and
the tables of the build scheduler. The live paths of a workspace and the leaders
of a team are unique, which the tables of files and members carry as an index.
-/
namespace LatexCore.Papers
open Core Foundation Workspace
open Collaboration (V2FilePolicy UpdateRow)

structure PersonalPaper where
  ownerUserId : UserId
  workspaceId : WorkspaceId
  name : String
  status : PaperStatus
deriving DecidableEq

structure PaperTeam where
  workspaceId : WorkspaceId
  name : String
  status : PaperStatus
  createdByUserId : UserId
deriving DecidableEq

/-- A row of `paper_team_members` without its key, the team and the user. -/
structure PaperTeamMember where
  assignedByUserId : UserId
  isLeader : Bool
  writerOrder : Option ℕ
deriving DecidableEq

/-- `paper_team_members_one_leader_idx`. -/
def leaderIndex (key : Uuid × UserId) (member : PaperTeamMember) : Option Uuid :=
  if member.isLeader then some key.1 else none

abbrev PaperTeamMembers := Indexed (Uuid × UserId) PaperTeamMember Uuid leaderIndex

structure PaperFile where
  workspaceId : WorkspaceId
  path : LogicalPath
  revision : ℕ
  tombstoned : Bool
deriving DecidableEq

/-- `paper_files_live_workspace_path_unique_idx`. -/
def liveIndex (_ : Uuid) (file : PaperFile) : Option (WorkspaceId × LogicalPath) :=
  if file.tombstoned then none else some (file.workspaceId,file.path)

abbrev PaperFiles := Indexed Uuid PaperFile (WorkspaceId × LogicalPath) liveIndex

inductive HistoryState
  | applied | undone | invalidated
deriving DecidableEq

/-- A row of `reversible_structural_operations` without its primary key. -/
structure StructuralOperation where
  paperId : Uuid
  workspaceId : WorkspaceId
  actorUserId : UserId
  operationType : String
  fileId : Option Uuid
  forwardPayload : Value
  inversePayload : Value
  workspaceVersionBefore : ℕ
  workspaceVersionAfter : ℕ
  state : HistoryState
  undoneAt : Option Timestamp

inductive RequestState
  | draft | requested | leaderRejected | applied
deriving DecidableEq

structure RestorationRequest where
  paperId : Uuid
  workspaceId : WorkspaceId
  requestedByWriterUserId : UserId
  targetVersionId : Uuid
  state : RequestState
  reason : Option String
  leaderWriterUserId : Option UserId
  leaderDecisionNote : Option String
  appliedVersionId : Option Uuid

structure TemplatePin where
  workspaceId : WorkspaceId
  templateId : Uuid
  sourceIdentity : String
  pinnedByAdminUserId : UserId
deriving DecidableEq

structure FrontMatterPin where
  frontMatterPackId : Uuid
  dominantProgrammeCode : Option String
  resolutionMethod : String
  assignedByUserId : UserId
  status : String
  missingRequiredFields : Value
  lastError : Option String

structure FrontMatterValue where
  valueJson : Value
  valueSource : String
  updatedByUserId : UserId

structure Db where
  /-- The clock of the database; every transaction starts later than the one before. -/
  now : Timestamp
  store : Store
  queue : Queue.Db
  roles : Table UserId GlobalRole
  personalPapers : Table Uuid PersonalPaper
  paperTeams : Table Uuid PaperTeam
  members : PaperTeamMembers
  files : PaperFiles
  policies : Table Uuid V2FilePolicy
  documentEpochs : Table WorkspaceId ℕ
  updates : List (UpdateRow Bytes)
  nextUpdateId : ℕ
  operations : Table Uuid StructuralOperation
  requests : Table Uuid RestorationRequest
  templates : List Uuid
  templatePins : Table Uuid TemplatePin
  programmes : List String
  frontMatterPacks : List Uuid
  frontMatterPins : Table Uuid FrontMatterPin
  frontMatterValues : Table (Uuid × String) FrontMatterValue
  frontMatterSections : Table (Uuid × String) (Bool × UserId)

def Db.initial (tenants : List TenantId) (users : List UserId) (roles : Table UserId GlobalRole)
    (templates : List Uuid) (programmes : List String) (packs : List Uuid) : Db where
  now := 0
  store := .initial true tenants users
  queue := .empty
  roles := roles
  personalPapers := .empty
  paperTeams := .empty
  members := .empty
  files := .empty
  policies := .empty
  documentEpochs := .empty
  updates := []
  nextUpdateId := 1
  operations := .empty
  requests := .empty
  templates := templates
  templatePins := .empty
  programmes := programmes
  frontMatterPacks := packs
  frontMatterPins := .empty
  frontMatterValues := .empty
  frontMatterSections := .empty

/-! ## Roles, access and policies -/

def lockUser (db : Db) (userId : UserId) : Except V2Error Unit :=
  ensure (db.store.users.contains userId) (.notFound "user")

def requireRole (db : Db) (userId : UserId) (allowed : List GlobalRole) (required : String) :
    Except V2Error GlobalRole := do
  let role ← require (db.roles.get? userId) (.roleMissing userId)
  ensure (role ∈ allowed) (.roleForbidden userId required role)
  pure role

/-- `require_role_tx` of the governance operations. -/
def requireRoleTx (db : Db) (userId : UserId) (wanted : GlobalRole) : Except V2Error Unit := do
  let actual ← require (db.roles.get? userId) (.roleMissing userId)
  ensure (actual = wanted) (.roleForbidden userId wanted.text actual)

def writerPaperStatus (db : Db) (actor : UserId) (workspaceId : WorkspaceId) : Option PaperStatus :=
  let personal := db.personalPapers.rows.find?
    (fun r => r.2.workspaceId == workspaceId && r.2.ownerUserId == actor)
  let team := db.paperTeams.rows.find?
    (fun r => r.2.workspaceId == workspaceId && (db.members.get? (r.1,actor)).isSome)
  (personal.map (fun r => r.2.status)).or (team.map (fun r => r.2.status))

def requireWriterWorkspaceAccess (db : Db) (actor : UserId) (workspaceId : WorkspaceId) :
    Except V2Error Unit := do
  let _ ← requireRole db actor [.writer] "writer"
  let status ← require (writerPaperStatus db actor workspaceId) (.notFound "paper")
  ensure (status = .active) (.conflict "read-only paper")

def paperIdForWorkspace (db : Db) (workspaceId : WorkspaceId) : Except V2Error Uuid :=
  let personal := db.personalPapers.rows.find? (fun r => r.2.workspaceId == workspaceId)
  let team := db.paperTeams.rows.find? (fun r => r.2.workspaceId == workspaceId)
  require ((personal.map Prod.fst).or (team.map Prod.fst)) (.notFound "paper")

/-- `policy_tx`: a file without a policy row is editable. -/
def policyTx (db : Db) (fileId : Uuid) : Except V2Error V2FilePolicy := do
  let _ ← require (db.files.get? fileId) (.notFound "paper file")
  pure ((db.policies.get? fileId).getD .editable)

def structureEditable : V2FilePolicy → Bool
  | .editable => true
  | _ => false

def mainEditable : V2FilePolicy → Bool
  | .editable | .structureLocked => true
  | _ => false

def assertPolicy (allowed : V2FilePolicy → Bool) (entity : String) (db : Db) (fileId : Uuid) :
    Except V2Error Unit := do
  let policy ← policyTx db fileId
  ensure (allowed policy) (.conflict entity)

def assertContentPolicy : Db → Uuid → Except V2Error Unit :=
  assertPolicy V2FilePolicy.contentEditable "file content policy"

def assertStructurePolicy : Db → Uuid → Except V2Error Unit :=
  assertPolicy structureEditable "file structure policy"

def assertMainPolicy : Db → Uuid → Except V2Error Unit :=
  assertPolicy mainEditable "main-file policy"

/-! ## Files -/

def lockAnyFile (db : Db) (fileId : Uuid) : Except V2Error PaperFile :=
  require (db.files.get? fileId) (.notFound "paper file")

def lockLiveFile (db : Db) (fileId : Uuid) : Except V2Error PaperFile := do
  let file ← lockAnyFile db fileId
  ensure (!file.tombstoned) (.notFound "live paper file")
  pure file

def managedPrefix : List Char := ".latex-core/frontmatter/".toList

def frontMatterManaged (path : LogicalPath) : Bool :=
  path.text == ".latex-core/frontmatter" || managedPrefix.isPrefixOf path.text.toList

def rejectFrontMatterManagedPath (path : LogicalPath) : Except V2Error Unit :=
  ensure (!frontMatterManaged path) (.invalidPath "Front Matter files are system managed")

def occupied (db : Db) (workspaceId : WorkspaceId) (path : LogicalPath) : Bool :=
  db.files.table.rows.any
    (fun r => r.2.workspaceId == workspaceId && r.2.path == path && !r.2.tombstoned)

/-- `INSERT INTO paper_files`, with the error of a path that a live file has. -/
def insertFile (db : Db) (fileId : Uuid) (workspaceId : WorkspaceId) (path : LogicalPath)
    (taken : V2Error) : Except V2Error Db := do
  ensure (!occupied db workspaceId path) taken
  let files ← require (db.files.insert? fileId ⟨workspaceId,path,1,false⟩)
    (.database "paper_files_pkey")
  pure { db with files := files }

def PaperFile.bump (file : PaperFile) : PaperFile := { file with revision := file.revision + 1 }

def PaperFile.tombstone (file : PaperFile) : PaperFile :=
  { file with tombstoned := true, revision := file.revision + 1 }

def PaperFile.revive (file : PaperFile) : PaperFile :=
  { file with tombstoned := false, revision := file.revision + 1 }

def PaperFile.moveTo (path : LogicalPath) (file : PaperFile) : PaperFile :=
  { file with path := path, revision := file.revision + 1 }

theorem liveIndex_bump (id : Uuid) (file : PaperFile) :
    liveIndex id file.bump = none ∨ liveIndex id file.bump = liveIndex id file := Or.inr rfl

theorem liveIndex_tombstone (id : Uuid) (file : PaperFile) :
    liveIndex id file.tombstone = none ∨ liveIndex id file.tombstone = liveIndex id file :=
  Or.inl rfl

def bumpFile (db : Db) (fileId : Uuid) : Db :=
  { db with files := db.files.updateWhere (fun k _ => k == fileId) PaperFile.bump liveIndex_bump }

def tombstoneFile (db : Db) (fileId : Uuid) : Db :=
  { db with
    files := db.files.updateWhere (fun k _ => k == fileId) PaperFile.tombstone liveIndex_tombstone }

/-- An update of one file that the index of live paths may refuse. -/
def updateFile (db : Db) (fileId : Uuid) (update : PaperFile → PaperFile) (error : V2Error) :
    Except V2Error Db := do
  let files ← require (db.files.modify? fileId update) error
  pure { db with files := files }

end LatexCore.Papers
