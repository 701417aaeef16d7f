import LatexCore.Core.Scan
import LatexCore.Papers.Edits

/-! # Creation of papers, roles and memberships

A paper comes with its workspace: the head at version one, the event that puts
its first files, and an identity row for each of them. The papers over a
workspace that exists already get no file.

The other control-plane transactions are about global roles, the members and the
leader of a paper team, and the statuses of papers. Each checks its own side of the
leadership rules against the tables it reads.
-/
namespace LatexCore.Papers
open Core Foundation Workspace
open Collaboration (V2FilePolicy)

def validateName (name : String) : Except V2Error Unit :=
  ensure (1 ≤ name.toList.length && name.toList.length ≤ 200) .invalidName

/-- The rows of a new workspace, its head at version one and its first event. -/
def insertWorkspace (s : Store) (tenant : TenantId) (owner : UserId) (workspaceId : WorkspaceId)
    (operations : List WorkspaceOperationV1) : Except V2Error Store := do
  let workspaces ← require (s.workspaces.insert? workspaceId (tenant,owner))
    (.database "workspaces_pkey")
  ensure (s.tenants.contains tenant) (.database "workspaces_tenant_fk")
  ensure (s.users.contains owner) (.database "workspaces_owner_user_fk")
  let heads ← require (s.heads.insert? workspaceId ⟨1,none⟩) (.database "workspace_heads_pkey")
  (insertEvent { s with workspaces := workspaces, heads := heads } workspaceId 1
    ⟨0,eventTypeName,eventSchema,eventPayload operations,owner⟩).mapError databaseError

def createInitialWorkspace (db : Db) (tenant : TenantId) (owner : UserId) (workspaceId : WorkspaceId)
    (mainPath : LogicalPath) (blobHash : BlobHash) (sizeBytes : UInt64) : Except V2Error Db := do
  let store ← insertWorkspace db.store tenant owner workspaceId
    [.putFile mainPath blobHash sizeBytes,.setMainFile mainPath]
  pure { db with store := store }

def insertPersonalPaper (db : Db) (id : Uuid) (owner : UserId) (workspaceId : WorkspaceId)
    (name : String) : Except V2Error Db := do
  ensure (db.personalPapers.count (fun _ p => p.workspaceId == workspaceId) == 0)
    (.conflict "personal paper")
  let papers ← require (db.personalPapers.insert? id ⟨owner,workspaceId,name,.active⟩)
    (.conflict "personal paper")
  pure { db with personalPapers := papers }

def insertPaperTeam (db : Db) (id : Uuid) (creator : UserId) (workspaceId : WorkspaceId)
    (name : String) : Except V2Error Db := do
  ensure (db.paperTeams.count (fun _ t => t.workspaceId == workspaceId) == 0) (.conflict "Paper Team")
  let teams ← require (db.paperTeams.insert? id ⟨workspaceId,name,.active,creator⟩)
    (.conflict "Paper Team")
  pure { db with paperTeams := teams }

/-- `INSERT INTO paper_team_members`; the key, the leader and the writer order are unique. -/
def insertMember (db : Db) (team : Uuid) (user : UserId) (member : PaperTeamMember)
    (taken : V2Error) : Except V2Error Db := do
  ensure (member.writerOrder.isNone || db.members.table.count
    (fun k m => k.1 == team && m.writerOrder == member.writerOrder) == 0) taken
  let members ← require (db.members.insert? (team,user) member) taken
  pure { db with members := members }

def writerOrder (writers : List UserId) (user : UserId) : Option ℕ :=
  (writers.findIdx? (· == user)).map (· + 1)

def insertMembers (team : Uuid) (assignedBy leader : UserId) (writers : List UserId) :
    List UserId → Db → Except V2Error Db
  | [], db => .ok db
  | user :: rest, db => do
    let db ← insertMember db team user ⟨assignedBy,user == leader,writerOrder writers user⟩
      (.conflict "Paper Team membership")
    insertMembers team assignedBy leader writers rest db

def requireMembers (role : GlobalRole) : List UserId → Db → Except V2Error Unit
  | [], _ => .ok ()
  | user :: rest, db => do
    lockUser db user
    let _ ← requireRole db user [role] role.text
    requireMembers role rest db

def createInitializedPersonalPaper (owner : UserId) (tenant : TenantId) (workspaceId : WorkspaceId)
    (name : String) (mainPath : LogicalPath) (blobHash : BlobHash) (sizeBytes : UInt64)
    (id fileId : Uuid) (db : Db) : Except V2Error (Db × Unit) := do
  validateName name
  lockUser db owner
  let _ ← requireRole db owner [.writer] "writer"
  let db ← createInitialWorkspace db tenant owner workspaceId mainPath blobHash sizeBytes
  let db ← insertPersonalPaper db id owner workspaceId name
  let db ← insertFile db fileId workspaceId mainPath (.duplicateFilePath workspaceId mainPath.text)
  pure (db,())

/-- The checks of the requested members, before the transaction. -/
def validateTeamRequest (leaderRole : GlobalRole) (leader : UserId) (writers mentors : List UserId) :
    Except V2Error Unit := do
  ensure (leaderRole = .writer) (.roleForbidden leader "writer" leaderRole)
  ensure (!writers.isEmpty && writers.contains leader)
    (.roleForbidden leader "assigned Paper Team Writer Leader" leaderRole)
  ensure (writers ++ mentors).Nodup (.conflict "duplicate Paper Team assignment")

def createInitializedPaperTeam (creator : UserId) (tenant : TenantId) (workspaceId : WorkspaceId)
    (name : String) (leader : UserId) (writers mentors : List UserId) (mainPath : LogicalPath)
    (blobHash : BlobHash) (sizeBytes : UInt64) (id fileId : Uuid) (db : Db) :
    Except V2Error (Db × Unit) := do
  validateName name
  let leaderRole ← require (db.roles.get? leader) (.roleMissing leader)
  validateTeamRequest leaderRole leader writers mentors
  lockUser db creator
  let _ ← requireRole db creator [.admin] "admin"
  requireMembers .writer writers db
  requireMembers .mentor mentors db
  let db ← createInitialWorkspace db tenant creator workspaceId mainPath blobHash sizeBytes
  let db ← insertPaperTeam db id creator workspaceId name
  let db ← insertMembers id creator leader writers (writers ++ mentors) db
  let db ← insertFile db fileId workspaceId mainPath (.duplicateFilePath workspaceId mainPath.text)
  pure (db,())

structure TemplateSeedFile where
  path : LogicalPath
  blobHash : BlobHash
  sizeBytes : UInt64
  policy : V2FilePolicy

/-- The identity rows of the seeds, and a policy row for each that is not plainly editable. -/
def insertSeedFiles (workspaceId : WorkspaceId) (fileId : ℕ → Uuid) :
    ℕ → List TemplateSeedFile → Db → Except V2Error Db
  | _, [], db => .ok db
  | n, file :: rest, db => do
    let db ← insertFile db (fileId n) workspaceId file.path
      (.database "paper_files_live_workspace_path_unique_idx")
    let policies := if file.policy = .editable then db.policies
      else db.policies.upsert (fileId n) file.policy
    insertSeedFiles workspaceId fileId (n + 1) rest { db with policies := policies }

def requireRolesTx (role : GlobalRole) : List UserId → Db → Except V2Error Unit
  | [], _ => .ok ()
  | user :: rest, db => do
    requireRoleTx db user role
    requireRolesTx role rest db

def lockUsers : List UserId → Db → Except V2Error Unit
  | [], _ => .ok ()
  | user :: rest, db => do
    lockUser db user
    lockUsers rest db

def seedOperation (file : TemplateSeedFile) : WorkspaceOperationV1 :=
  .putFile file.path file.blobHash file.sizeBytes

def createTemplatePaperTeam (admin : UserId) (tenant : TenantId) (workspaceId : WorkspaceId)
    (name : String) (leader : UserId) (writers mentors : List UserId) (templateId : Uuid)
    (sourceIdentity : String) (mainPath : LogicalPath) (files : List TemplateSeedFile) (id : Uuid)
    (fileId : ℕ → Uuid) (db : Db) : Except V2Error (Db × Unit) := do
  ensure (!((trim name).isEmpty || 200 < name.toList.length || files.isEmpty ||
    !files.any (fun file => file.path == mainPath) || sourceIdentity.utf8ByteSize != 64)) .invalidName
  ensure (writers.contains leader) (.conflict "Paper Team Leader must be an assigned Writer")
  ensure (writers ++ mentors).Nodup (.conflict "duplicate Paper Team assignment")
  lockUsers (writers ++ mentors ++ [admin]) db
  requireRoleTx db admin .admin
  requireRolesTx .writer writers db
  requireRolesTx .mentor mentors db
  ensure (db.templates.contains templateId) (.notFound "template")
  let store ← insertWorkspace db.store tenant admin workspaceId
    (files.map seedOperation ++ [.setMainFile mainPath])
  let db ← insertPaperTeam { db with store := store } id admin workspaceId (trim name)
  let db ← insertMembers id admin leader writers (writers ++ mentors) db
  let db ← insertSeedFiles workspaceId fileId 0 files db
  ensure (isDigestText sourceIdentity) (.database "paper_template_pins_source_digest")
  let pins ← require (db.templatePins.insert? id ⟨workspaceId,templateId,sourceIdentity,admin⟩)
    (.database "paper_template_pins_pkey")
  pure ({ db with templatePins := pins },())

/-! ## Roles, memberships and statuses -/

def ownsPersonalPaper (db : Db) (userId : UserId) : Bool :=
  db.personalPapers.rows.any (fun r => r.2.ownerUserId == userId)

def hasTeamMembership (db : Db) (userId : UserId) : Bool :=
  db.members.table.rows.any (fun r => r.1.2 == userId)

def isTeamLeader (db : Db) (userId : UserId) : Bool :=
  db.members.table.rows.any (fun r => r.1.2 == userId && r.2.isLeader)

def validateRoleChange (db : Db) (userId : UserId) (role : GlobalRole) : Except V2Error Unit := do
  ensure (role = .writer || !ownsPersonalPaper db userId) (.personalPaperOwnershipConflict userId)
  ensure (role ≠ .admin || !hasTeamMembership db userId) (.teamMembershipConflict userId)
  ensure (role = .writer || !isTeamLeader db userId) (.teamMembershipConflict userId)

def setGlobalRole (userId : UserId) (role : GlobalRole) (db : Db) : Except V2Error (Db × Unit) := do
  lockUser db userId
  validateRoleChange db userId role
  pure ({ db with roles := db.roles.upsert userId role },())

def removeGlobalRole (userId : UserId) (db : Db) : Except V2Error (Db × Unit) := do
  lockUser db userId
  ensure (!ownsPersonalPaper db userId) (.personalPaperOwnershipConflict userId)
  ensure (!hasTeamMembership db userId) (.teamMembershipConflict userId)
  ensure (db.roles.get? userId).isSome (.roleMissing userId)
  pure ({ db with roles := db.roles.deleteWhere (fun k _ => k == userId) },())

/-- `lock_workspace`: the owner of the workspace. -/
def lockWorkspace (db : Db) (workspaceId : WorkspaceId) : Except V2Error UserId := do
  let row ← require (db.store.workspaces.get? workspaceId) (.notFound "workspace")
  pure row.2

def workspaceIsV2Paper (db : Db) (workspaceId : WorkspaceId) : Bool :=
  db.personalPapers.count (fun _ p => p.workspaceId == workspaceId) +
    db.paperTeams.count (fun _ t => t.workspaceId == workspaceId) != 0

def createPersonalPaper (owner : UserId) (workspaceId : WorkspaceId) (name : String) (id : Uuid)
    (db : Db) : Except V2Error (Db × Unit) := do
  validateName name
  lockUser db owner
  let _ ← requireRole db owner [.writer] "writer"
  let workspaceOwner ← lockWorkspace db workspaceId
  ensure (workspaceOwner = owner && !workspaceIsV2Paper db workspaceId) (.workspaceConflict workspaceId)
  let db ← insertPersonalPaper db id owner workspaceId name
  pure (db,())

def createPaperTeam (creator : UserId) (workspaceId : WorkspaceId) (name : String) (leader : UserId)
    (id : Uuid) (db : Db) : Except V2Error (Db × Unit) := do
  validateName name
  lockUsers [creator,leader] db
  let _ ← requireRole db creator [.admin] "admin"
  let _ ← requireRole db leader [.writer] "writer"
  let _ ← lockWorkspace db workspaceId
  ensure (!workspaceIsV2Paper db workspaceId) (.workspaceConflict workspaceId)
  let db ← insertPaperTeam db id creator workspaceId name
  let db ← insertMember db id leader ⟨creator,true,some 1⟩ (.conflict "Paper Team Leader membership")
  pure (db,())

def lockPaperTeam (db : Db) (teamId : Uuid) : Except V2Error PaperTeam :=
  require (db.paperTeams.get? teamId) (.notFound "Paper Team")

def writerLeaders (db : Db) (teamId : Uuid) : ℕ :=
  db.members.table.count (fun k m => k.1 == teamId && m.isLeader && db.roles.get? k.2 == some .writer)

def setPersonalPaperStatus (id : Uuid) (status : PaperStatus) (db : Db) :
    Except V2Error (Db × Unit) := do
  let _ ← require (db.personalPapers.get? id) (.notFound "personal paper")
  pure ({ db with
    personalPapers := db.personalPapers.modify id (fun p => { p with status := status }) },())

def setPaperTeamStatus (id : Uuid) (status : PaperStatus) (db : Db) : Except V2Error (Db × Unit) := do
  let _ ← lockPaperTeam db id
  ensure (status ≠ .active || writerLeaders db id == 1)
    (.conflict "active Paper Team without exactly one Writer Leader")
  pure ({ db with paperTeams := db.paperTeams.modify id (fun t => { t with status := status }) },())

/-- `COALESCE(max(writer_order),0)+1`. -/
def nextWriterOrder (db : Db) (teamId : Uuid) : ℕ :=
  (db.members.table.rows.filter (fun r => r.1.1 == teamId)).foldl
    (fun n r => max n (r.2.writerOrder.getD 0)) 0 + 1

def addPaperTeamMember (teamId : Uuid) (userId assignedBy : UserId) (db : Db) :
    Except V2Error (Db × Unit) := do
  lockUsers [userId,assignedBy] db
  let _ ← requireRole db assignedBy [.admin] "admin"
  let role ← requireRole db userId [.writer,.mentor] "writer or mentor"
  let _ ← lockPaperTeam db teamId
  let order := if role = .writer then some (nextWriterOrder db teamId) else none
  let db ← insertMember db teamId userId ⟨assignedBy,false,order⟩ (.conflict "Paper Team membership")
  pure (db,())

def leadsActiveTeam (db : Db) (teamId : Uuid) (userId : UserId) : Bool :=
  (db.members.get? (teamId,userId)).any (fun m => m.isLeader) &&
    (db.paperTeams.get? teamId).any (fun t => t.status == .active)

def deleteMember (db : Db) (teamId : Uuid) (userId : UserId) : Db :=
  { db with members := db.members.deleteWhere (fun k _ => k == (teamId,userId)) }

def removePaperTeamMember (teamId : Uuid) (userId removedBy : UserId) (db : Db) :
    Except V2Error (Db × Unit) := do
  lockUsers [userId,removedBy] db
  let _ ← requireRole db removedBy [.admin] "admin"
  let _ ← lockPaperTeam db teamId
  ensure (!leadsActiveTeam db teamId userId)
    (.conflict "active Paper Team Leader membership cannot be removed")
  ensure (db.members.get? (teamId,userId)).isSome (.notFound "Paper Team membership")
  pure (deleteMember db teamId userId,())

def PaperTeamMember.demote (member : PaperTeamMember) : PaperTeamMember :=
  { member with isLeader := false }

theorem leaderIndex_demote (key : Uuid × UserId) (member : PaperTeamMember) :
    leaderIndex key member.demote = none ∨ leaderIndex key member.demote = leaderIndex key member :=
  Or.inl rfl

def replaceLeader (db : Db) (teamId : Uuid) (leader : UserId) : Except V2Error Db := do
  let demoted := db.members.updateWhere (fun k m => k.1 == teamId && m.isLeader) PaperTeamMember.demote
    leaderIndex_demote
  let members ← require (demoted.modify? (teamId,leader) (fun m => { m with isLeader := true }))
    (.database "paper_team_members_one_leader_idx")
  pure { db with members := members }

def changePaperTeamLeader (teamId : Uuid) (leader changedBy : UserId) (db : Db) :
    Except V2Error (Db × Unit) := do
  lockUsers [leader,changedBy] db
  let _ ← requireRole db changedBy [.admin] "admin"
  let _ ← requireRole db leader [.writer] "writer"
  let _ ← lockPaperTeam db teamId
  ensure (db.members.get? (teamId,leader)).isSome
    (.roleForbidden leader "assigned Paper Team Writer Leader" .writer)
  let db ← replaceLeader db teamId leader
  pure (db,())

end LatexCore.Papers
