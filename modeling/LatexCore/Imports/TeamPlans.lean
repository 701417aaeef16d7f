import Mathlib.Data.List.Sort
import Mathlib.Data.Prod.Lex
import LatexCore.Core.Scan
import LatexCore.Foundation.Roster
import LatexCore.Imports.Jobs

/-! # Teams of the institution and paper teams

The institution assigns students and faculty to teams, and a team that was materialized
is linked to a paper team with members of its own. A plan reads the assignments through
the identity links; a merge writes it to the members of the paper team, and an edit by an
admin writes both sides. The students of a team and the members of a paper team each have
unique places and one leader.
-/
namespace LatexCore.Imports
open Core Foundation
open Institution (InstitutionError ExternalId UserLinks)

/-- A row of `paper_assignment_students` without its key, the team and the student. -/
structure AssignedStudent where
  writerOrder : ℕ
  isLeader : Bool
deriving DecidableEq

def AssignedStudent.seat (student : AssignedStudent) : Seat := ⟨some student.writerOrder,student.isLeader⟩

/-- A row of `paper_team_members` without its key, the team and the user. -/
structure TeamMember where
  assignedByUserId : UserId
  createdAt : Timestamp
  isLeader : Bool
  writerOrder : Option ℕ
deriving DecidableEq

def TeamMember.seat (member : TeamMember) : Seat := ⟨member.writerOrder,member.isLeader⟩

abbrev AssignedStudents := Roster ExternalId AssignedStudent AssignedStudent.seat

abbrev TeamMembers := Roster UserId TeamMember TeamMember.seat

structure TeamDb where
  now : Timestamp
  roles : Table UserId GlobalRole
  students : UserLinks
  faculty : UserLinks
  /-- The names of the teams of the institution. -/
  groups : Table String String
  assignedStudents : String → AssignedStudents
  assignedMentors : String → Table ExternalId Unit
  teamLinks : Indexed String TeamLink Uuid (fun _ link => some link.paperTeamId)
  /-- The names of the paper teams. -/
  paperTeams : Table Uuid String
  members : Uuid → TeamMembers
  jobs : Table Uuid ImportJob
  rows : Table RowKey ImportRow
  /-- A link is between a team of the institution and a paper team. -/
  linked : ∀ key link, teamLinks.get? key = some link →
    (groups.get? key).isSome = true ∧ (paperTeams.get? link.paperTeamId).isSome = true

/-! ## Plans -/

structure ImportedTeamPlan where
  externalTeamKey : String
  teamName : String
  existingPaperTeamId : Option Uuid
  writerUserIds : List UserId
  leaderUserId : Option UserId
  mentorUserIds : List UserId
  unresolved : List String
deriving DecidableEq

def linkedUser (links : UserLinks) (roles : Table UserId GlobalRole) (role : GlobalRole) (id : ExternalId) :
    Option UserId :=
  ((links.get? id).bind (·.userId)).filter (fun user => roles.get? user == some role)

namespace TeamDb
variable (db : TeamDb)

def writerRows (key : String) : List (ExternalId × AssignedStudent) :=
  (db.assignedStudents key).table.rows.insertionSort (fun a b => a.2.writerOrder ≤ b.2.writerOrder)

def mentorRows (key : String) : List ExternalId := (db.assignedMentors key).keys.insertionSort (· ≤ ·)

def writerOf (row : ExternalId × AssignedStudent) : Option UserId :=
  linkedUser db.students db.roles .writer row.1

def mentorOf (id : ExternalId) : Option UserId := linkedUser db.faculty db.roles .mentor id

def plannedLeader (key : String) : Option UserId :=
  (((db.writerRows key).filter (fun row => row.2.isLeader)).filterMap db.writerOf).getLast?

def unresolved (key : String) : List String :=
  ((db.writerRows key).filter (fun row => (db.writerOf row).isNone)).map
    (fun row => "UNRESOLVED_WRITER:" ++ row.1) ++
  (if (db.plannedLeader key).isNone then ["MISSING_LEADER"] else []) ++
  (if (db.writerRows key).filterMap db.writerOf = [] then ["TEAM_HAS_NO_WRITER"] else []) ++
  ((db.mentorRows key).filter (fun id => (db.mentorOf id).isNone)).map (fun id => "UNRESOLVED_MENTOR:" ++ id)

def teamPlan (key teamName : String) : ImportedTeamPlan where
  externalTeamKey := key
  teamName := teamName
  existingPaperTeamId := (db.teamLinks.get? key).map (·.paperTeamId)
  writerUserIds := (db.writerRows key).filterMap db.writerOf
  leaderUserId := db.plannedLeader key
  mentorUserIds := (db.mentorRows key).filterMap db.mentorOf
  unresolved := db.unresolved key

def namesTeam (jobId : Uuid) (key : String) : Bool :=
  db.rows.rows.any (fun r => (db.jobs.get? r.1.1).any (fun source =>
    r.1.1 == jobId || source.batchId.any (fun batch => (db.jobs.get? jobId).bind (·.batchId) == some batch)) &&
    assignmentApplyOrder.contains r.1.2.1 && r.2.teamKey == some key)

def pendingTeamPlans (jobId : Uuid) : List ImportedTeamPlan :=
  ((db.groups.rows.filter (fun group => db.namesTeam jobId group.1)).insertionSort
    (fun a b => a.1 ≤ b.1)).map (fun group => db.teamPlan group.1 group.2)

/-! ## Merges -/

/-- `ORDER BY writer_order NULLS LAST,created_at,user_id`. -/
def formerKey (row : UserId × TeamMember) : ℕ ×ₗ ℕ ×ₗ ℕ ×ₗ ℕ :=
  toLex (if row.2.writerOrder.isNone then 1 else 0,
    toLex (row.2.writerOrder.getD 0,toLex (row.2.createdAt,row.1)))

def formerWriters (teamId : Uuid) (planned : List UserId) : List (UserId × TeamMember) :=
  (db.members teamId).table.rows.filter
    (fun row => db.roles.get? row.1 == some .writer && !planned.contains row.1)

def retainedWriters (teamId : Uuid) (planned : List UserId) : List UserId :=
  ((db.formerWriters teamId planned).insertionSort (fun a b => formerKey a ≤ formerKey b)).map Prod.fst

def setMembers (teamId : Uuid) (members : TeamMembers) : TeamDb :=
  { db with members := fun id => if id = teamId then members else db.members id }

end TeamDb

def TeamMember.leave (member : TeamMember) : TeamMember :=
  { member with
    writerOrder := none
    isLeader := false }

theorem leave_seat (member : TeamMember) : member.leave.seat = .vacant := rfl

def newMember (actor : UserId) (now : Timestamp) : TeamMember := ⟨actor,now,false,none⟩

theorem newMember_seat (actor : UserId) (now : Timestamp) : (newMember actor now).seat = .vacant := rfl

/-- The row of a planned Writer, which keeps what it has besides its seat. -/
def plannedMember (actor : UserId) (now : Timestamp) (leader user : UserId) (old : Option TeamMember)
    (place : ℕ) : Option TeamMember :=
  some { old.getD (newMember actor now) with
    isLeader := user == leader
    writerOrder := some place }

def retainedMember (_ : UserId) (old : Option TeamMember) (place : ℕ) : Option TeamMember :=
  old.map (fun member => { member with writerOrder := some place })

def tooManyWriters : InstitutionError := .invalidInput "too many Team Writers"

/-- `paper_teams_name_length`. -/
def nameFits (name : String) : Bool := 1 ≤ name.length && name.length ≤ 200

theorem rename_linked {db : TeamDb} (teamId : Uuid) (name : String) :
    ∀ key link, db.teamLinks.get? key = some link → (db.groups.get? key).isSome = true ∧
      ((db.paperTeams.modify teamId (fun _ => name)).get? link.paperTeamId).isSome = true := by
  intro key link hlink
  obtain ⟨hgroup,hteam⟩ := db.linked key link hlink
  refine ⟨hgroup,?_⟩
  rw [Table.get?_modify]
  split
  · rwa [Option.isSome_map]
  · exact hteam

def TeamDb.rename (db : TeamDb) (teamId : Uuid) (name : String) : TeamDb :=
  { db with
    paperTeams := db.paperTeams.modify teamId (fun _ => name)
    linked := rename_linked teamId name }

def mergeExistingTeam (actor : UserId) (plan : ImportedTeamPlan) (db : TeamDb) :
    Except InstitutionError (TeamDb × Unit) := do
  let teamId ← require plan.existingPaperTeamId (.invalidInput "existing Paper Team link is missing")
  let leader ← require plan.leaderUserId (.conflict "MISSING_LEADER")
  ensure (plan.unresolved = []) (.conflict ("; ".intercalate plan.unresolved))
  ensure (db.roles.get? actor = some .admin) (.conflict "V2 Admin required")
  ensure (db.paperTeams.get? teamId).isSome .notFound
  let retained := db.retainedWriters teamId plan.writerUserIds
  let cleared := (db.members teamId).vacate (fun user _ => db.roles.get? user == some .writer)
    TeamMember.leave leave_seat
  let seated ← Roster.fill i32Max tooManyWriters (.database "paper_team_members_unique")
    (plannedMember actor db.now leader) 0 plan.writerUserIds cleared
  let ordered ← Roster.fill i32Max tooManyWriters (.database "paper_team_members_unique")
    retainedMember plan.writerUserIds.length retained seated
  let members := Roster.enrollAll (fun _ => newMember actor db.now) (fun _ => newMember_seat actor db.now) ordered
    plan.mentorUserIds
  ensure (nameFits (trim plan.teamName)) (.database "paper_teams_name_length")
  pure ((db.setMembers teamId members).rename teamId (trim plan.teamName),())

/-! ## Edits -/

def linkedIds (links : UserLinks) (missing : UserId → InstitutionError) :
    List UserId → Except InstitutionError (List ExternalId)
  | [] => pure []
  | user :: rest => do
    let id ← require (links.table.select (fun _ link => link.userId == some user && link.status == .linked)).head?
      (missing user)
    let ids ← linkedIds links missing rest
    pure (id :: ids)

def insertMentors : List ExternalId → Table ExternalId Unit → Except InstitutionError (Table ExternalId Unit)
  | [],mentors => pure mentors
  | id :: rest,mentors => do
    let mentors ← require (mentors.insert? id ()) (.database "paper_assignment_mentors_pkey")
    insertMentors rest mentors

def assignedStudent (ids : List ExternalId) (writers : List UserId) (leader : UserId) (id : ExternalId)
    (_ : Option AssignedStudent) (place : ℕ) : Option AssignedStudent :=
  some ⟨place,writers[ids.idxOf id]? == some leader⟩

theorem assign_linked {db : TeamDb} (key name : String) :
    ∀ other link, db.teamLinks.get? other = some link →
      ((db.groups.modify key (fun _ => name)).get? other).isSome = true ∧
        (db.paperTeams.get? link.paperTeamId).isSome = true := by
  intro other link hlink
  obtain ⟨hgroup,hteam⟩ := db.linked other link hlink
  refine ⟨?_,hteam⟩
  rw [Table.get?_modify]
  split
  · rwa [Option.isSome_map]
  · exact hgroup

def TeamDb.assign (db : TeamDb) (key name : String) (students : AssignedStudents)
    (mentors : Table ExternalId Unit) : TeamDb :=
  { db with
    groups := db.groups.modify key (fun _ => name)
    assignedStudents := fun other => if other = key then students else db.assignedStudents other
    assignedMentors := fun other => if other = key then mentors else db.assignedMentors other
    linked := assign_linked key name }

def editAssignment (key name : String) (writers : List UserId) (leader : UserId) (mentors : List UserId)
    (db : TeamDb) : Except InstitutionError TeamDb := do
  let studentIds ← linkedIds db.students (fun user => .conflict ("Writer " ++ uuidText user ++
    " needs a linked Student identity before editing imported Team " ++ key)) writers
  let facultyIds ← linkedIds db.faculty (fun user => .conflict ("Mentor " ++ uuidText user ++
    " needs a linked Faculty identity before editing imported Team " ++ key)) mentors
  ensure studentIds.Nodup (.database "paper_assignment_students_pkey")
  let students ← Roster.fill i32Max tooManyWriters (.database "paper_assignment_students_unique")
    (assignedStudent studentIds writers leader) 0 studentIds Roster.empty
  let assigned ← insertMentors facultyIds .empty
  pure (db.assign key name students assigned)

def TeamDb.externalKey (db : TeamDb) (teamId : Uuid) : Option String :=
  (db.teamLinks.table.select (fun _ link => link.paperTeamId == teamId)).head?

def TeamDb.editLinked (db : TeamDb) (key : Option String) (name : String) (writers : List UserId)
    (leader : UserId) (mentors : List UserId) : Except InstitutionError TeamDb :=
  match key with
  | none => pure db
  | some key => editAssignment key name writers leader mentors db

def TeamDb.roleCount (db : TeamDb) (users : List UserId) (role : GlobalRole) : ℕ :=
  db.roles.count (fun user r => users.contains user && r == role)

structure EditedTeam where
  paperTeamId : Uuid
  name : String
  writerUserIds : List UserId
  leaderUserId : UserId
  mentorUserIds : List UserId
  externalTeamKey : Option String

def updatePaperTeam (actor : UserId) (teamId : Uuid) (givenName : String) (writers : List UserId)
    (leader : UserId) (mentors : List UserId) (db : TeamDb) :
    Except InstitutionError (TeamDb × EditedTeam) := do
  let name := trim givenName
  ensure (name ≠ "" && name.length ≤ 200)
    (.invalidInput "Team name must contain between 1 and 200 characters")
  ensure (writers ≠ [] && writers.contains leader)
    (.invalidInput "Team must have at least one Writer and exactly one selected Writer Leader")
  ensure (writers ++ mentors).Nodup (.invalidInput "a Team member cannot be assigned more than once")
  ensure (db.roles.get? actor = some .admin) (.conflict "V2 Admin required")
  ensure (db.paperTeams.get? teamId).isSome .notFound
  ensure (db.roleCount writers .writer = writers.length && db.roleCount mentors .mentor = mentors.length)
    (.conflict "Writers must have global WRITER and Mentors must have global MENTOR")
  let key := db.externalKey teamId
  let db ← db.editLinked key name writers leader mentors
  -- The members are distinct, so that none of their rows is there yet.
  let seated ← Roster.fill i32Max tooManyWriters (.database "paper_team_members_unique")
    (plannedMember actor db.now leader) 0 writers Roster.empty
  let members := Roster.enrollAll (fun _ => newMember actor db.now) (fun _ => newMember_seat actor db.now) seated mentors
  ensure (nameFits name) (.database "paper_teams_name_length")
  pure ((db.setMembers teamId members).rename teamId name,⟨teamId,name,writers,leader,mentors,key⟩)

end LatexCore.Imports
