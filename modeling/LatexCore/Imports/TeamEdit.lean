import LatexCore.Foundation.Lockstep
import LatexCore.Imports.TeamMerge

/-! # Edits by an admin and the plans after them

An edit of a linked team writes the same Writers, leader and mentors to the assignment
and to the members of the paper team. The plan that is read from the assignment has no
unresolved entry then, and its merge finds the members as it would write them.
-/
namespace LatexCore.Imports
open Core Foundation
open Institution (InstitutionError ExternalId UserLinks)

variable {db db' : TeamDb} {actor leader : UserId} {teamId : Uuid} {key name : String}
variable {writers mentors : List UserId}

/-! ## What an edit writes -/

theorem roleCount_all {users : List UserId} {role : GlobalRole}
    (h : db.roleCount users role = users.length) : ∀ user ∈ users, db.roles.get? user = some role := by
  intro user huser
  have hsubset : db.roles.select (fun user r => users.contains user && r == role) ⊆ users := by
    intro other hother
    obtain ⟨r,-,hr⟩ := Table.mem_select.mp hother
    simp only [Bool.and_eq_true,List.contains_eq_mem,decide_eq_true_eq] at hr
    exact hr.1
  have hlength : users.length ≤ (db.roles.select (fun user r => users.contains user && r == role)).length := by
    rw [Table.length_select]
    exact h.ge
  have hperm := (List.subperm_of_subset (Table.select_nodup _ _) hsubset).perm_of_length_le hlength
  obtain ⟨r,hr,hrole⟩ := Table.mem_select.mp (hperm.mem_iff.mpr huser)
  simp only [Bool.and_eq_true,beq_iff_eq] at hrole
  rw [hr,hrole.2]

theorem linkedIds_ok {links : UserLinks} {missing : UserId → InstitutionError} {users : List UserId}
    {ids : List ExternalId} (h : linkedIds links missing users = .ok ids) :
    List.Forall₂ (fun id user => ∃ link, links.get? id = some link ∧ link.userId = some user) ids users := by
  induction users generalizing ids with
  | nil =>
    rw [linkedIds,pure_ok] at h
    subst h
    exact .nil
  | cons user rest ih =>
    simp only [linkedIds,bind_ok,require_ok,pure_ok] at h
    obtain ⟨id,hid,later,hlater,rfl⟩ := h
    obtain ⟨link,hlink,huser⟩ := Table.mem_select.mp (List.mem_of_head? hid)
    simp only [Bool.and_eq_true,beq_iff_eq] at huser
    exact .cons ⟨link,hlink,huser.1⟩ (ih hlater)

theorem insertMentors_keys {ids : List ExternalId} {mentors assigned : Table ExternalId Unit}
    (h : insertMentors ids mentors = .ok assigned) : assigned.keys = mentors.keys ++ ids := by
  induction ids generalizing mentors with
  | nil =>
    rw [insertMentors,pure_ok] at h
    subst h
    simp
  | cons id rest ih =>
    simp only [insertMentors,bind_ok,require_ok] at h
    obtain ⟨next,hnext,hrest⟩ := h
    have hkeys : next.keys = mentors.keys ++ [id] := by
      rw [Table.keys,(Table.insert?_eq_some hnext).2,List.map_append]
      rfl
    rw [ih hrest,hkeys,List.append_assoc,List.singleton_append]

theorem linkedUser_of_link {links : UserLinks} {roles : Table UserId GlobalRole} {role : GlobalRole}
    {id : ExternalId} {user : UserId} (hrole : roles.get? user = some role)
    (h : ∃ link, links.get? id = some link ∧ link.userId = some user) :
    linkedUser links roles role id = some user := by
  obtain ⟨link,hlink,huser⟩ := h
  simp [linkedUser,hlink,huser,hrole]

theorem externalKey_linked {link : TeamLink} (hlink : db.teamLinks.get? key = some link) :
    db.externalKey link.paperTeamId = some key := by
  have hkey : key ∈ db.teamLinks.table.select (fun _ other => other.paperTeamId == link.paperTeamId) :=
    Table.mem_select.mpr ⟨link,hlink,by simp⟩
  cases hhead : db.externalKey link.paperTeamId with
  | none =>
    rw [List.head?_eq_none_iff.mp hhead] at hkey
    exact absurd hkey List.not_mem_nil
  | some found =>
    obtain ⟨other,hother,hteam⟩ := Table.mem_select.mp (List.mem_of_head? hhead)
    have hsame : found = key :=
      db.teamLinks.get?_inj hother hlink (congrArg some (beq_iff_eq.mp hteam)) rfl
    rw [hsame]

structure Edited (db db' : TeamDb) (actor : UserId) (teamId : Uuid) (key name : String) (writers : List UserId)
    (leader : UserId) (mentors : List UserId) : Prop where
  roles : db'.roles = db.roles
  students : db'.students = db.students
  faculty : db'.faculty = db.faculty
  rows : db'.rows = db.rows
  jobs : db'.jobs = db.jobs
  links : db'.teamLinks = db.teamLinks
  group : db'.groups.get? key = some name
  team : db'.paperTeams.get? teamId = some name
  nameFits : nameFits name = true
  trimmed : trim name = name
  led : leader ∈ writers
  nodup : (writers ++ mentors).Nodup
  writer : ∀ user ∈ writers, db.roles.get? user = some .writer
  mentor : ∀ user ∈ mentors, db.roles.get? user = some .mentor
  places : writers.length ≤ i32Max
  member : ∀ user, (db'.members teamId).get? user =
    if user ∈ writers then plannedMember actor db.now leader user none (writers.idxOf user + 1)
    else if user ∈ mentors then some (newMember actor db.now) else none
  assigned : ∃ ids, List.Forall₂ (fun id user => ∃ link, db.students.get? id = some link ∧
      link.userId = some user) ids writers ∧ ids.Nodup ∧
    (db'.assignedStudents key).table.rows =
      ids.mapIdx (fun i id => (id,⟨i + 1,writers[ids.idxOf id]? == some leader⟩))
  mentorIds : ∃ ids, List.Forall₂ (fun id user => ∃ link, db.faculty.get? id = some link ∧
      link.userId = some user) ids mentors ∧ (db'.assignedMentors key).keys = ids

theorem updatePaperTeam_edited {givenName : String} {edited : EditedTeam} {link : TeamLink}
    (h : updatePaperTeam actor link.paperTeamId givenName writers leader mentors db = .ok (db',edited))
    (hlink : db.teamLinks.get? key = some link) :
    Edited db db' actor link.paperTeamId key (trim givenName) writers leader mentors := by
  simp only [updatePaperTeam,externalKey_linked hlink,TeamDb.editLinked,editAssignment,bind_ok,ensure_ok,pure_ok,
    Prod.mk.injEq,decide_eq_true_eq,Bool.and_eq_true,List.contains_eq_mem] at h
  obtain ⟨_,-,_,⟨-,hled⟩,_,hnodup,_,-,_,hteam,_,⟨hwriters,hmentors⟩,mid,
    ⟨ids,hids,facultyIds,hfaculty,_,hidsNodup,students,hstudents,assigned,hassigned,rfl⟩,
    seated,hseated,_,hname,rfl,-⟩ := h
  have hnodupWriters := (List.nodup_append.mp hnodup).1
  refine ⟨rfl,rfl,rfl,rfl,rfl,rfl,?_,?_,hname,trim_trim givenName,hled,hnodup,
    roleCount_all hwriters,roleCount_all hmentors,?_,?_,
    ⟨ids,linkedIds_ok hids,hidsNodup,?_⟩,⟨facultyIds,linkedIds_ok hfaculty,?_⟩⟩
  · obtain ⟨old,hold⟩ := Option.isSome_iff_exists.mp (db.linked key link hlink).1
    change (db.groups.modify key (fun _ => trim givenName)).get? key = _
    rw [Table.get?_modify_self,hold]
    rfl
  · obtain ⟨old,hold⟩ := Option.isSome_iff_exists.mp hteam
    change (db.paperTeams.modify link.paperTeamId (fun _ => trim givenName)).get? link.paperTeamId = _
    rw [Table.get?_modify_self,hold]
    rfl
  · rcases Roster.fill_limit hseated with rfl | hle
    · exact absurd hled List.not_mem_nil
    · simpa using hle
  · intro user
    simp only [TeamDb.rename,TeamDb.setMembers,if_pos]
    rw [Roster.get?_enrollAll,Roster.get?_fill hnodupWriters hseated,Roster.get?_empty,Nat.zero_add]
    split
    · rfl
    · rw [Option.none_or]
      rfl
  · simp only [TeamDb.rename,TeamDb.setMembers,TeamDb.assign,if_pos]
    have hrows := Roster.rows_fill (fun id place => ⟨place,writers[ids.idxOf id]? == some leader⟩)
      hidsNodup (fun _ _ => rfl) (fun _ _ => rfl) hstudents
    rw [hrows]
    simp [Roster.empty,Table.empty]
  · simp only [TeamDb.rename,TeamDb.setMembers,TeamDb.assign,if_pos]
    rw [insertMentors_keys hassigned]
    rfl

/-! ## The plan after an edit -/

namespace Edited
variable (h : Edited db db' actor teamId key name writers leader mentors)
include h

theorem writerRows_eq : ∃ ids, ids.Nodup ∧ List.Forall₂ (fun id user =>
      linkedUser db'.students db'.roles .writer id = some user) ids writers ∧
    db'.writerRows key = ids.mapIdx (fun i id => (id,⟨i + 1,writers[ids.idxOf id]? == some leader⟩)) := by
  obtain ⟨ids,hlinks,hnodup,hrows⟩ := h.assigned
  refine ⟨ids,hnodup,?_,?_⟩
  · rw [h.students,h.roles]
    refine List.forall₂_iff_get.mpr ⟨hlinks.length_eq,fun i hi hi' => ?_⟩
    exact linkedUser_of_link (h.writer _ (List.get_mem _ _)) (List.Forall₂.get hlinks hi hi')
  · rw [TeamDb.writerRows,hrows]
    refine List.Pairwise.insertionSort_eq (List.pairwise_iff_getElem.mpr ?_)
    intro i j hi hj hlt
    rw [List.getElem_mapIdx,List.getElem_mapIdx]
    dsimp only
    omega

theorem planned_writers : (db'.writerRows key).filterMap db'.writerOf = writers := by
  obtain ⟨ids,-,hlinked,hrows⟩ := h.writerRows_eq
  have hids : (db'.writerRows key).map Prod.fst = ids := by
    rw [hrows]
    refine List.ext_getElem (by simp) fun i hi hi' => ?_
    rw [List.getElem_map,List.getElem_mapIdx]
  calc (db'.writerRows key).filterMap db'.writerOf
      = ((db'.writerRows key).map Prod.fst).filterMap (linkedUser db'.students db'.roles .writer) := by
        rw [List.filterMap_map]
        rfl
    _ = writers := by rw [hids,filterMap_related hlinked]

theorem planned_leader : db'.plannedLeader key = some leader := by
  obtain ⟨ids,hnodup,hlinked,hrows⟩ := h.writerRows_eq
  have hall : ∀ user ∈ ((db'.writerRows key).filter (fun row => row.2.isLeader)).filterMap db'.writerOf,
      user = leader := by
    intro user huser
    obtain ⟨row,hrow,hwriter⟩ := List.mem_filterMap.mp huser
    obtain ⟨hmem,hleads⟩ := List.mem_filter.mp hrow
    rw [hrows] at hmem
    obtain ⟨i,hi,rfl⟩ := List.mem_mapIdx.mp hmem
    have hid : ids[ids.idxOf ids[i]]? = some ids[i] := List.getElem?_idxOf (List.getElem_mem hi)
    have hlead := related_get hlinked hid (beq_iff_eq.mp hleads)
    exact Option.some.inj (hwriter.symm.trans hlead)
  have hthere : leader ∈ ((db'.writerRows key).filter (fun row => row.2.isLeader)).filterMap db'.writerOf := by
    obtain ⟨i,hi,hleader⟩ := List.getElem_of_mem h.led
    have hi' : i < ids.length := hlinked.length_eq ▸ hi
    have hwriter : writers[i]? = some leader := by rw [List.getElem?_eq_getElem hi,hleader]
    refine List.mem_filterMap.mpr ⟨(ids[i],⟨i + 1,true⟩),List.mem_filter.mpr ⟨?_,rfl⟩,?_⟩
    · rw [hrows]
      refine List.mem_mapIdx.mpr ⟨i,hi',?_⟩
      rw [hnodup.idxOf_getElem i hi',hwriter]
      simp
    · exact related_get hlinked (List.getElem?_eq_getElem hi') hwriter
  cases hlast : db'.plannedLeader key with
  | none =>
    rw [List.getLast?_eq_none_iff.mp hlast] at hthere
    exact absurd hthere List.not_mem_nil
  | some found => rw [hall found (List.mem_of_getLast? hlast)]

theorem planned_mentors : (∀ id ∈ db'.mentorRows key, (db'.mentorOf id).isSome = true) ∧
    ∀ user ∈ (db'.mentorRows key).filterMap db'.mentorOf, user ∈ mentors := by
  obtain ⟨ids,hlinks,hkeys⟩ := h.mentorIds
  have hmentor : ∀ id ∈ db'.mentorRows key, ∃ user ∈ mentors, db'.mentorOf id = some user := by
    intro id hid
    rw [TeamDb.mentorRows,List.mem_insertionSort,hkeys] at hid
    obtain ⟨i,hi,rfl⟩ := List.getElem_of_mem hid
    have hi' : i < mentors.length := hlinks.length_eq ▸ hi
    refine ⟨mentors[i],List.getElem_mem hi',?_⟩
    rw [TeamDb.mentorOf,h.faculty,h.roles]
    exact linkedUser_of_link (h.mentor _ (List.getElem_mem hi'))
      (related_get hlinks (List.getElem?_eq_getElem hi) (List.getElem?_eq_getElem hi'))
  constructor
  · intro id hid
    obtain ⟨user,-,huser⟩ := hmentor id hid
    rw [huser]
    rfl
  · intro user huser
    obtain ⟨id,hid,hfound⟩ := List.mem_filterMap.mp huser
    obtain ⟨other,hother,hsame⟩ := hmentor id hid
    rw [hfound,Option.some.injEq] at hsame
    exact hsame ▸ hother

theorem unresolved_nil : db'.unresolved key = [] := by
  obtain ⟨ids,-,hlinked,hrows⟩ := h.writerRows_eq
  have hwriters : (db'.writerRows key).filter (fun row => (db'.writerOf row).isNone) = [] := by
    rw [List.filter_eq_nil_iff]
    intro row hrow
    rw [hrows] at hrow
    obtain ⟨i,hi,rfl⟩ := List.mem_mapIdx.mp hrow
    have hi' : i < writers.length := hlinked.length_eq ▸ hi
    have hwriter := related_get hlinked (List.getElem?_eq_getElem hi) (List.getElem?_eq_getElem hi')
    simp only [TeamDb.writerOf,hwriter,Option.isNone_some,Bool.false_eq_true,not_false_eq_true]
  have hmentors : (db'.mentorRows key).filter (fun id => (db'.mentorOf id).isNone) = [] := by
    rw [List.filter_eq_nil_iff]
    intro id hid
    simpa [Option.isSome_iff_ne_none] using h.planned_mentors.1 id hid
  have hsome : writers ≠ [] := List.ne_nil_of_mem h.led
  rw [TeamDb.unresolved,hwriters,hmentors,h.planned_leader,h.planned_writers,if_neg hsome]
  rfl

theorem nonWriter_vacant {user : UserId} {member : TeamMember} (hmember : (db'.members teamId).get? user = some member)
    (hwriter : user ∉ writers) : user ∈ mentors ∧ member.seat = .vacant := by
  rw [h.member,if_neg hwriter] at hmember
  split at hmember
  · next hmentor =>
    obtain rfl := Option.some.inj hmember
    exact ⟨hmentor,newMember_seat actor db.now⟩
  · cases hmember

theorem formerWriters_nil : db'.formerWriters teamId writers = [] := by
  refine List.eq_nil_iff_forall_not_mem.mpr fun row hrow => ?_
  obtain ⟨hmember,hrole,hwriter⟩ := mem_formerWriters.mp hrow
  have hmentor := h.mentor row.1 (h.nonWriter_vacant hmember hwriter).1
  rw [h.roles,hmentor] at hrole
  cases hrole

theorem merge_agrees {link : TeamLink} {merger : UserId} (hlink : db'.teamLinks.get? key = some link)
    (hteam : link.paperTeamId = teamId) (hadmin : db'.roles.get? merger = some .admin) :
    ∃ db'', mergeExistingTeam merger (db'.teamPlan key name) db' = .ok (db'',()) ∧
      (∀ user, (db''.members teamId).get? user = (db'.members teamId).get? user) ∧
      db''.paperTeams.get? teamId = db'.paperTeams.get? teamId := by
  have hexisting : (db'.teamPlan key name).existingPaperTeamId = some teamId := by
    rw [TeamDb.teamPlan,hlink,← hteam]
    rfl
  obtain ⟨chosen,hplan⟩ := teamPlan_resolved h.unresolved_nil hexisting
  obtain rfl : leader = chosen := Option.some.inj (h.planned_leader.symm.trans hplan.chosen)
  have hwriters : (db'.teamPlan key name).writerUserIds = writers := h.planned_writers
  have hname : trim (db'.teamPlan key name).teamName = name := h.trimmed
  have hmergeable : Mergeable db' (db'.teamPlan key name) teamId := by
    refine ⟨?_,by rw [hname]; exact h.nameFits,?_⟩
    · intro user member hmember hrole
      have hwriter : user ∉ writers := fun hmem => hrole (by rw [h.roles]; exact h.writer user hmem)
      exact (h.nonWriter_vacant hmember hwriter).2
    · rw [hwriters,h.formerWriters_nil]
      exact h.places
  have hthere : (db'.paperTeams.get? teamId).isSome = true := by
    rw [h.team]
    rfl
  obtain ⟨db'',hok⟩ := mergeExistingTeam_succeeds hplan hadmin hthere hmergeable
  refine ⟨db'',hok,?_,?_⟩
  · intro user
    have hnone : db'.retainedWriters teamId writers = [] := by
      rw [TeamDb.retainedWriters,h.formerWriters_nil]
      rfl
    rw [get?_merged hok hplan,hwriters,hnone,if_neg List.not_mem_nil]
    split
    · next hwriter =>
      rw [h.member,if_pos hwriter]
      rfl
    · next hwriter =>
      by_cases hmentor : user ∈ mentors
      · rw [h.member,if_neg hwriter,if_pos hmentor,Option.some_or]
      · have hplanned : user ∉ (db'.teamPlan key name).mentorUserIds := fun hmem =>
          hmentor (h.planned_mentors.2 user hmem)
        rw [if_neg hplanned,Option.or_none]
  · obtain ⟨seated,ordered,-,-,-,rfl⟩ := mergeExistingTeam_ok hok hplan
    change (db'.paperTeams.modify teamId _).get? teamId = _
    rw [Table.get?_modify_self,h.team,hname]
    rfl

theorem pending {jobId : Uuid} (hnamed : db.namesTeam jobId key = true) :
    db'.teamPlan key name ∈ db'.pendingTeamPlans jobId := by
  refine List.mem_map.mpr ⟨(key,name),?_,rfl⟩
  rw [List.mem_insertionSort,List.mem_filter]
  refine ⟨Table.mem_rows_iff.mpr h.group,?_⟩
  rw [TeamDb.namesTeam,h.rows,h.jobs]
  exact hnamed

end Edited

/-! ## Merges and edits -/

/-- The merge of a plan without unresolved entries goes through and leaves the team as it should exactly
if the team is mergeable; and after an edit of a linked team, the plan of every job that names the team
has no unresolved entry and merges without a change. -/
theorem merge_and_edit_agree (source db : TeamDb) (actor : UserId) (jobId : Uuid) :
    (∀ (teamId : Uuid) (plan : ImportedTeamPlan),
      plan ∈ source.pendingTeamPlans jobId → plan.unresolved = [] → plan.existingPaperTeamId = some teamId →
      db.roles = source.roles → db.roles.get? actor = some .admin → (db.paperTeams.get? teamId).isSome = true →
      ∃ leader, plan.leaderUserId = some leader ∧
        ((∃ db', mergeExistingTeam actor plan db = .ok (db',()) ∧ Merged db db' plan teamId leader) ↔
          Mergeable db plan teamId)) ∧
    ∀ (db' : TeamDb) (merger : UserId) (key name : String) (link : TeamLink) (writers mentors : List UserId) (leader : UserId) (edited : EditedTeam),
      db.teamLinks.get? key = some link →
      updatePaperTeam actor link.paperTeamId name writers leader mentors db = .ok (db',edited) →
      db.namesTeam jobId key = true → db.roles.get? merger = some .admin →
      ∃ plan ∈ db'.pendingTeamPlans jobId, plan.externalTeamKey = key ∧ plan.unresolved = [] ∧
        ∃ db'', mergeExistingTeam merger plan db' = .ok (db'',()) ∧
          (∀ user, (db''.members link.paperTeamId).get? user = (db'.members link.paperTeamId).get? user) ∧
          db''.paperTeams.get? link.paperTeamId = db'.paperTeams.get? link.paperTeamId := by
  constructor
  · intro teamId plan hplan hresolved hteam hroles hadmin hthere
    obtain ⟨key,name,-,-,rfl⟩ := pendingTeamPlans_mem hplan
    obtain ⟨leader,hplan⟩ := teamPlan_resolved hresolved hteam
    rw [← hroles] at hplan
    exact ⟨leader,hplan.chosen,merged_iff hplan hadmin hthere⟩
  · intro db' merger key name link writers mentors leader edited hlink hok hnamed hadmin
    have h := updatePaperTeam_edited hok hlink
    have hlink' : db'.teamLinks.get? key = some link := by
      rw [h.links]
      exact hlink
    exact ⟨_,h.pending hnamed,rfl,h.unresolved_nil,h.merge_agrees hlink' rfl (by rw [h.roles]; exact hadmin)⟩

/-! ## A Writer who became a mentor -/

def studentLinks : UserLinks := ⟨⟨[("S3",⟨some 3,none,.linked,some 0,rfl⟩)],List.nodup_singleton _⟩,by decide⟩

def memberRows (place : Option ℕ) : TeamMembers :=
  ((Roster.empty.put? 3 ⟨1,0,true,some 2⟩).bind (fun members => members.put? 2 ⟨1,0,false,place⟩)).getD Roster.empty

def assignmentRow : ImportRow where
  naturalKey := .obj [("external_team_key",.str "T1")]
  payload := .obj [("external_team_key",.str "T1"),("team_name",.str "Team")]
  existingPayload := none
  action := .update
  status := .applied
  errorCode := none
  errorMessage := none

/-- A team whose leader is second in the order; the first, or without a place now, is a mentor. -/
def movedTeams (place : Option ℕ) : TeamDb where
  now := 0
  roles := ⟨[(1,.admin),(2,.mentor),(3,.writer)],by decide⟩
  students := studentLinks
  faculty := Indexed.empty
  groups := ⟨[("T1","Team")],List.nodup_singleton _⟩
  assignedStudents := fun _ => (Roster.empty.put? "S3" ⟨1,true⟩).getD Roster.empty
  assignedMentors := fun _ => .empty
  teamLinks := ⟨⟨[("T1",⟨10,7⟩)],List.nodup_singleton _⟩,by decide⟩
  paperTeams := ⟨[(10,"Team")],List.nodup_singleton _⟩
  members := fun _ => memberRows place
  jobs := ⟨[(7,⟨none,.merge,.applied,1,0,1,0,0,0⟩)],List.nodup_singleton _⟩
  rows := ⟨[((7,.paperTeams,2),assignmentRow)],List.nodup_singleton _⟩
  linked := by
    intro key link hlink
    have hmem := Table.mem_rows_iff.mpr hlink
    obtain ⟨rfl,rfl⟩ := Prod.mk.inj (List.mem_singleton.mp hmem)
    exact ⟨rfl,rfl⟩

def movedPlan : ImportedTeamPlan := ⟨"T1","Team",some 10,[3],some 3,[],[]⟩

theorem movedPlan_pending (place : Option ℕ) : (movedTeams place).pendingTeamPlans 7 = [movedPlan] := by
  rfl

/-- The place of the former Writer is not vacated, so the leader finds it taken. -/
theorem stale_place_blocks_merge : movedPlan ∈ (movedTeams (some 1)).pendingTeamPlans 7 ∧
    movedPlan.unresolved = [] ∧ (movedTeams (some 1)).roles.get? 1 = some .admin ∧
    ((movedTeams (some 1)).paperTeams.get? 10).isSome = true ∧
    ¬∃ db', mergeExistingTeam 1 movedPlan (movedTeams (some 1)) = .ok (db',()) := by
  refine ⟨by rw [movedPlan_pending]; exact List.mem_singleton_self _,rfl,rfl,rfl,?_⟩
  rintro ⟨db',hok⟩
  have hnone : (mergeExistingTeam 1 movedPlan (movedTeams (some 1))).toOption.isNone = true := by decide
  rw [hok] at hnone
  cases hnone

/-- Without a place of the mentor the plan merges, and so does the plan after an edit. -/
theorem vacated_place_merges :
    (∃ leader, movedPlan.leaderUserId = some leader ∧
      ((∃ db', mergeExistingTeam 1 movedPlan (movedTeams none) = .ok (db',()) ∧
          Merged (movedTeams none) db' movedPlan 10 leader) ↔ Mergeable (movedTeams none) movedPlan 10)) ∧
    ∃ db' edited, updatePaperTeam 1 10 "Team" [3] 3 [] (movedTeams none) = .ok (db',edited) ∧
      ∃ plan ∈ db'.pendingTeamPlans 7, plan.externalTeamKey = "T1" ∧ plan.unresolved = [] ∧
        ∃ db'', mergeExistingTeam 1 plan db' = .ok (db'',()) ∧
          (∀ user, (db''.members 10).get? user = (db'.members 10).get? user) ∧
          db''.paperTeams.get? 10 = db'.paperTeams.get? 10 := by
  constructor
  · have hplan : movedPlan ∈ (movedTeams none).pendingTeamPlans 7 := by
      rw [movedPlan_pending]
      exact List.mem_singleton_self _
    exact (merge_and_edit_agree (movedTeams none) (movedTeams none) 1 7).1 10 movedPlan hplan rfl rfl rfl rfl rfl
  · cases hedit : updatePaperTeam 1 10 "Team" [3] 3 [] (movedTeams none) with
    | error e =>
      have hsome : (updatePaperTeam 1 10 "Team" [3] 3 [] (movedTeams none)).toOption.isSome = true := by decide
      rw [hedit] at hsome
      cases hsome
    | ok result =>
      refine ⟨result.1,result.2,rfl,?_⟩
      exact (merge_and_edit_agree (movedTeams none) (movedTeams none) 1 7).2 result.1 1 "T1" "Team" ⟨10,7⟩ [3] [] 3 result.2 rfl hedit
        (by decide) rfl

end LatexCore.Imports
