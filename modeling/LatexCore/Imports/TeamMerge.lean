import LatexCore.Imports.TeamPlans

/-! # Merges of resolved plans

A plan without unresolved entries has distinct Writers, its leader among them. Its merge
seats them and the retained Writers in fresh places, so it goes through and orders the
team as it should exactly if no member without the role of a Writer has kept a seat and
the name fits.
-/
namespace LatexCore.Imports
open Core Foundation
open Institution (InstitutionError ExternalId UserLinks)

/-! ## Resolved plans -/

structure ResolvedPlan (roles : Table UserId GlobalRole) (plan : ImportedTeamPlan) (teamId : Uuid)
    (leader : UserId) : Prop where
  team : plan.existingPaperTeamId = some teamId
  chosen : plan.leaderUserId = some leader
  resolved : plan.unresolved = []
  nodup : plan.writerUserIds.Nodup
  led : leader ∈ plan.writerUserIds
  writers : ∀ user ∈ plan.writerUserIds, roles.get? user = some .writer
  mentors : ∀ user ∈ plan.mentorUserIds, roles.get? user = some .mentor

theorem linkedUser_some {links : UserLinks} {roles : Table UserId GlobalRole} {role : GlobalRole}
    {id : ExternalId} {user : UserId} (h : linkedUser links roles role id = some user) :
    roles.get? user = some role ∧ ∃ link, links.get? id = some link ∧ link.userId = some user := by
  rw [linkedUser,Option.filter_eq_some_iff,Option.bind_eq_some_iff] at h
  obtain ⟨⟨link,hlink,huser⟩,hrole⟩ := h
  exact ⟨by simpa using hrole,link,hlink,huser⟩

theorem linkedUser_inj {links : UserLinks} {roles : Table UserId GlobalRole} {role : GlobalRole}
    {id id' : ExternalId} {user : UserId} (h : linkedUser links roles role id = some user)
    (h' : linkedUser links roles role id' = some user) : id = id' := by
  obtain ⟨-,link,hlink,huser⟩ := linkedUser_some h
  obtain ⟨-,link',hlink',huser'⟩ := linkedUser_some h'
  exact links.get?_inj hlink hlink' huser huser'

variable {db db' : TeamDb} {plan : ImportedTeamPlan} {actor leader user : UserId} {teamId : Uuid} {key name : String}

theorem writers_nodup (db : TeamDb) (key : String) : ((db.writerRows key).filterMap db.writerOf).Nodup := by
  have hids : ((db.writerRows key).map Prod.fst).Nodup :=
    ((List.perm_insertionSort _ _).map Prod.fst).nodup_iff.mpr (db.assignedStudents key).table.distinct
  have hwriters : (db.writerRows key).filterMap db.writerOf =
      ((db.writerRows key).map Prod.fst).filterMap (linkedUser db.students db.roles .writer) := by
    rw [List.filterMap_map]
    rfl
  rw [hwriters]
  exact hids.filterMap (fun id id' user h h' => linkedUser_inj h h')

theorem teamPlan_resolved (hresolved : db.unresolved key = [])
    (hteam : (db.teamPlan key name).existingPaperTeamId = some teamId) :
    ∃ leader, ResolvedPlan db.roles (db.teamPlan key name) teamId leader := by
  cases hleader : db.plannedLeader key with
  | none => simp [TeamDb.unresolved,hleader] at hresolved
  | some leader =>
    refine ⟨leader,hteam,hleader,hresolved,writers_nodup db key,?_,?_,?_⟩
    · obtain ⟨row,hrow,hwriter⟩ := List.mem_filterMap.mp (List.mem_of_getLast? hleader)
      exact List.mem_filterMap.mpr ⟨row,(List.mem_filter.mp hrow).1,hwriter⟩
    · intro user huser
      obtain ⟨row,-,hwriter⟩ := List.mem_filterMap.mp huser
      exact (linkedUser_some hwriter).1
    · intro user huser
      obtain ⟨id,-,hmentor⟩ := List.mem_filterMap.mp huser
      exact (linkedUser_some hmentor).1

theorem pendingTeamPlans_mem {jobId : Uuid} (h : plan ∈ db.pendingTeamPlans jobId) :
    ∃ key name, db.groups.get? key = some name ∧ db.namesTeam jobId key = true ∧ plan = db.teamPlan key name := by
  obtain ⟨⟨key,name⟩,hgroup,rfl⟩ := List.mem_map.mp h
  rw [List.mem_insertionSort,List.mem_filter] at hgroup
  exact ⟨key,name,Table.mem_rows_iff.mp hgroup.1,hgroup.2,rfl⟩

/-! ## Retained Writers -/

theorem mem_formerWriters {planned : List UserId} {row : UserId × TeamMember} :
    row ∈ db.formerWriters teamId planned ↔ (db.members teamId).get? row.1 = some row.2 ∧
      db.roles.get? row.1 = some .writer ∧ row.1 ∉ planned := by
  rw [TeamDb.formerWriters,List.mem_filter,← Prod.mk.eta (p := row),Table.mem_rows_iff]
  simp only [Bool.and_eq_true,beq_iff_eq,Bool.not_eq_true',List.contains_eq_mem,decide_eq_false_iff_not]
  rfl

theorem mem_retainedWriters {planned : List UserId} : user ∈ db.retainedWriters teamId planned ↔
    ((db.members teamId).get? user).isSome = true ∧ db.roles.get? user = some .writer ∧ user ∉ planned := by
  simp only [TeamDb.retainedWriters,List.mem_map,List.mem_insertionSort,mem_formerWriters]
  constructor
  · rintro ⟨row,⟨hmember,hrole⟩,rfl⟩
    exact ⟨by rw [hmember]; rfl,hrole⟩
  · rintro ⟨hmember,hrole⟩
    obtain ⟨member,hmember⟩ := Option.isSome_iff_exists.mp hmember
    exact ⟨(user,member),⟨hmember,hrole⟩,rfl⟩

theorem retainedWriters_nodup (db : TeamDb) (teamId : Uuid) (planned : List UserId) :
    (db.retainedWriters teamId planned).Nodup := by
  have hperm := (List.perm_insertionSort (fun a b => TeamDb.formerKey a ≤ TeamDb.formerKey b)
    (db.formerWriters teamId planned)).map Prod.fst
  exact hperm.nodup_iff.mpr ((db.members teamId).table.distinct.sublist (List.filter_sublist.map Prod.fst))

theorem retainedWriters_length (db : TeamDb) (teamId : Uuid) (planned : List UserId) :
    (db.retainedWriters teamId planned).length = (db.formerWriters teamId planned).length := by
  rw [TeamDb.retainedWriters,List.length_map,List.length_insertionSort]

/-! ## The members after a merge -/

def clearedMembers (db : TeamDb) (teamId : Uuid) : TeamMembers :=
  (db.members teamId).vacate (fun user _ => db.roles.get? user == some .writer) TeamMember.leave leave_seat

theorem get?_clearedMembers (db : TeamDb) (teamId : Uuid) (user : UserId) :
    (clearedMembers db teamId).get? user = ((db.members teamId).get? user).map
      (fun member => if db.roles.get? user == some .writer then member.leave else member) :=
  Roster.get?_vacate _ _ _ _ user

theorem mergeExistingTeam_ok (h : mergeExistingTeam actor plan db = .ok (db',()))
    (hplan : ResolvedPlan db.roles plan teamId leader) :
    ∃ seated ordered : TeamMembers,
      Roster.fill i32Max tooManyWriters (.database "paper_team_members_unique")
        (plannedMember actor db.now leader) 0 plan.writerUserIds (clearedMembers db teamId) = .ok seated ∧
      Roster.fill i32Max tooManyWriters (.database "paper_team_members_unique") retainedMember
        plan.writerUserIds.length (db.retainedWriters teamId plan.writerUserIds) seated = .ok ordered ∧
      nameFits (trim plan.teamName) = true ∧
      db' = (db.setMembers teamId (Roster.enrollAll (fun _ => newMember actor db.now)
        (fun _ => newMember_seat actor db.now) ordered plan.mentorUserIds)).rename teamId (trim plan.teamName) := by
  simp only [mergeExistingTeam,hplan.team,hplan.chosen,bind_ok,require_ok,ensure_ok,pure_ok,Prod.mk.injEq,
    Option.some.injEq,exists_eq_left'] at h
  obtain ⟨_,-,_,-,_,-,seated,hseated,ordered,hordered,_,hname,rfl,-⟩ := h
  exact ⟨seated,ordered,hseated,hordered,hname,rfl⟩

theorem get?_merged (h : mergeExistingTeam actor plan db = .ok (db',()))
    (hplan : ResolvedPlan db.roles plan teamId leader) (user : UserId) :
    (db'.members teamId).get? user =
      if user ∈ plan.writerUserIds then
        plannedMember actor db.now leader user ((db.members teamId).get? user) (plan.writerUserIds.idxOf user + 1)
      else if user ∈ db.retainedWriters teamId plan.writerUserIds then
        ((db.members teamId).get? user).map (fun member => { member with
          isLeader := false
          writerOrder := some (plan.writerUserIds.length +
            (db.retainedWriters teamId plan.writerUserIds).idxOf user + 1) })
      else ((db.members teamId).get? user).or
        (if user ∈ plan.mentorUserIds then some (newMember actor db.now) else none) := by
  obtain ⟨seated,ordered,hseated,hordered,-,rfl⟩ := mergeExistingTeam_ok h hplan
  have hmembers : ∀ members : TeamMembers,
      (((db.setMembers teamId members).rename teamId (trim plan.teamName)).members teamId) = members := by
    intro members
    simp [TeamDb.rename,TeamDb.setMembers]
  rw [hmembers,Roster.get?_enrollAll,Roster.get?_fill (retainedWriters_nodup _ _ _) hordered,
    Roster.get?_fill hplan.nodup hseated,get?_clearedMembers]
  by_cases hwriter : user ∈ plan.writerUserIds
  · have hnot : user ∉ db.retainedWriters teamId plan.writerUserIds := by
      intro hmem
      exact (mem_retainedWriters.mp hmem).2.2 hwriter
    rw [if_pos hwriter,if_pos hwriter,if_neg hnot,Nat.zero_add]
    cases hold : (db.members teamId).get? user with
    | none => simp [plannedMember]
    | some member =>
      simp only [plannedMember,Option.map_some,Option.getD_some,Option.some_or]
      split <;> rfl
  · rw [if_neg hwriter,if_neg hwriter]
    by_cases hretained : user ∈ db.retainedWriters teamId plan.writerUserIds
    · obtain ⟨hmember,hrole,-⟩ := mem_retainedWriters.mp hretained
      obtain ⟨member,hmember⟩ := Option.isSome_iff_exists.mp hmember
      rw [if_pos hretained,if_pos hretained,hmember,hrole]
      rfl
    · rw [if_neg hretained,if_neg hretained]
      congr 1
      cases hold : (db.members teamId).get? user with
      | none => rfl
      | some member =>
        have hrole : db.roles.get? user ≠ some .writer := by
          intro hrole
          exact hretained (mem_retainedWriters.mpr ⟨by rw [hold]; rfl,hrole,hwriter⟩)
        simp [hrole]

/-! ## What a merge should leave -/

/-- The plan's leader is the only one, its Writers are first in the order, the former Writers follow as
they were, its mentors are members and so is everyone who was. -/
structure Merged (db db' : TeamDb) (plan : ImportedTeamPlan) (teamId : Uuid) (leader : UserId) : Prop where
  leader : ∀ user, (∃ member, (db'.members teamId).get? user = some member ∧ member.isLeader = true) ↔ user = leader
  order : ∃ former : List (UserId × TeamMember), former.Perm (db.formerWriters teamId plan.writerUserIds) ∧
    former.Pairwise (fun a b => TeamDb.formerKey a ≤ TeamDb.formerKey b) ∧ ∀ user place,
      (((db'.members teamId).get? user).bind (·.writerOrder) = some place ↔
        ∃ i, (plan.writerUserIds ++ former.map Prod.fst)[i]? = some user ∧ place = i + 1)
  mentors : ∀ user ∈ plan.mentorUserIds, ((db'.members teamId).get? user).isSome = true
  kept : ∀ user, ((db.members teamId).get? user).isSome = true → ((db'.members teamId).get? user).isSome = true

/-- Members without the role of a Writer have no seat, the name fits and the places are numbers. -/
structure Mergeable (db : TeamDb) (plan : ImportedTeamPlan) (teamId : Uuid) : Prop where
  seats : ∀ user member, (db.members teamId).get? user = some member → db.roles.get? user ≠ some .writer →
    member.seat = .vacant
  name : nameFits (trim plan.teamName) = true
  places : plan.writerUserIds.length + (db.formerWriters teamId plan.writerUserIds).length ≤ i32Max

theorem getElem?_eq_some_iff_idxOf {α : Type} [DecidableEq α] {xs : List α} (hnodup : xs.Nodup) {x : α} {i : ℕ} :
    xs[i]? = some x ↔ x ∈ xs ∧ i = xs.idxOf x := by
  constructor
  · intro h
    obtain ⟨hlt,rfl⟩ := List.getElem?_eq_some_iff.mp h
    exact ⟨List.getElem_mem hlt,(hnodup.idxOf_getElem i hlt).symm⟩
  · rintro ⟨hmem,rfl⟩
    exact List.getElem?_idxOf hmem

theorem clearedMembers_vacant (h : Mergeable db plan teamId) {member : TeamMember}
    (hmember : (clearedMembers db teamId).get? user = some member) : member.seat = .vacant := by
  rw [get?_clearedMembers,Option.map_eq_some_iff] at hmember
  obtain ⟨old,hold,rfl⟩ := hmember
  split
  · exact leave_seat old
  · next hrole => exact h.seats user old hold (by simpa using hrole)

theorem mergeExistingTeam_succeeds (hplan : ResolvedPlan db.roles plan teamId leader)
    (hadmin : db.roles.get? actor = some .admin) (hteam : (db.paperTeams.get? teamId).isSome = true)
    (h : Mergeable db plan teamId) : ∃ db', mergeExistingTeam actor plan db = .ok (db',()) := by
  have hplaces := h.places
  rw [← retainedWriters_length] at hplaces
  obtain ⟨seated,hseated⟩ : ∃ seated, Roster.fill i32Max tooManyWriters (.database "paper_team_members_unique")
      (plannedMember actor db.now leader) 0 plan.writerUserIds (clearedMembers db teamId) = .ok seated := by
    refine Roster.fill_succeeds (fun user => user == leader) hplan.nodup (by omega) ?_ ?_ ?_
    · exact fun user _ place => ⟨_,rfl,rfl⟩
    · intro user member place hmember hplace
      rw [clearedMembers_vacant h hmember] at hplace
      cases hplace
    · intro user _ hleads
      refine ⟨fun other _ hother => (beq_iff_eq.mp hother).trans (beq_iff_eq.mp hleads).symm,?_⟩
      intro other member hmember _
      rw [clearedMembers_vacant h hmember]
      rfl
  have hget := fun user => Roster.get?_fill hplan.nodup hseated user
  obtain ⟨ordered,hordered⟩ : ∃ ordered, Roster.fill i32Max tooManyWriters
      (.database "paper_team_members_unique") retainedMember plan.writerUserIds.length
      (db.retainedWriters teamId plan.writerUserIds) seated = .ok ordered := by
    refine Roster.fill_succeeds (fun _ => false) (retainedWriters_nodup _ _ _) hplaces ?_ ?_ nofun
    · intro user huser place
      obtain ⟨hmember,hrole,hnot⟩ := mem_retainedWriters.mp huser
      obtain ⟨member,hmember⟩ := Option.isSome_iff_exists.mp hmember
      have hcleared : seated.get? user = some member.leave := by
        rw [hget,if_neg hnot,get?_clearedMembers,hmember,hrole]
        rfl
      rw [hcleared]
      exact ⟨_,rfl,rfl⟩
    · intro user member place hmember hplace
      rw [hget] at hmember
      split at hmember
      · next hwriter =>
        have hlt := List.idxOf_lt_length_of_mem hwriter
        simp only [plannedMember,Option.some_or,Option.some.injEq] at hmember
        subst hmember
        obtain rfl : 0 + plan.writerUserIds.idxOf user + 1 = place := by simpa [TeamMember.seat] using hplace
        omega
      · rw [clearedMembers_vacant h hmember] at hplace
        cases hplace
  refine ⟨(db.setMembers teamId (Roster.enrollAll (fun _ => newMember actor db.now)
    (fun _ => newMember_seat actor db.now) ordered plan.mentorUserIds)).rename teamId (trim plan.teamName),?_⟩
  simp only [mergeExistingTeam,hplan.team,hplan.chosen,bind_ok,require_ok,ensure_ok,pure_ok,Prod.mk.injEq]
  exact ⟨teamId,rfl,leader,rfl,(),by simpa using hplan.resolved,(),by simpa using hadmin,(),hteam,seated,hseated,
    ordered,hordered,(),h.name,rfl,trivial⟩

/-- Former Writers keep their row but for its seat, and others without a seat have none. -/
theorem merged_of_ok (hok : mergeExistingTeam actor plan db = .ok (db',()))
    (hplan : ResolvedPlan db.roles plan teamId leader) (h : Mergeable db plan teamId) :
    Merged db db' plan teamId leader := by
  have hget := get?_merged hok hplan
  have hvacant : ∀ user member, user ∉ plan.writerUserIds → user ∉ db.retainedWriters teamId plan.writerUserIds →
      (db'.members teamId).get? user = some member → member.seat = .vacant := by
    intro user member hwriter hretained hmember
    rw [hget,if_neg hwriter,if_neg hretained] at hmember
    cases hold : (db.members teamId).get? user with
    | none =>
      rw [hold,Option.none_or] at hmember
      split at hmember
      · obtain rfl := Option.some.inj hmember
        exact newMember_seat actor db.now
      · cases hmember
    | some old =>
      rw [hold,Option.some_or] at hmember
      obtain rfl := Option.some.inj hmember
      refine h.seats user old hold (fun hrole => hretained ?_)
      exact mem_retainedWriters.mpr ⟨by rw [hold]; rfl,hrole,hwriter⟩
  refine ⟨?_,?_,?_,?_⟩
  · intro user
    constructor
    · rintro ⟨member,hmember,hleads⟩
      by_cases hwriter : user ∈ plan.writerUserIds
      · rw [hget,if_pos hwriter,plannedMember,Option.some.injEq] at hmember
        subst hmember
        exact beq_iff_eq.mp hleads
      · by_cases hretained : user ∈ db.retainedWriters teamId plan.writerUserIds
        · rw [hget,if_neg hwriter,if_pos hretained,Option.map_eq_some_iff] at hmember
          obtain ⟨old,-,rfl⟩ := hmember
          cases hleads
        · have hseat := congrArg Seat.leads (hvacant user member hwriter hretained hmember)
          rw [TeamMember.seat,hleads] at hseat
          cases hseat
    · rintro rfl
      refine ⟨_,by rw [hget,if_pos hplan.led]; rfl,?_⟩
      exact beq_self_eq_true user
  · refine ⟨(db.formerWriters teamId plan.writerUserIds).insertionSort
      (fun a b => TeamDb.formerKey a ≤ TeamDb.formerKey b),List.perm_insertionSort _ _,
      List.pairwise_insertionSort _ _,?_⟩
    intro user place
    change _ ↔ ∃ i, (plan.writerUserIds ++ db.retainedWriters teamId plan.writerUserIds)[i]? = some user ∧ _
    have hdisjoint : plan.writerUserIds.Disjoint (db.retainedWriters teamId plan.writerUserIds) := by
      intro other hwriter hretained
      exact (mem_retainedWriters.mp hretained).2.2 hwriter
    have hnodup := hplan.nodup.append (retainedWriters_nodup db teamId plan.writerUserIds) hdisjoint
    simp only [getElem?_eq_some_iff_idxOf hnodup,List.mem_append]
    by_cases hwriter : user ∈ plan.writerUserIds
    · rw [hget,if_pos hwriter,List.idxOf_append_of_mem hwriter]
      simp only [plannedMember,Option.bind_some,Option.some.injEq,hwriter,true_or,true_and,exists_eq_left]
      exact eq_comm
    · rw [List.idxOf_append_of_notMem hwriter]
      by_cases hretained : user ∈ db.retainedWriters teamId plan.writerUserIds
      · obtain ⟨hmember,-⟩ := mem_retainedWriters.mp hretained
        obtain ⟨member,hmember⟩ := Option.isSome_iff_exists.mp hmember
        rw [hget,if_neg hwriter,if_pos hretained,hmember]
        simp only [Option.map_some,Option.bind_some,Option.some.injEq,hretained,or_true,true_and,exists_eq_left]
        exact eq_comm
      · refine iff_of_false ?_ (by simp [hwriter,hretained])
        intro hplace
        obtain ⟨member,hmember,horder⟩ := Option.bind_eq_some_iff.mp hplace
        have hseat := congrArg Seat.order (hvacant user member hwriter hretained hmember)
        rw [TeamMember.seat,horder] at hseat
        cases hseat
  · intro mentor hmentor
    rw [hget]
    split
    · rfl
    · split
      · next hretained => rw [Option.isSome_map]; exact (mem_retainedWriters.mp hretained).1
      · rw [Option.isSome_or,Option.isSome_some,Bool.or_true]
  · intro user hmember
    rw [hget]
    split
    · rfl
    · split
      · rwa [Option.isSome_map]
      · rw [Option.isSome_or,hmember,Bool.true_or]

/-- A merge that leaves the team as it should had no seat to vacate but those of Writers. -/
theorem mergeable_of_merged (hok : mergeExistingTeam actor plan db = .ok (db',()))
    (hplan : ResolvedPlan db.roles plan teamId leader) (h : Merged db db' plan teamId leader) :
    Mergeable db plan teamId := by
  have hget := get?_merged hok hplan
  obtain ⟨seated,ordered,hseated,hordered,hname,-⟩ := mergeExistingTeam_ok hok hplan
  obtain ⟨former,hperm,-,horder⟩ := h.order
  refine ⟨?_,hname,?_⟩
  · intro user member hmember hrole
    have hwriter : user ∉ plan.writerUserIds := fun hmem => hrole (hplan.writers user hmem)
    have hretained : user ∉ db.retainedWriters teamId plan.writerUserIds := fun hmem =>
      hrole (mem_retainedWriters.mp hmem).2.1
    have hkept : (db'.members teamId).get? user = some member := by
      rw [hget,if_neg hwriter,if_neg hretained,hmember,Option.some_or]
    have hleads : member.isLeader = false := by
      by_contra hleads
      have hleader := (h.leader user).mp ⟨member,hkept,by simpa using hleads⟩
      exact hwriter (hleader ▸ hplan.led)
    have hplace : member.writerOrder = none := by
      by_contra hplace
      obtain ⟨place,hplace⟩ := Option.ne_none_iff_exists'.mp hplace
      obtain ⟨i,hi,-⟩ := (horder user place).mp (by rw [hkept]; exact hplace)
      rcases List.mem_append.mp (List.mem_of_getElem? hi) with hmem | hmem
      · exact hwriter hmem
      · obtain ⟨row,hrow,rfl⟩ := List.mem_map.mp hmem
        exact hrole (mem_formerWriters.mp (hperm.mem_iff.mp hrow)).2.1
    rw [TeamMember.seat,hleads,hplace]
    rfl
  · rw [← retainedWriters_length]
    have hseatedLimit := Roster.fill_limit hseated
    have hwriters : plan.writerUserIds ≠ [] := List.ne_nil_of_mem hplan.led
    rcases Roster.fill_limit hordered with hnil | hle
    · rw [hnil]
      rcases hseatedLimit with hnone | hle
      · exact absurd hnone hwriters
      · simpa using hle
    · exact hle

theorem merged_iff (hplan : ResolvedPlan db.roles plan teamId leader)
    (hadmin : db.roles.get? actor = some .admin) (hteam : (db.paperTeams.get? teamId).isSome = true) :
    (∃ db', mergeExistingTeam actor plan db = .ok (db',()) ∧ Merged db db' plan teamId leader) ↔
      Mergeable db plan teamId := by
  constructor
  · rintro ⟨db',hok,hmerged⟩
    exact mergeable_of_merged hok hplan hmerged
  · intro h
    obtain ⟨db',hok⟩ := mergeExistingTeam_succeeds hplan hadmin hteam h
    exact ⟨db',hok,merged_of_ok hok hplan h⟩

end LatexCore.Imports
