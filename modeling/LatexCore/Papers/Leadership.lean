import LatexCore.Papers.Runs

/-! # Leadership of the paper teams

Global roles, memberships, leaders, owners and statuses lie in four tables, and every
transaction checks its own side of them alone. Together the checks keep one law in every
run: an active team has exactly one leader, every leader and every owner of a personal
paper is a Writer, and every member is a Writer or a Mentor.
-/
namespace LatexCore.Papers
open Core Foundation Workspace

structure Governance where
  roles : Table UserId GlobalRole
  personalPapers : Table Uuid PersonalPaper
  paperTeams : Table Uuid PaperTeam
  members : PaperTeamMembers

def Db.governance (db : Db) : Governance := ⟨db.roles,db.personalPapers,db.paperTeams,db.members⟩

def Governance.Leads (g : Governance) (team : Uuid) (user : UserId) : Prop := g.members.At team (team,user)

structure Governance.Lawful (g : Governance) : Prop where
  member : ∀ team user member, g.members.get? (team,user) = some member →
    (g.paperTeams.get? team).isSome ∧
      (g.roles.get? user = some .writer ∨ g.roles.get? user = some .mentor)
  leader : ∀ team user, g.Leads team user → g.roles.get? user = some .writer
  led : ∀ id team, g.paperTeams.get? id = some team → team.status = .active → ∃! user, g.Leads id user
  owner : ∀ id paper, g.personalPapers.get? id = some paper →
    g.roles.get? paper.ownerUserId = some .writer

variable {codec : Codec} {db db' : Db} {g : Governance} {user : UserId} {u : Unit}

/-! ## The checks -/

theorem requireRole_ok {allowed : List GlobalRole} {required : String} {role : GlobalRole}
    (h : requireRole db user allowed required = .ok role) :
    db.roles.get? user = some role ∧ role ∈ allowed := by
  simp only [requireRole,bind_ok,require_ok,ensure_ok,pure_ok,decide_eq_true_eq] at h
  obtain ⟨_,hrole,_,hallowed,rfl⟩ := h
  exact ⟨hrole,hallowed⟩

theorem requireRole_single {role found : GlobalRole} {required : String} {user : UserId}
    (h : requireRole db user [role] required = .ok found) : db.roles.get? user = some role := by
  obtain ⟨hrole,hallowed⟩ := requireRole_ok h
  exact hrole.trans (congrArg some (List.mem_singleton.mp hallowed))

theorem requireRoleTx_ok {wanted : GlobalRole} (h : requireRoleTx db user wanted = .ok u) :
    db.roles.get? user = some wanted := by
  simp only [requireRoleTx,bind_ok,require_ok,ensure_ok,decide_eq_true_eq] at h
  obtain ⟨_,hrole,rfl⟩ := h
  exact hrole

theorem requireMembers_ok {role : GlobalRole} {users : List UserId}
    (h : requireMembers role users db = .ok u) : ∀ user ∈ users, db.roles.get? user = some role := by
  induction users with
  | nil => simp
  | cons first rest ih =>
    simp only [requireMembers,bind_ok] at h
    obtain ⟨_,_,_,hrole,hrest⟩ := h
    obtain ⟨hfirst,hmem⟩ := requireRole_ok hrole
    exact List.forall_mem_cons.mpr ⟨hfirst.trans (congrArg some (List.mem_singleton.mp hmem)),ih hrest⟩

theorem requireRolesTx_ok {role : GlobalRole} {users : List UserId}
    (h : requireRolesTx role users db = .ok u) : ∀ user ∈ users, db.roles.get? user = some role := by
  induction users with
  | nil => simp
  | cons first rest ih =>
    simp only [requireRolesTx,bind_ok] at h
    obtain ⟨_,hfirst,hrest⟩ := h
    exact List.forall_mem_cons.mpr ⟨requireRoleTx_ok hfirst,ih hrest⟩

theorem insertMembers_get? {team : Uuid} {assignedBy leader : UserId} {writers users : List UserId}
    (h : insertMembers team assignedBy leader writers users db = .ok db') :
    ∃ members, db' = { db with members := members } ∧ ∀ k, members.get? k =
      if k.1 = team ∧ k.2 ∈ users then some ⟨assignedBy,k.2 == leader,writerOrder writers k.2⟩
      else db.members.get? k := by
  induction users generalizing db with
  | nil =>
    cases h
    exact ⟨_,rfl,fun k => by simp⟩
  | cons user rest ih =>
    rw [insertMembers,bind_ok] at h
    obtain ⟨middle,hinsert,hrest⟩ := h
    obtain ⟨first,hfirst,rfl⟩ := insertMember_ok hinsert
    obtain ⟨members,rfl,hmembers⟩ := ih hrest
    refine ⟨members,rfl,?_⟩
    rintro ⟨other,k⟩
    rw [hmembers,(Indexed.insert?_eq_some hfirst).2]
    by_cases hrest : other = team ∧ k ∈ rest
    · rw [if_pos hrest,if_pos ⟨hrest.1,List.mem_cons_of_mem _ hrest.2⟩]
    · rw [if_neg hrest]
      by_cases hkey : (other,k) = (team,user)
      · cases hkey
        simp
      · rw [if_neg hkey,if_neg]
        rintro ⟨hteam,hmem⟩
        rcases List.mem_cons.mp hmem with rfl | hmem
        · exact hkey (Prod.ext hteam rfl)
        · exact hrest ⟨hteam,hmem⟩

/-! ## One transaction -/

namespace Governance

theorem leads_iff {team : Uuid} : g.Leads team user ↔
    ∃ member, g.members.get? (team,user) = some member ∧ member.isLeader = true := by
  simp [Leads,Indexed.At,leaderIndex]

theorem Leads.only {team : Uuid} (h : g.Leads team user) : ∃! user, g.Leads team user :=
  ⟨user,h,fun _ hother => congrArg Prod.snd (Indexed.At.unique hother h)⟩

namespace Lawful

/-- A new team comes with its members, and one of them leads it. -/
theorem enlist (h : g.Lawful) {id : Uuid} {team : PaperTeam} {teams : Table Uuid PaperTeam}
    {members : PaperTeamMembers} {users : List UserId} {leader assignedBy : UserId}
    {order : UserId → Option ℕ} (hteams : g.paperTeams.insert? id team = some teams)
    (hmembers : ∀ k, members.get? k = if k.1 = id ∧ k.2 ∈ users then
      some ⟨assignedBy,k.2 == leader,order k.2⟩ else g.members.get? k) (hleader : leader ∈ users)
    (hwriter : g.roles.get? leader = some .writer) (hroles : ∀ user ∈ users,
      g.roles.get? user = some .writer ∨ g.roles.get? user = some .mentor) :
    Lawful ⟨g.roles,g.personalPapers,teams,members⟩ := by
  have hget := Table.get?_insert? hteams
  have hnew : ∀ k m, members.get? k = some m →
      (k.1 = id ∧ k.2 ∈ users ∧ m = ⟨assignedBy,k.2 == leader,order k.2⟩) ∨ k.1 ≠ id ∧ g.members.get? k = some m := by
    intro k m hm
    rw [hmembers] at hm
    split at hm
    · next hk => exact Or.inl ⟨hk.1,hk.2,(Option.some.inj hm).symm⟩
    · refine Or.inr ⟨?_,hm⟩
      rintro rfl
      have hteam := (h.member k.1 k.2 m hm).1
      simp [(Table.insert?_eq_some hteams).1] at hteam
  have hlead : Leads ⟨g.roles,g.personalPapers,teams,members⟩ id leader :=
    leads_iff.mpr ⟨⟨assignedBy,true,order leader⟩,by simp [hmembers,hleader],rfl⟩
  refine ⟨?_,?_,?_,h.owner⟩
  · intro other user m hm
    rcases hnew _ _ hm with ⟨rfl,hmem,-⟩ | ⟨hne,hm⟩
    · exact ⟨by simp [hget],hroles user hmem⟩
    · obtain ⟨hteam,hrole⟩ := h.member other user m hm
      exact ⟨by simpa [hget,hne] using hteam,hrole⟩
  · intro other user hleads
    obtain ⟨m,hm,hleads⟩ := leads_iff.mp hleads
    rcases hnew _ _ hm with ⟨rfl,-,rfl⟩ | ⟨-,hm⟩
    · rw [beq_iff_eq] at hleads
      exact (congrArg g.roles.get? hleads).trans hwriter
    · exact h.leader other user (leads_iff.mpr ⟨m,hm,hleads⟩)
  · intro other row hrow hactive
    rw [hget] at hrow
    split at hrow
    · next hid => exact hid ▸ hlead.only
    · next hne =>
      obtain ⟨user,hleads,-⟩ := h.led other row hrow hactive
      obtain ⟨m,hm,hleads⟩ := leads_iff.mp hleads
      exact Leads.only (leads_iff.mpr ⟨m,by rw [hmembers,if_neg (fun hk => hne hk.1),hm],hleads⟩)

theorem own (h : g.Lawful) {id : Uuid} {paper : PersonalPaper} {papers : Table Uuid PersonalPaper}
    (hpapers : g.personalPapers.insert? id paper = some papers)
    (hwriter : g.roles.get? paper.ownerUserId = some .writer) :
    Lawful ⟨g.roles,papers,g.paperTeams,g.members⟩ := by
  refine ⟨h.member,h.leader,h.led,?_⟩
  intro other row hrow
  rw [Table.get?_insert? hpapers] at hrow
  split at hrow
  · cases hrow
    exact hwriter
  · exact h.owner other row hrow

/-- Roles that keep what owners, members and leaders need. -/
theorem reassign (h : g.Lawful) {roles : Table UserId GlobalRole}
    (hother : ∀ other ≠ user, roles.get? other = g.roles.get? other)
    (howner : roles.get? user = some .writer ∨
      ∀ id paper, g.personalPapers.get? id = some paper → paper.ownerUserId ≠ user)
    (hmember : roles.get? user = some .writer ∨ roles.get? user = some .mentor ∨
      ∀ team member, g.members.get? (team,user) ≠ some member)
    (hleader : roles.get? user = some .writer ∨ ∀ team, ¬g.Leads team user) :
    Lawful ⟨roles,g.personalPapers,g.paperTeams,g.members⟩ := by
  constructor
  · intro team other member hm
    obtain ⟨hteam,hrole⟩ := h.member team other member hm
    by_cases hsame : other = user
    · subst hsame
      rcases hmember with hrole | hrole | hnone
      · exact ⟨hteam,Or.inl hrole⟩
      · exact ⟨hteam,Or.inr hrole⟩
      · exact absurd hm (hnone team member)
    · exact ⟨hteam,by simpa only [hother other hsame] using hrole⟩
  · intro team other hleads
    by_cases hsame : other = user
    · subst hsame
      exact hleader.resolve_right (fun hnone => hnone team hleads)
    · exact (hother other hsame).trans (h.leader team other hleads)
  · exact h.led
  · intro id paper hpaper
    by_cases hsame : paper.ownerUserId = user
    · rw [hsame]
      exact howner.resolve_right (fun hnone => hnone id paper hpaper hsame)
    · exact (hother _ hsame).trans (h.owner id paper hpaper)

theorem restatus (h : g.Lawful) {id : Uuid} {status : PaperStatus}
    (hled : status = .active → ∃ user, g.Leads id user) :
    Lawful ⟨g.roles,g.personalPapers,g.paperTeams.modify id (fun t => { t with status := status }),
      g.members⟩ := by
  refine ⟨?_,h.leader,?_,h.owner⟩
  · intro team user member hm
    obtain ⟨hteam,hrole⟩ := h.member team user member hm
    refine ⟨?_,hrole⟩
    rw [Table.get?_modify]
    split
    · rwa [Option.isSome_map]
    · exact hteam
  · intro other row hrow hactive
    rw [Table.get?_modify] at hrow
    split at hrow
    · next hid =>
      obtain ⟨old,-,rfl⟩ := Option.map_eq_some_iff.mp hrow
      obtain ⟨user,hleads⟩ := hled hactive
      exact hid ▸ hleads.only
    · exact h.led other row hrow hactive

theorem freeze (h : g.Lawful) {id : Uuid} {status : PaperStatus} :
    Lawful ⟨g.roles,g.personalPapers.modify id (fun p => { p with status := status }),g.paperTeams,
      g.members⟩ := by
  refine ⟨h.member,h.leader,h.led,?_⟩
  intro other paper hpaper
  rw [Table.get?_modify] at hpaper
  split at hpaper
  · obtain ⟨old,hold,rfl⟩ := Option.map_eq_some_iff.mp hpaper
    exact h.owner _ old hold
  · exact h.owner other paper hpaper

/-- Members that come, go or change their part, as long as the active teams keep a leader. -/
theorem remember (h : g.Lawful) {members : PaperTeamMembers}
    (hmember : ∀ team user member, members.get? (team,user) = some member →
      (∃ old, g.members.get? (team,user) = some old) ∨ (g.paperTeams.get? team).isSome ∧
        (g.roles.get? user = some .writer ∨ g.roles.get? user = some .mentor))
    (hleader : ∀ team user, Leads ⟨g.roles,g.personalPapers,g.paperTeams,members⟩ team user →
      g.Leads team user ∨ g.roles.get? user = some .writer)
    (hled : ∀ id team user, g.paperTeams.get? id = some team → team.status = .active →
      g.Leads id user → ∃ user, Leads ⟨g.roles,g.personalPapers,g.paperTeams,members⟩ id user) :
    Lawful ⟨g.roles,g.personalPapers,g.paperTeams,members⟩ := by
  refine ⟨?_,?_,?_,h.owner⟩
  · intro team user member hm
    rcases hmember team user member hm with ⟨old,hold⟩ | hnew
    · exact h.member team user old hold
    · exact hnew
  · intro team user hleads
    exact (hleader team user hleads).elim (h.leader team user) id
  · intro id team hteam hactive
    obtain ⟨user,hleads,-⟩ := h.led id team hteam hactive
    obtain ⟨user,hleads⟩ := hled id team user hteam hactive hleads
    exact hleads.only

end Lawful
end Governance

/-- Every team stays, over the same workspace. -/
def Housed (teams teams' : Table Uuid PaperTeam) : Prop :=
  ∀ id team, teams.get? id = some team →
    ∃ team', teams'.get? id = some team' ∧ team'.workspaceId = team.workspaceId

theorem Housed.refl (teams : Table Uuid PaperTeam) : Housed teams teams := fun _ team h => ⟨team,h,rfl⟩

theorem Housed.insert {teams teams' : Table Uuid PaperTeam} {id : Uuid} {team : PaperTeam}
    (h : teams.insert? id team = some teams') : Housed teams teams' := by
  intro other row hrow
  refine ⟨row,?_,rfl⟩
  rw [Table.get?_insert? h,if_neg,hrow]
  rintro rfl
  simp [(Table.insert?_eq_some h).1] at hrow

theorem Housed.restatus {teams : Table Uuid PaperTeam} {id : Uuid} {status : PaperStatus} :
    Housed teams (teams.modify id (fun t => { t with status := status })) := by
  intro other team hteam
  rw [Table.get?_modify]
  split
  · exact ⟨{ team with status := status },by rw [hteam,Option.map_some],rfl⟩
  · exact ⟨team,hteam,rfl⟩

def Db.govern (db : Db) (g : Governance) : Db :=
  { db with
    roles := g.roles
    personalPapers := g.personalPapers
    paperTeams := g.paperTeams
    members := g.members }

def Ruled (db db' : Db) : Prop := ∃ g, db' = db.govern g ∧ (db.governance.Lawful → g.Lawful) ∧
  Housed db.paperTeams g.paperTeams

theorem any_rows_eq_false {κ ν : Type} [DecidableEq κ] {t : Table κ ν} {p : κ × ν → Bool} :
    t.rows.any p = false ↔ ∀ k v, t.get? k = some v → p (k,v) = false := by
  simp only [List.any_eq_false,Bool.not_eq_true,Prod.forall,Table.mem_rows_iff]

theorem setGlobalRole_ruled {role : GlobalRole}
    (ht : setGlobalRole user role db = .ok (db',u)) : Ruled db db' := by
  simp only [setGlobalRole,validateRoleChange,bind_ok,ensure_ok,pure_ok,Prod.mk.injEq,Bool.or_eq_true,
    decide_eq_true_eq,Bool.not_eq_true',ownsPersonalPaper,hasTeamMembership,isTeamLeader,
    any_rows_eq_false,Bool.and_eq_false_iff,beq_eq_false_iff_ne,Prod.forall] at ht
  obtain ⟨_,_,_,⟨_,howner,_,hmember,hleader⟩,rfl,_⟩ := ht
  have hself : (db.roles.upsert user role).get? user = some role := by
    rw [Table.get?_upsert,if_pos rfl]
  refine ⟨⟨db.roles.upsert user role,db.personalPapers,db.paperTeams,db.members⟩,rfl,fun h => ?_,.refl _⟩
  have hother : ∀ other ≠ user, (db.roles.upsert user role).get? other = db.roles.get? other := by
    intro other hother
    rw [Table.get?_upsert,if_neg hother]
  refine h.reassign hother ?_ ?_ ?_
  · exact howner.imp (fun hrole => hself.trans (congrArg some hrole)) (fun hnone => hnone)
  · rw [hself]
    cases role with
    | writer => exact Or.inl rfl
    | mentor => exact Or.inr (Or.inl rfl)
    | admin => exact Or.inr (Or.inr (fun team member hm => hmember.resolve_left (by simp) team user member hm rfl))
  · refine hleader.imp (fun hrole => hself.trans (congrArg some hrole)) (fun hnone team hleads => ?_)
    obtain ⟨member,hm,hleads⟩ := Governance.leads_iff.mp hleads
    rcases hnone team user member hm with hne | hfalse
    · exact hne rfl
    · simp [hleads] at hfalse

theorem removeGlobalRole_ruled
    (ht : removeGlobalRole user db = .ok (db',u)) : Ruled db db' := by
  simp only [removeGlobalRole,bind_ok,ensure_ok,pure_ok,Prod.mk.injEq,Bool.not_eq_true',
    ownsPersonalPaper,hasTeamMembership,any_rows_eq_false,beq_eq_false_iff_ne,Prod.forall] at ht
  obtain ⟨_,_,_,howner,_,hmember,_,_,rfl,_⟩ := ht
  refine ⟨⟨db.roles.deleteWhere (fun k _ => k == user),db.personalPapers,db.paperTeams,db.members⟩,rfl,
    fun h => ?_,.refl _⟩
  have hother : ∀ other ≠ user,
      (db.roles.deleteWhere (fun k _ => k == user)).get? other = db.roles.get? other := by
    intro other hother
    rw [Table.get?_deleteWhere]
    cases db.roles.get? other <;> simp [hother]
  refine h.reassign hother (Or.inr howner)
    (Or.inr (Or.inr (fun team member hm => hmember team user member hm rfl))) (Or.inr ?_)
  intro team hleads
  obtain ⟨member,hm,-⟩ := Governance.leads_iff.mp hleads
  exact hmember team user member hm rfl

theorem setPaperTeamStatus_ruled {id : Uuid} {status : PaperStatus}
    (ht : setPaperTeamStatus id status db = .ok (db',u)) : Ruled db db' := by
  simp only [setPaperTeamStatus,bind_ok,ensure_ok,pure_ok,Prod.mk.injEq,Bool.or_eq_true,
    decide_eq_true_eq,beq_iff_eq] at ht
  obtain ⟨_,_,_,hone,rfl,_⟩ := ht
  refine ⟨⟨db.roles,db.personalPapers,db.paperTeams.modify id (fun t => { t with status := status }),
    db.members⟩,rfl,fun h => h.restatus ?_,.restatus⟩
  intro hactive
  have hpos : 0 < writerLeaders db id := by
    have hcount := hone.resolve_left (not_not_intro hactive)
    omega
  obtain ⟨⟨team,user⟩,member,hm,hleads⟩ := Table.count_pos.mp hpos
  simp only [Bool.and_eq_true,beq_iff_eq] at hleads
  obtain ⟨⟨rfl,hleads⟩,-⟩ := hleads
  exact ⟨user,Governance.leads_iff.mpr ⟨member,hm,hleads⟩⟩

theorem addPaperTeamMember_ruled {team : Uuid} {assignedBy : UserId}
    (ht : addPaperTeamMember team user assignedBy db = .ok (db',u)) : Ruled db db' := by
  simp only [addPaperTeamMember,lockPaperTeam,bind_ok,require_ok,pure_ok,Prod.mk.injEq] at ht
  obtain ⟨_,_,_,_,role,hrole,_,hteam,_,hinsert,rfl,_⟩ := ht
  obtain ⟨hrole,hallowed⟩ := requireRole_ok hrole
  obtain ⟨members,hmembers,rfl⟩ := insertMember_ok hinsert
  obtain ⟨hnone,hget⟩ := Indexed.insert?_eq_some hmembers
  refine ⟨⟨db.roles,db.personalPapers,db.paperTeams,members⟩,rfl,fun h => ?_,.refl _⟩
  refine h.remember ?_ ?_ ?_
  · intro other k m hm
    rw [hget] at hm
    split at hm
    · next hk =>
      cases hk
      refine Or.inr ⟨by simp [Db.governance,hteam],?_⟩
      simpa [hrole,Db.governance] using hallowed
    · exact Or.inl ⟨m,hm⟩
  · intro other k hleads
    rw [Governance.Leads,Indexed.at_replaced hget] at hleads
    split at hleads
    · simp [leaderIndex] at hleads
    · exact Or.inl hleads
  · intro id row k _ _ hleads
    refine ⟨k,?_⟩
    rw [Governance.Leads,Indexed.at_replaced hget,if_neg]
    · exact hleads
    · intro hk
      obtain ⟨m,hm,-⟩ := hleads
      rw [hk] at hm
      exact absurd hm (by simp [Db.governance,hnone])

theorem removePaperTeamMember_ruled {team : Uuid} {removedBy : UserId}
    (ht : removePaperTeamMember team user removedBy db = .ok (db',u)) : Ruled db db' := by
  simp only [removePaperTeamMember,bind_ok,ensure_ok,pure_ok,Prod.mk.injEq,Bool.not_eq_true',
    leadsActiveTeam,Bool.and_eq_false_iff] at ht
  obtain ⟨_,_,_,_,_,_,_,hleader,_,_,rfl,_⟩ := ht
  have hget (k : Uuid × UserId) : (deleteMember db team user).members.get? k =
      (db.members.get? k).filter (fun _ => !(k == (team,user))) := Indexed.get?_deleteWhere ..
  refine ⟨⟨db.roles,db.personalPapers,db.paperTeams,(deleteMember db team user).members⟩,rfl,
    fun h => ?_,.refl _⟩
  refine h.remember ?_ ?_ ?_
  · intro other k m hm
    rw [hget,Option.filter_eq_some_iff] at hm
    exact Or.inl ⟨m,hm.1⟩
  · intro other k hleads
    obtain ⟨m,hm,hleads⟩ := Governance.leads_iff.mp hleads
    rw [hget,Option.filter_eq_some_iff] at hm
    exact Or.inl (Governance.leads_iff.mpr ⟨m,hm.1,hleads⟩)
  · intro id row k hrow hactive hleads
    obtain ⟨m,hm,hleader'⟩ := Governance.leads_iff.mp hleads
    refine ⟨k,Governance.leads_iff.mpr ⟨m,?_,hleader'⟩⟩
    rw [hget,Option.filter_eq_some_iff]
    refine ⟨hm,?_⟩
    rw [Bool.not_eq_true',beq_eq_false_iff_ne]
    intro hk
    cases hk
    change db.members.get? (team,user) = some m at hm
    change db.paperTeams.get? team = some row at hrow
    rcases hleader with hfalse | hfalse
    · simp [hm,hleader'] at hfalse
    · simp [hrow,hactive] at hfalse

theorem changePaperTeamLeader_ruled {team : Uuid} {changedBy : UserId}
    (ht : changePaperTeamLeader team user changedBy db = .ok (db',u)) : Ruled db db' := by
  simp only [changePaperTeamLeader,replaceLeader,bind_ok,ensure_ok,require_ok,pure_ok,
    Prod.mk.injEq] at ht
  obtain ⟨_,_,_,_,_,hrole,_,_,_,hmember,_,⟨members,hmodify,rfl⟩,rfl,_⟩ := ht
  obtain ⟨hrole,hallowed⟩ := requireRole_ok hrole
  rw [List.mem_singleton] at hallowed
  subst hallowed
  have hget (k : Uuid × UserId) : members.get? k = if k = (team,user) then
      (db.members.get? k).map (fun m => { m with isLeader := true }) else
      (db.members.get? k).map (fun m => if k.1 = team ∧ m.isLeader = true then m.demote else m) := by
    rw [Indexed.get?_modify? hmodify,Indexed.get?_updateWhere]
    split
    · rw [Option.map_map]
      congr 1
      funext m
      simp only [Function.comp]
      split <;> rfl
    · simp
  have hnew : Governance.Leads ⟨db.roles,db.personalPapers,db.paperTeams,members⟩ team user := by
    obtain ⟨m,hm⟩ := Option.isSome_iff_exists.mp hmember
    exact Governance.leads_iff.mpr ⟨{ m with isLeader := true },by simp [hget,hm],rfl⟩
  refine ⟨⟨db.roles,db.personalPapers,db.paperTeams,members⟩,rfl,fun h => ?_,.refl _⟩
  refine h.remember ?_ ?_ ?_
  · intro other k m hm
    rw [hget] at hm
    split at hm <;> obtain ⟨old,hold,-⟩ := Option.map_eq_some_iff.mp hm <;> exact Or.inl ⟨old,hold⟩
  · intro other k hleads
    obtain ⟨m,hm,hleads⟩ := Governance.leads_iff.mp hleads
    change members.get? (other,k) = some m at hm
    rw [hget] at hm
    split at hm
    · next hk =>
      cases hk
      exact Or.inr hrole
    · obtain ⟨old,hold,rfl⟩ := Option.map_eq_some_iff.mp hm
      split at hleads
      · simp [PaperTeamMember.demote] at hleads
      · exact Or.inl (Governance.leads_iff.mpr ⟨old,hold,hleads⟩)
  · intro id row k _ _ hleads
    by_cases hid : id = team
    · exact ⟨user,hid ▸ hnew⟩
    · obtain ⟨m,hm,hleads⟩ := Governance.leads_iff.mp hleads
      change db.members.get? (id,k) = some m at hm
      exact ⟨k,Governance.leads_iff.mpr ⟨m,by simp [hget,hid,hm],hleads⟩⟩

/-! ## New papers -/

theorem createPaperTeam_ruled {creator : UserId} {x : WorkspaceId}
    {name : String} {id : Uuid} (ht : createPaperTeam creator x name user id db = .ok (db',u)) :
    Ruled db db' := by
  simp only [createPaperTeam,bind_ok,pure_ok,Prod.mk.injEq] at ht
  obtain ⟨_,_,_,_,_,_,_,hrole,_,_,_,_,_,hteam,_,hmember,rfl,_⟩ := ht
  obtain ⟨hrole,hallowed⟩ := requireRole_ok hrole
  rw [List.mem_singleton] at hallowed
  subst hallowed
  obtain ⟨teams,hteams,rfl⟩ := insertPaperTeam_ok hteam
  obtain ⟨members,hmembers,rfl⟩ := insertMember_ok hmember
  refine ⟨⟨db.roles,db.personalPapers,teams,members⟩,rfl,fun h => ?_,.insert hteams⟩
  let order : UserId → Option ℕ := fun _ => some 1
  have hget : ∀ k, members.get? k = if k.1 = id ∧ k.2 ∈ [user] then
      some ⟨creator,k.2 == user,order k.2⟩ else db.members.get? k := by
    rintro ⟨team,k⟩
    rw [(Indexed.insert?_eq_some hmembers).2]
    by_cases hk : (team,k) = (id,user)
    · cases hk
      simp [order]
    · rw [if_neg hk,if_neg]
      rintro ⟨rfl,hmem⟩
      exact hk (Prod.ext rfl (List.mem_singleton.mp hmem))
  refine h.enlist hteams hget (List.mem_singleton_self user) hrole ?_
  intro k hk
  rw [List.mem_singleton.mp hk]
  exact Or.inl hrole

theorem mem_roles {writers mentors : List UserId}
    (hwriters : ∀ user ∈ writers, db.roles.get? user = some .writer)
    (hmentors : ∀ user ∈ mentors, db.roles.get? user = some .mentor) : ∀ user ∈ writers ++ mentors,
      db.roles.get? user = some .writer ∨ db.roles.get? user = some .mentor := by
  intro user hmem
  rcases List.mem_append.mp hmem with hmem | hmem
  · exact Or.inl (hwriters user hmem)
  · exact Or.inr (hmentors user hmem)

theorem createPersonalPaper_ruled {owner : UserId} {x : WorkspaceId} {name : String} {id : Uuid}
    (ht : createPersonalPaper owner x name id db = .ok (db',u)) : Ruled db db' := by
  simp only [createPersonalPaper,bind_ok,pure_ok,Prod.mk.injEq] at ht
  obtain ⟨_,_,_,_,_,hrole,_,_,_,_,_,hpaper,rfl,_⟩ := ht
  obtain ⟨papers,hpapers,rfl⟩ := insertPersonalPaper_ok hpaper
  exact ⟨⟨db.roles,papers,db.paperTeams,db.members⟩,rfl,
    fun h => h.own hpapers (requireRole_single hrole),.refl _⟩

theorem setPersonalPaperStatus_ruled {id : Uuid} {status : PaperStatus}
    (ht : setPersonalPaperStatus id status db = .ok (db',u)) : Ruled db db' := by
  simp only [setPersonalPaperStatus,bind_ok,pure_ok,Prod.mk.injEq] at ht
  obtain ⟨_,_,rfl,_⟩ := ht
  exact ⟨⟨db.roles,db.personalPapers.modify id (fun p => { p with status := status }),db.paperTeams,
    db.members⟩,rfl,fun h => h.freeze,.refl _⟩

end LatexCore.Papers
