import LatexCore.Core.Types
import LatexCore.Foundation.LongestMatch
import LatexCore.Foundation.Runs
import LatexCore.Workspace.Path

/-! # File policies of team projects

A project made from a template copies the rules of the template and its default.
A path has the policy of its own rule, else of the longest directory rule above
it, else the default of the project. Project managers set the policy of a file
and cannot go below what the rules of the template say about it; where the
template has no rule for the file, nothing holds them to its default.

The permissions of a member of a project: what the account, the group role and
the project roles grant, and single overrides. A denial wins over every grant.
-/
namespace LatexCore.Teams
open Core Foundation Workspace

/-! ## Permissions -/

inductive Permission
  | projectRead | projectCreate | projectManage | projectDelete
  | fileRead | fileWrite | fileCreate | fileUpload | fileRename | fileDelete | fileSetMain
  | fileProtectedWrite | compileSubmit | artifactRead
  | teamCreate | teamMembersManage | teamProjectManage | mentorGroupCreate
  | reviewRead | reviewComment | reviewResolve | reviewManage
  | templateUse | templateManage
  | adminUsers | adminTeams | adminProjects | adminTemplates | adminJobs | adminStorage
  | adminBackups | adminAudit | adminSecurity | adminSystem
deriving DecidableEq

def Permission.all : List Permission :=
  [.projectRead,.projectCreate,.projectManage,.projectDelete,.fileRead,.fileWrite,.fileCreate,
    .fileUpload,.fileRename,.fileDelete,.fileSetMain,.fileProtectedWrite,.compileSubmit,.artifactRead,
    .teamCreate,.teamMembersManage,.teamProjectManage,.mentorGroupCreate,.reviewRead,.reviewComment,
    .reviewResolve,.reviewManage,.templateUse,.templateManage,.adminUsers,.adminTeams,.adminProjects,
    .adminTemplates,.adminJobs,.adminStorage,.adminBackups,.adminAudit,.adminSecurity,.adminSystem]

inductive OverrideEffect
  | allow | deny
deriving DecidableEq

structure ProjectRoles where
  writer : Bool
  mentor : Bool
  projectManager : Bool
deriving DecidableEq

structure GroupRoles where
  groupManager : Bool
deriving DecidableEq

structure PermissionResolver where
  granted : List Permission
  denied : List Permission

namespace PermissionResolver

def addAccount (account : AccountType) : List Permission :=
  [.projectCreate,.templateUse,.teamCreate] ++
    (if account = .professor ∨ account = .admin then [.mentorGroupCreate] else []) ++
    (if account = .admin then Permission.all else [])

def addGroup (group : GroupRoles) : List Permission :=
  if group.groupManager then [.teamMembersManage,.teamProjectManage,.projectCreate] else []

def addProject (project : ProjectRoles) : List Permission :=
  (if project.writer then [.projectRead,.fileRead,.fileWrite,.fileCreate,.fileUpload,.fileRename,
      .fileDelete,.fileSetMain,.compileSubmit,.artifactRead] else []) ++
    (if project.mentor then [.projectRead,.fileRead,.compileSubmit,.artifactRead,.reviewRead,
      .reviewComment,.reviewManage] else []) ++
    (if project.projectManager then [.projectRead,.projectManage,.teamProjectManage] else [])

def withEffect (effect : OverrideEffect) (overrides : List (Permission × OverrideEffect)) :
    List Permission :=
  (overrides.filter (fun entry => entry.2 = effect)).map Prod.fst

def new (account : AccountType) (group : GroupRoles) (project : ProjectRoles)
    (overrides : List (Permission × OverrideEffect)) : PermissionResolver where
  granted := addAccount account ++ addGroup group ++ addProject project ++ withEffect .allow overrides
  denied := withEffect .deny overrides

def allows (resolver : PermissionResolver) (permission : Permission) : Bool :=
  !resolver.denied.contains permission && resolver.granted.contains permission

theorem deny_wins {account : AccountType} {group : GroupRoles} {project : ProjectRoles}
    {overrides : List (Permission × OverrideEffect)} {permission : Permission}
    (h : (permission,OverrideEffect.deny) ∈ overrides) :
    (new account group project overrides).allows permission = false := by
  have hdenied : permission ∈ (new account group project overrides).denied :=
    List.mem_map.mpr ⟨_,List.mem_filter.mpr ⟨h,by simp⟩,rfl⟩
  rw [allows,List.contains_iff_mem.mpr hdenied]
  rfl

theorem admin_allows {group : GroupRoles} {project : ProjectRoles}
    {overrides : List (Permission × OverrideEffect)} {permission : Permission}
    (h : (permission,OverrideEffect.deny) ∉ overrides) :
    (new .admin group project overrides).allows permission = true := by
  have hgranted : permission ∈ (new .admin group project overrides).granted := by
    have hall : permission ∈ Permission.all := by
      cases permission <;> decide
    refine List.mem_append_left _ (List.mem_append_left _ (List.mem_append_left _ ?_))
    exact List.mem_append_right _ hall
  have hdenied : permission ∉ (new .admin group project overrides).denied := by
    intro hmem
    obtain ⟨entry,hentry,rfl⟩ := List.mem_map.mp hmem
    obtain ⟨hentry,heffect⟩ := List.mem_filter.mp hentry
    have hsame : (entry.1,OverrideEffect.deny) = entry := Prod.ext rfl (of_decide_eq_true heffect).symm
    exact h (hsame ▸ hentry)
  rw [allows,List.contains_iff_mem.mpr hgranted,Bool.and_true]
  simpa using hdenied

end PermissionResolver

/-! ## File policies of team projects -/

inductive FilePolicy
  | editable | readOnly | managed
deriving DecidableEq

def policyRank : FilePolicy → ℕ
  | .editable => 0
  | .readOnly => 1
  | .managed => 2

/-- Policies by how much they restrict. -/
instance : Preorder FilePolicy := Preorder.lift policyRank

instance (p q : FilePolicy) : Decidable (p ≤ q) := inferInstanceAs (Decidable (policyRank p ≤ policyRank q))

inductive PolicyOrigin
  | template | admin | projectManager
deriving DecidableEq

structure FilePolicyRow where
  accessPolicy : FilePolicy
  origin : PolicyOrigin
  setByUserId : UserId
deriving DecidableEq

/-! ## Patterns -/

/-- How many bytes of a path the directory of a pattern `<directory>/*` takes, if the path is below it. -/
def coverage (pattern path : String) : Option ℕ :=
  match pattern.toList.dropSuffix? ['/','*'] with
  | some directory =>
    match path.toList.dropPrefix? directory with
    | some rest => if rest.head? = some '/' then some (utf8Length directory) else none
    | none => none
  | none => none

theorem coverage_iff {pattern path : String} {n : ℕ} : coverage pattern path = some n ↔
    ∃ directory, pattern.toList = directory ++ ['/','*'] ∧ directory ++ ['/'] <+: path.toList ∧
      n = utf8Length directory := by
  have hbelow : ∀ directory rest : List Char, path.toList = directory ++ rest →
      (rest.head? = some '/' ↔ directory ++ ['/'] <+: path.toList) := by
    intro directory rest hpath
    rw [hpath,List.prefix_append_right_inj]
    cases rest with
    | nil => simp
    | cons c rest => simp [List.cons_prefix_cons,eq_comm]
  unfold coverage
  constructor
  · intro h
    split at h
    · next directory hdirectory =>
      obtain ⟨suffix,hpattern,hsuffix⟩ := List.dropSuffix?_eq_some_iff.mp hdirectory
      split at h
      · next rest hrest =>
        obtain ⟨before,hpath,hbefore⟩ := List.dropPrefix?_eq_some_iff.mp hrest
        split at h
        · next hhead =>
          cases h
          rw [eq_of_beq hbefore] at hpath
          refine ⟨directory,?_,(hbelow _ _ hpath).mp hhead,rfl⟩
          rw [hpattern,eq_of_beq hsuffix]
        · cases h
      · cases h
    · cases h
  · rintro ⟨directory,hpattern,hinit,rfl⟩
    have hdirectory : pattern.toList.dropSuffix? ['/','*'] = some directory :=
      List.dropSuffix?_eq_some_iff.mpr ⟨_,hpattern,beq_self_eq_true _⟩
    obtain ⟨rest,hrest⟩ := hinit
    have hpath : path.toList = directory ++ ('/' :: rest) := by
      rw [← hrest,List.append_assoc]
      rfl
    have hdrop : path.toList.dropPrefix? directory = some ('/' :: rest) :=
      List.dropPrefix?_eq_some_iff.mpr ⟨_,hpath,beq_self_eq_true _⟩
    rw [hdirectory]
    dsimp only
    rw [hdrop]
    rfl

theorem utf8Length_append (a b : List Char) : utf8Length (a ++ b) = utf8Length a + utf8Length b := by
  simp [utf8Length]

theorem utf8Length_pos {chars : List Char} (h : chars ≠ []) : 0 < utf8Length chars := by
  cases chars with
  | nil => exact absurd rfl h
  | cons c rest =>
    have hc := Char.utf8Size_pos c
    rw [utf8Length,List.map_cons,List.sum_cons]
    omega

/-- Of two beginnings of a text the one with fewer bytes is a proper beginning of the other. -/
theorem directory_lt {short long text : List Char} (hshort : short <+: text) (hlong : long <+: text)
    (hlt : utf8Length short < utf8Length long) : ∃ c rest, long = short ++ c :: rest := by
  rcases List.prefix_or_prefix_of_prefix hshort hlong with ⟨rest,rfl⟩ | ⟨rest,rfl⟩
  · cases rest with
    | nil =>
      rw [List.append_nil] at hlt
      omega
    | cons c rest => exact ⟨c,rest,rfl⟩
  · rw [utf8Length_append] at hlt
    omega

theorem directory_eq {a b text : List Char} (ha : a <+: text) (hb : b <+: text)
    (hsame : utf8Length a = utf8Length b) : a = b := by
  rcases List.prefix_or_prefix_of_prefix ha hb with ⟨rest,rfl⟩ | ⟨rest,rfl⟩
  · rw [utf8Length_append] at hsame
    by_contra hne
    have hpos := utf8Length_pos (fun hnil => hne (by rw [hnil,List.append_nil]) : rest ≠ [])
    omega
  · rw [utf8Length_append] at hsame
    by_contra hne
    have hpos := utf8Length_pos (fun hnil => hne (by rw [hnil,List.append_nil]) : rest ≠ [])
    omega

def patterns : Reach String where
  reach := coverage
  unique := by
    intro rule other path n hfirst hsecond
    obtain ⟨directory,hrule,hbelow,rfl⟩ := coverage_iff.mp hfirst
    obtain ⟨directory',hother,hbelow',hsame⟩ := coverage_iff.mp hsecond
    have hdirectory : directory = directory' := directory_eq ((List.prefix_append _ _).trans hbelow)
      ((List.prefix_append _ _).trans hbelow') hsame
    rw [← hdirectory,← hrule] at hother
    exact String.toList_inj.mp hother.symm
  nested := by
    intro rule other path n m hfirst hsecond hlt
    obtain ⟨directory,hrule,hbelow,rfl⟩ := coverage_iff.mp hfirst
    obtain ⟨directory',hother,hbelow',rfl⟩ := coverage_iff.mp hsecond
    obtain ⟨c,rest,hlong⟩ := directory_lt ((List.prefix_append _ _).trans hbelow')
      ((List.prefix_append _ _).trans hbelow) hlt
    refine coverage_iff.mpr ⟨directory',hother,?_,rfl⟩
    have hboth : directory' ++ ['/'] <+: directory := by
      refine List.prefix_of_prefix_length_le hbelow' ((List.prefix_append _ _).trans hbelow) ?_
      rw [hlong]
      simp
    rw [hrule]
    exact hboth.trans (List.prefix_append _ _)
  below := by
    intro rule other path n m hfirst hsecond
    obtain ⟨directory,hrule,hbelow,rfl⟩ := coverage_iff.mp hfirst
    obtain ⟨directory',hother,hbelow',rfl⟩ := coverage_iff.mp hsecond
    refine coverage_iff.mpr ⟨directory',hother,?_,rfl⟩
    have hsplit : rule.toList = (directory ++ ['/']) ++ ['*'] := by
      rw [hrule,List.append_assoc]
      rfl
    rw [hsplit] at hbelow'
    rcases List.prefix_concat_iff.mp hbelow' with hwhole | hpart
    · have hlast := congrArg List.getLast? hwhole
      simp at hlast
    · exact hpart.trans hbelow

/-! ## Projects -/

structure TeamFile where
  blobHash : BlobHash
  sizeBytes : ℕ
  fileRevision : ℕ
deriving DecidableEq

structure Member where
  accountType : AccountType
  group : GroupRoles
  roles : ProjectRoles
  overrides : List (Permission × OverrideEffect)
deriving DecidableEq

/-- What the policies of a project depend on. -/
structure PolicyTables where
  policyDefault : FilePolicy
  members : Table UserId Member
  files : Table String TeamFile
  filePolicies : Table String FilePolicyRow

structure Template where
  mainFile : String
  policyDefault : FilePolicy
  files : Table String (BlobHash × ℕ)
  rules : Table String FilePolicy

def Member.resolver (member : Member) : PermissionResolver :=
  .new member.accountType member.group member.roles member.overrides

/-- The policy of the rows for a path, in the order that the query returns them. -/
def policyForPath (policyDefault : FilePolicy) (rows : List (String × FilePolicyRow)) (path : String) :
    FilePolicy :=
  (patterns.scan path none (rows.map (fun r => (r.1,r.2.accessPolicy)))).getD policyDefault

def templatePolicyForPath (rows : List (String × FilePolicyRow)) (path : String) : Option FilePolicy :=
  patterns.scan path none ((rows.filter (fun r => r.2.origin = .template)).map
    (fun r => (r.1,r.2.accessPolicy)))

/-- `instantiate_team_project_from_template`, past the checks of the actor, who joins as a writer. -/
def instantiateTeamProject (actor : UserId) (account : AccountType) (group : GroupRoles)
    (overrides : List (Permission × OverrideEffect)) (mentorGroup : Bool) (template : Template) :
    Except AppError PolicyTables := do
  ensure (template.files.get? template.mainFile).isSome
    (.integrity "template main file is absent from template files")
  pure { policyDefault := template.policyDefault,
         members := Table.empty.upsert actor ⟨account,group,⟨true,mentorGroup,true⟩,overrides⟩,
         files := template.files.mapRows (fun file => ⟨file.1,file.2,1⟩),
         filePolicies := template.rules.mapRows (fun policy => ⟨policy,.template,actor⟩) }

def setFilePolicy (actor : UserId) (path : String) (policy : FilePolicy) (project : PolicyTables) :
    Except AppError (PolicyTables × Unit) := do
  let member ← require (project.members.get? actor) .notFound
  ensure (member.resolver.allows .projectManage) .forbidden
  ensure (project.files.get? path).isSome .notFound
  ensure (member.accountType = .admin ||
    (templatePolicyForPath project.filePolicies.rows path).all (fun floor => floor ≤ policy)) .forbidden
  let origin := ((project.filePolicies.get? path).map FilePolicyRow.origin).getD .projectManager
  pure ({ project with filePolicies := project.filePolicies.upsert path ⟨policy,origin,actor⟩ },())

namespace PolicyTables

def policy (project : PolicyTables) (path : String) : FilePolicy :=
  policyForPath project.policyDefault project.filePolicies.rows path

def rules (project : PolicyTables) (rule : String) : Option FilePolicy :=
  (project.filePolicies.get? rule).map FilePolicyRow.accessPolicy

def templateRules (project : PolicyTables) (rule : String) : Option FilePolicy :=
  ((project.filePolicies.get? rule).filter (fun row => row.origin = .template)).map
    FilePolicyRow.accessPolicy

end PolicyTables

/-! ## Answers of the two resolvers -/

theorem policyForPath_answer (policyDefault : FilePolicy) (t : Table String FilePolicyRow)
    {rows : List (String × FilePolicyRow)} (h : rows.Perm t.rows) (path : String) :
    ∃ o, patterns.Answer (fun rule => (t.get? rule).map FilePolicyRow.accessPolicy) path o ∧
      policyForPath policyDefault rows path = o.getD policyDefault := by
  have hperm : (rows.map (fun r => (r.1,r.2.accessPolicy))).Perm
      (t.mapRows FilePolicyRow.accessPolicy).rows := h.map _
  have hanswer := Reach.scan_answer (t.mapRows FilePolicyRow.accessPolicy) path (c := patterns)
  refine ⟨_,?_,rfl⟩
  rw [Reach.scan_perm (t.mapRows FilePolicyRow.accessPolicy) hperm path]
  have hget : (t.mapRows FilePolicyRow.accessPolicy).get? =
      fun rule => (t.get? rule).map FilePolicyRow.accessPolicy := by
    funext rule
    exact Table.get?_mapRows _ _ _
  rw [hget] at hanswer
  exact hanswer

variable {start project next : PolicyTables} {actor : UserId} {path : String} {policy : FilePolicy}

theorem policy_answer (project : PolicyTables) (path : String) :
    ∃ o, patterns.Answer project.rules path o ∧ project.policy path = o.getD project.policyDefault :=
  policyForPath_answer project.policyDefault project.filePolicies (List.Perm.refl _) path

theorem template_answer (project : PolicyTables) (path : String) : patterns.Answer project.templateRules path
    (templatePolicyForPath project.filePolicies.rows path) := by
  let kept := project.filePolicies.deleteWhere (fun _ row => !decide (row.origin = .template))
  have hanswer := Reach.scan_answer (kept.mapRows FilePolicyRow.accessPolicy) path (c := patterns)
  have hget : (kept.mapRows FilePolicyRow.accessPolicy).get? = project.templateRules := by
    funext rule
    rw [Table.get?_mapRows,Table.get?_deleteWhere,PolicyTables.templateRules]
    simp only [Bool.not_not]
  have hrows : (kept.mapRows FilePolicyRow.accessPolicy).rows =
      (project.filePolicies.rows.filter (fun r => r.2.origin = .template)).map
        (fun r => (r.1,r.2.accessPolicy)) := by
    simp only [kept,Table.mapRows,Table.deleteWhere,Bool.not_not]
  rw [hget,hrows] at hanswer
  exact hanswer

/-! ## Accepted calls -/

/-- What an accepted call checked and wrote. -/
theorem setFilePolicy_ok {u : Unit} (h : setFilePolicy actor path policy project = .ok (next,u)) :
    ∃ member origin, project.members.get? actor = some member ∧
      (member.accountType ≠ .admin → ∀ floor,
        templatePolicyForPath project.filePolicies.rows path = some floor → floor ≤ policy) ∧
      origin = ((project.filePolicies.get? path).map FilePolicyRow.origin).getD .projectManager ∧
      next = { project with filePolicies := project.filePolicies.upsert path ⟨policy,origin,actor⟩ } := by
  simp only [setFilePolicy,bind_ok,pure_ok,require_ok,ensure_ok,Prod.mk.injEq,and_true] at h
  obtain ⟨member,hmember,_,-,_,-,_,hfloor,rfl⟩ := h
  refine ⟨member,_,hmember,?_,rfl,rfl⟩
  intro hadmin floor hsome
  rw [hsome] at hfloor
  simpa [hadmin] using hfloor

theorem rules_upsert {row : FilePolicyRow} (rule : String) :
    PolicyTables.rules { project with filePolicies := project.filePolicies.upsert path row } rule =
      if rule = path then some row.accessPolicy else project.rules rule := by
  simp only [PolicyTables.rules,Table.get?_upsert]
  split <;> rfl

theorem templateRules_upsert {origin : PolicyOrigin}
    (horigin : origin = ((project.filePolicies.get? path).map FilePolicyRow.origin).getD .projectManager)
    (rule : String) : PolicyTables.templateRules
      { project with filePolicies := project.filePolicies.upsert path ⟨policy,origin,actor⟩ } rule =
      if rule = path then (project.templateRules path).map (fun _ => policy) else project.templateRules rule := by
  simp only [PolicyTables.templateRules,Table.get?_upsert]
  by_cases hrule : rule = path
  · rw [if_pos hrule,if_pos hrule,horigin]
    cases project.filePolicies.get? path with
    | none => rfl
    | some row =>
      by_cases htemplate : row.origin = .template
      · simp [Option.filter,htemplate]
      · simp [Option.filter,htemplate]
  · rw [if_neg hrule,if_neg hrule]

/-! ## Runs -/

/-- A call, or whatever else happens to the members and the files of the project. -/
inductive PolicyLabel
  | setFilePolicy (actor : UserId) (path : String) (policy : FilePolicy)
  | change (members : Table UserId Member) (files : Table String TeamFile)

def policyStep (project : PolicyTables) : PolicyLabel → PolicyTables
  | .setFilePolicy actor path policy => commit (setFilePolicy actor path policy) project
  | .change members files => { project with members := members, files := files }

def ByManager (project : PolicyTables) : PolicyLabel → Prop
  | .setFilePolicy actor _ _ => (project.members.get? actor).all (fun member => member.accountType ≠ .admin)
  | .change _ _ => True

instance (project : PolicyTables) (label : PolicyLabel) : Decidable (ByManager project label) :=
  match label with
  | .setFilePolicy actor _ _ => inferInstanceAs (Decidable
    ((project.members.get? actor).all (fun member => member.accountType ≠ .admin) = true))
  | .change _ _ => isTrue trivial

/-- An accepted call is about a path that the template has a rule for, or stays at the default. -/
def Covered (project : PolicyTables) : PolicyLabel → Prop
  | .setFilePolicy actor path policy => (setFilePolicy actor path policy project).isOk →
    (templatePolicyForPath project.filePolicies.rows path).isSome ∨ project.policyDefault ≤ policy
  | .change _ _ => True

instance (project : PolicyTables) (label : PolicyLabel) : Decidable (Covered project label) :=
  match label with
  | .setFilePolicy actor path policy => inferInstanceAs (Decidable
    ((setFilePolicy actor path policy project).isOk →
      (templatePolicyForPath project.filePolicies.rows path).isSome ∨ project.policyDefault ≤ policy))
  | .change _ _ => isTrue trivial

def Floor (start project : PolicyTables) : Prop := ∀ path, start.policy path ≤ project.policy path

def FromTemplate (start : PolicyTables) : Prop := start.rules = start.templateRules

structure Guarded (start project : PolicyTables) : Prop where
  same : project.policyDefault = start.policyDefault
  kept : ∀ rule v, start.rules rule = some v → ∃ v', project.templateRules rule = some v' ∧ v ≤ v'
  added : ∀ rule, start.rules rule = none → project.templateRules rule = none
  raised : patterns.Raised start.policyDefault start.rules project.rules

theorem instantiate_fromTemplate {account : AccountType} {group : GroupRoles} {mentorGroup : Bool}
    {overrides : List (Permission × OverrideEffect)} {template : Template}
    (h : instantiateTeamProject actor account group overrides mentorGroup template = .ok start) :
    FromTemplate start := by
  simp only [instantiateTeamProject,bind_ok,pure_ok] at h
  obtain ⟨_,-,rfl⟩ := h
  funext rule
  simp only [PolicyTables.rules,PolicyTables.templateRules,Table.get?_mapRows]
  cases template.rules.get? rule <;> rfl

theorem Guarded.initial (h : FromTemplate start) : Guarded start start := by
  refine ⟨rfl,?_,?_,?_,?_⟩
  · intro rule v hv
    rw [h] at hv
    exact ⟨v,hv,le_rfl⟩
  · intro rule hnone
    rw [← h]
    exact hnone
  · intro rule v hv
    exact ⟨v,hv,le_rfl⟩
  · intro rule v hnone hv
    rw [hnone] at hv
    cases hv

/-- What the template says about a path is not lowered, and where it says nothing it never did. -/
theorem Guarded.template (h : Guarded start project) {o : Option FilePolicy}
    (ho : patterns.Answer start.rules path o) : ∀ low : FilePolicy,
      o.getD low ≤ (templatePolicyForPath project.filePolicies.rows path).getD low := by
  intro low
  have hraised : patterns.Raised low start.rules project.templateRules := by
    refine ⟨h.kept,?_⟩
    intro rule v hnone hv
    rw [h.added rule hnone] at hv
    cases hv
  exact hraised.answer ho (template_answer project path)

theorem Guarded.uncovered (h : Guarded start project)
    (hnone : templatePolicyForPath project.filePolicies.rows path = none) :
    patterns.Answer start.rules path none := by
  have hanswer := template_answer project path
  rw [hnone] at hanswer
  refine hanswer.missing_of_kept ?_
  intro rule v hv
  obtain ⟨v',hv',-⟩ := h.kept rule v hv
  rw [hv']
  rfl

theorem Guarded.floor (h : Guarded start project) : Floor start project := by
  intro path
  obtain ⟨o,ho,hstart⟩ := policy_answer start path
  obtain ⟨o',ho',hproject⟩ := policy_answer project path
  rw [hstart,hproject,h.same]
  exact h.raised.answer ho ho'

theorem Guarded.accepted (h : Guarded start project) {o : Option FilePolicy}
    (ho : patterns.Answer start.rules path o)
    (hfloor : ∀ floor, templatePolicyForPath project.filePolicies.rows path = some floor → floor ≤ policy)
    (hcovered : (templatePolicyForPath project.filePolicies.rows path).isSome ∨ project.policyDefault ≤ policy) :
    o.getD start.policyDefault ≤ policy := by
  have hbefore := h.template ho start.policyDefault
  cases htemplate : templatePolicyForPath project.filePolicies.rows path with
  | some floor =>
    rw [htemplate] at hbefore
    exact hbefore.trans (hfloor floor htemplate)
  | none =>
    have hdefault : project.policyDefault ≤ policy := by
      rcases hcovered with hsome | hdefault
      · rw [htemplate] at hsome
        cases hsome
      · exact hdefault
    rw [htemplate] at hbefore
    rw [h.same] at hdefault
    exact hbefore.trans hdefault

theorem Guarded.setFilePolicy (h : Guarded start project) {u : Unit}
    (hok : setFilePolicy actor path policy project = .ok (next,u))
    (hmanager : ByManager project (.setFilePolicy actor path policy))
    (hcovered : Covered project (.setFilePolicy actor path policy)) : Guarded start next := by
  obtain ⟨member,origin,hmember,hfloor,horigin,rfl⟩ := setFilePolicy_ok hok
  have hadmin : member.accountType ≠ .admin := by
    rw [ByManager,hmember] at hmanager
    exact of_decide_eq_true hmanager
  have hhigh : ∀ o, patterns.Answer start.rules path o → o.getD start.policyDefault ≤ policy := by
    intro o ho
    exact h.accepted ho (hfloor hadmin) (hcovered (by rw [hok]; rfl))
  have hrules : ∀ rule, PolicyTables.rules
      { project with filePolicies := project.filePolicies.upsert path ⟨policy,origin,actor⟩ } rule =
        if rule = path then some policy else project.rules rule := rules_upsert
  refine ⟨h.same,?_,?_,?_,?_⟩
  · intro rule v hv
    rw [templateRules_upsert horigin]
    obtain ⟨v',hv',hle⟩ := h.kept rule v hv
    by_cases hrule : rule = path
    · rw [if_pos hrule]
      rw [hrule] at hv hv'
      rw [hv']
      exact ⟨policy,rfl,hhigh _ (.exact hv)⟩
    · rw [if_neg hrule]
      exact ⟨v',hv',hle⟩
  · intro rule hnone
    have hbefore := h.added rule hnone
    rw [templateRules_upsert horigin]
    by_cases hrule : rule = path
    · rw [if_pos hrule,← hrule,hbefore]
      rfl
    · rw [if_neg hrule]
      exact hbefore
  · intro rule v hv
    rw [hrules]
    by_cases hrule : rule = path
    · rw [if_pos hrule]
      rw [hrule] at hv
      exact ⟨policy,rfl,hhigh _ (.exact hv)⟩
    · rw [if_neg hrule]
      exact h.raised.kept rule v hv
  · intro rule v hnone hv o ho
    rw [hrules] at hv
    by_cases hrule : rule = path
    · rw [if_pos hrule,Option.some.injEq] at hv
      rw [hrule] at ho
      rw [← hv]
      exact hhigh o ho
    · rw [if_neg hrule] at hv
      exact h.raised.added rule v hnone hv o ho

theorem Guarded.step (h : Guarded start project) {label : PolicyLabel} (hmanager : ByManager project label)
    (hcovered : Covered project label) : Guarded start (policyStep project label) := by
  cases label with
  | change members files => exact ⟨h.same,h.kept,h.added,h.raised⟩
  | setFilePolicy actor path policy =>
    refine commit_cases (Guarded start) h ?_
    intro next u hok
    exact h.setFilePolicy hok hmanager hcovered

/-- A call below the default of an uncovered path leaves the path below the start. -/
theorem Guarded.covered (h : Guarded start project) {label : PolicyLabel}
    (hfloor : Floor start (policyStep project label)) : Covered project label := by
  cases label with
  | change members files => trivial
  | setFilePolicy actor path policy =>
    intro haccepted
    cases hok : Teams.setFilePolicy actor path policy project with
    | error e =>
      rw [hok] at haccepted
      cases haccepted
    | ok result =>
      obtain ⟨next,u⟩ := result
      cases htemplate : templatePolicyForPath project.filePolicies.rows path with
      | some floor => exact Or.inl rfl
      | none =>
        refine Or.inr ?_
        obtain ⟨member,origin,-,-,-,hnext⟩ := setFilePolicy_ok hok
        obtain ⟨o,ho,hstart⟩ := policy_answer start path
        obtain ⟨o',ho',hafter⟩ := policy_answer next path
        have hnone := ho.unique (h.uncovered htemplate)
        have hown : next.rules path = some policy := by
          rw [hnext,rules_upsert,if_pos rfl]
        have hsome := ho'.unique (.exact hown)
        have hbelow := hfloor path
        rw [policyStep,commit_ok hok,hstart,hafter,hnone,hsome] at hbelow
        rw [h.same]
        exact hbelow

/-- Managers keep the floor of the template exactly as long as they stay at the default where it has no
rule. -/
theorem floor_iff_covered (actor : UserId) (account : AccountType) (group : GroupRoles)
    (overrides : List (Permission × OverrideEffect)) (mentorGroup : Bool) (template : Template)
    (start : PolicyTables) (labels : List PolicyLabel)
    (hstart : instantiateTeamProject actor account group overrides mentorGroup template = .ok start)
    (hmanagers : Along policyStep ByManager start labels) :
    ((∀ pre post, labels = pre ++ post → Floor start (run policyStep start pre)) ↔
      Along policyStep Covered start labels) ∧
    ∀ (project : PolicyTables) (rows : List (String × FilePolicyRow)) (path : String),
      rows.Perm project.filePolicies.rows → ∃ o, patterns.Answer project.rules path o ∧
        project.policy path = o.getD project.policyDefault ∧
        policyForPath project.policyDefault rows path = project.policy path := by
  refine ⟨⟨?_,?_⟩,?_⟩
  · intro hfloor
    induction labels using List.reverseRecOn with
    | nil => trivial
    | append_singleton labels label ih =>
      obtain ⟨hbefore,-⟩ := along_concat.mp hmanagers
      have hcovered := ih hbefore (by
        intro pre post hpre
        exact hfloor pre (post ++ [label]) (by rw [hpre,List.append_assoc]))
      have hguarded : Guarded start (run policyStep start labels) :=
        (hbefore.and hcovered).invariant (Guarded start)
          (fun _ _ hinv hboth => hinv.step hboth.1 hboth.2) (.initial (instantiate_fromTemplate hstart))
      have hlast := hfloor (labels ++ [label]) [] (List.append_nil _).symm
      rw [run_concat] at hlast
      exact along_concat.mpr ⟨hcovered,hguarded.covered hlast⟩
  · rintro hcovered pre post rfl
    obtain ⟨hmanagers,-⟩ := along_append.mp hmanagers
    obtain ⟨hcovered,-⟩ := along_append.mp hcovered
    have hguarded : Guarded start (run policyStep start pre) :=
      (hmanagers.and hcovered).invariant (Guarded start)
        (fun _ _ hinv hboth => hinv.step hboth.1 hboth.2) (.initial (instantiate_fromTemplate hstart))
    exact hguarded.floor
  · intro project rows path hperm
    obtain ⟨o,ho,hpolicy⟩ := policy_answer project path
    obtain ⟨o',ho',hrows⟩ := policyForPath_answer project.policyDefault project.filePolicies hperm path
    refine ⟨o,ho,hpolicy,?_⟩
    rw [hrows,hpolicy,ho.unique ho']

/-! ## A project of a managed template -/

def sampleHash : BlobHash := ⟨String.ofList (List.replicate 64 '0'),by decide⟩

def managedTemplate (rules : Table String FilePolicy) : Template where
  mainFile := "main.tex"
  policyDefault := .managed
  files := (Table.empty.upsert "main.tex" (sampleHash,0)).upsert "parts/one.tex" (sampleHash,0)
  rules := rules

def managedProject (rules : Table String FilePolicy) : PolicyTables where
  policyDefault := .managed
  members := Table.empty.upsert 7 ⟨.student,⟨true⟩,⟨true,false,true⟩,[]⟩
  files := (managedTemplate rules).files.mapRows (fun file => ⟨file.1,file.2,1⟩)
  filePolicies := rules.mapRows (fun policy => ⟨policy,.template,7⟩)

/-- The rule of the directory is raised for a file and lowered again. -/
def partPolicies : List PolicyLabel :=
  [.setFilePolicy 7 "parts/one.tex" .readOnly,.setFilePolicy 7 "main.tex" .managed,
    .setFilePolicy 7 "parts/one.tex" .editable]

theorem ruled_parts_keep_floor :
    Floor (managedProject (Table.empty.upsert "parts/*" .editable))
        (run policyStep (managedProject (Table.empty.upsert "parts/*" .editable)) partPolicies) ∧
      (run policyStep (managedProject (Table.empty.upsert "parts/*" .editable)) partPolicies).policy
        "parts/one.tex" = .editable := by
  have hstart : instantiateTeamProject 7 .student ⟨true⟩ [] false
      (managedTemplate (Table.empty.upsert "parts/*" .editable)) =
        .ok (managedProject (Table.empty.upsert "parts/*" .editable)) := rfl
  have hfloor := (floor_iff_covered 7 .student ⟨true⟩ [] false _ _ partPolicies hstart (by decide +kernel)).1
  exact ⟨hfloor.mpr (by decide +kernel) partPolicies [] rfl,by decide +kernel⟩

/-- A manager opens a file that the template leaves to its default. -/
theorem default_not_floor :
    instantiateTeamProject 7 .student ⟨true⟩ [] false (managedTemplate Table.empty) =
        .ok (managedProject Table.empty) ∧
      Along policyStep ByManager (managedProject Table.empty) [.setFilePolicy 7 "main.tex" .editable] ∧
      ¬Floor (managedProject Table.empty)
        (run policyStep (managedProject Table.empty) [.setFilePolicy 7 "main.tex" .editable]) := by
  refine ⟨rfl,by decide +kernel,?_⟩
  intro hfloor
  exact absurd (hfloor "main.tex") (by decide +kernel)

end LatexCore.Teams
