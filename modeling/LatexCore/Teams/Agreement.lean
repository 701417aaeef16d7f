import LatexCore.Teams.Publish

/-! # One draft, two publications

A member with a single draft and no structural operation has a tree that is the
canonical one with one file changed or added. The publication of the draft and
that of the change set are compared on it, step by step.
-/
namespace LatexCore.Teams
open Core Foundation Workspace
variable {project : TeamProject} {user : UserId} {path : String} {draft : MemberDraft}

/-- The private work of the member is one draft. -/
structure SingleDraft (project : TeamProject) (user : UserId) (path : String) (draft : MemberDraft) :
    Prop where
  own : project.drafts.get? (user,path) = some draft
  only : ∀ other, (project.drafts.get? (user,other)).isSome → other = path
  plain : ∀ number, project.operations.get? (user,number) = none

/-- Both publications report a conflict and change nothing, or both publish to the same project. -/
def Agree (project : TeamProject) (user : UserId) (path : String) : Prop :=
  (∃ revision conflicts,
    project.publishDraft user path = .ok (project,.conflict revision) ∧
      project.publishChangeSet user = .ok (project,.conflict conflicts)) ∨
  ∃ next generation version revision count,
    project.publishDraft user path = .ok (next,.published generation version revision) ∧
      project.publishChangeSet user = .ok (next,.published generation version count)

/-- Nothing but the two counters and the log stands in the way of an event. -/
structure Room (project : TeamProject) (revision : ℕ) : Prop where
  revision : revision + 1 ≤ i64Max
  generation : project.canonicalGeneration + 1 ≤ i64Max
  event : ∃ version, project.head = some version ∧ version + 1 ≤ i64Max ∧
    project.events.get? (version + 1) = none

/-- The member may write the path, and the draft is of the file that is there, or of a new file that the
member may create. -/
def Publishable (project : TeamProject) (user : UserId) (path : String) (draft : MemberDraft) : Prop :=
  ∃ member, project.members.get? user = some member ∧ member.resolver.allows .fileWrite = true ∧
    project.policyAllows member.resolver path = true ∧
    match project.files.get? path with
    | some file => draft.baseRevision = file.fileRevision → Room project file.fileRevision
    | none => if draft.baseRevision = 0 then member.resolver.allows .fileCreate = true ∧ Room project 0
      else member.resolver.allows .fileCreate = false

/-! ## Lists with one element of interest -/

theorem eq_singleton {α : Type} {l : List α} {a : α} (hl : l.Nodup) (hall : ∀ b ∈ l, b = a) (ha : a ∈ l) :
    l = [a] := by
  cases l with
  | nil => cases ha
  | cons b rest =>
    have hb := hall b (List.mem_cons_self ..)
    cases rest with
    | nil => rw [hb]
    | cons c rest =>
      have hc := hall c (List.mem_cons_of_mem _ (List.mem_cons_self ..))
      rw [hb,hc] at hl
      simp at hl

/-- Where at most one element meets the condition the first update is the update of all. -/
theorem modifyFirst_eq_map {α : Type} {p : α → Bool} {f : α → α} {l : List α}
    (h : l.Pairwise (fun a b => p a = true → p b = false)) :
    modifyFirst p f l = l.map (fun a => if p a then f a else a) := by
  induction l with
  | nil => rfl
  | cons a rest ih =>
    obtain ⟨hfirst,hrest⟩ := List.pairwise_cons.mp h
    rw [modifyFirst,List.map_cons]
    by_cases hp : p a = true
    · rw [if_pos hp,if_pos hp]
      have hsame : rest.map (fun a => if p a then f a else a) = rest := by
        rw [← List.map_id'' (fun b => rfl : ∀ b : α, id b = b) rest]
        simp only [List.map_map]
        apply List.map_congr_left
        intro b hb
        have hb := hfirst b hb hp
        simp [hb]
      rw [hsame]
    · rw [if_neg hp,if_neg hp,ih hrest]

/-! ## The tree of a single draft -/

def canonicalFiles (project : TeamProject) : List ProjectedTeamFile :=
  (byPath project.files.rows).map canonicalFile

def changedFile (project : TeamProject) (path : String) (draft : MemberDraft) : ProjectedTeamFile :=
  match project.files.get? path with
  | some file => Projection.overlay (path,draft) (canonicalFile (path,file))
  | none => draftFile (path,draft)

structure OneChange (project : TeamProject) (changed : ProjectedTeamFile) (files : List ProjectedTeamFile) :
    Prop where
  distinct : (files.map ProjectedTeamFile.path).Nodup
  here : changed ∈ files
  others : ∀ f ∈ files, f ≠ changed → ∃ q file, project.files.get? q = some file ∧ f = canonicalFile (q,file)
  all : ∀ q file, project.files.get? q = some file → ∃ f ∈ files, f.canonicalPath = some q

theorem OneChange.perm {changed : ProjectedTeamFile} {files more : List ProjectedTeamFile}
    (h : OneChange project changed files) (hperm : more.Perm files) : OneChange project changed more := by
  refine ⟨(hperm.map _).nodup_iff.mpr h.distinct,hperm.mem_iff.mpr h.here,?_,?_⟩
  · intro f hf
    exact h.others f (hperm.mem_iff.mp hf)
  · intro q file hfile
    obtain ⟨f,hf,hpath⟩ := h.all q file hfile
    exact ⟨f,hperm.mem_iff.mpr hf,hpath⟩

theorem mem_canonicalFiles {f : ProjectedTeamFile} : f ∈ canonicalFiles project ↔
    ∃ q file, project.files.get? q = some file ∧ f = canonicalFile (q,file) := by
  rw [canonicalFiles,List.mem_map]
  have hperm := List.perm_insertionSort (fun a b : String × TeamFile => a.1 ≤ b.1) project.files.rows
  constructor
  · rintro ⟨⟨q,file⟩,hrow,rfl⟩
    exact ⟨q,file,Table.mem_rows_iff.mp (hperm.mem_iff.mp hrow),rfl⟩
  · rintro ⟨q,file,hfile,rfl⟩
    exact ⟨(q,file),hperm.mem_iff.mpr (Table.mem_rows_iff.mpr hfile),rfl⟩

theorem canonicalFiles_distinct (project : TeamProject) :
    ((canonicalFiles project).map ProjectedTeamFile.path).Nodup := by
  have hperm := List.perm_insertionSort (fun a b : String × TeamFile => a.1 ≤ b.1) project.files.rows
  have hpaths : (canonicalFiles project).map ProjectedTeamFile.path =
      (byPath project.files.rows).map Prod.fst := by
    rw [canonicalFiles,List.map_map]
    rfl
  rw [hpaths]
  exact (hperm.map Prod.fst).nodup_iff.mpr project.files.distinct

theorem owns_canonical {q : String} {file : TeamFile} :
    Projection.owns (path,draft) (canonicalFile (q,file)) = true ↔ q = path := by
  simp only [Projection.owns,canonicalFile,Bool.not_false,Bool.true_and,Bool.or_eq_true,Bool.and_eq_true,
    beq_iff_eq,Option.some.injEq]
  constructor
  · rintro (hpath | ⟨hpath,-⟩)
    · exact hpath
    · exact hpath
  · exact Or.inl

theorem oneChange_overlay {file : TeamFile} (hfile : project.files.get? path = some file) :
    OneChange project (changedFile project path draft)
      (modifyFirst (Projection.owns (path,draft)) (Projection.overlay (path,draft))
        (canonicalFiles project)) := by
  have hchanged : changedFile project path draft =
      Projection.overlay (path,draft) (canonicalFile (path,file)) := by rw [changedFile,hfile]
  have hpair : (canonicalFiles project).Pairwise (fun a b => Projection.owns (path,draft) a = true →
      Projection.owns (path,draft) b = false) := by
    refine (List.pairwise_map.mp (canonicalFiles_distinct project)).imp_of_mem ?_
    intro a b ha hb hne hown
    obtain ⟨q,fileA,-,rfl⟩ := mem_canonicalFiles.mp ha
    obtain ⟨r,fileB,-,rfl⟩ := mem_canonicalFiles.mp hb
    rw [← Bool.not_eq_true,owns_canonical]
    rintro rfl
    exact hne (owns_canonical.mp hown)
  rw [modifyFirst_eq_map hpair]
  refine ⟨?_,?_,?_,?_⟩
  · have hpaths : ((canonicalFiles project).map (fun f => if Projection.owns (path,draft) f then
        Projection.overlay (path,draft) f else f)).map ProjectedTeamFile.path =
        (canonicalFiles project).map ProjectedTeamFile.path := by
      rw [List.map_map]
      apply List.map_congr_left
      intro f _
      dsimp only [Function.comp_apply]
      split <;> rfl
    rw [hpaths]
    exact canonicalFiles_distinct project
  · rw [hchanged,List.mem_map]
    refine ⟨canonicalFile (path,file),mem_canonicalFiles.mpr ⟨path,file,hfile,rfl⟩,?_⟩
    rw [if_pos (owns_canonical.mpr rfl)]
  · intro f hf hne
    obtain ⟨g,hg,rfl⟩ := List.mem_map.mp hf
    obtain ⟨q,other,hother,rfl⟩ := mem_canonicalFiles.mp hg
    by_cases hown : Projection.owns (path,draft) (canonicalFile (q,other)) = true
    · have hq := owns_canonical.mp hown
      subst hq
      rw [hfile,Option.some.injEq] at hother
      subst hother
      rw [if_pos hown,hchanged] at hne
      exact absurd rfl hne
    · rw [if_neg hown]
      exact ⟨q,other,hother,rfl⟩
  · intro q other hother
    refine ⟨_,List.mem_map_of_mem (mem_canonicalFiles.mpr ⟨q,other,hother,rfl⟩),?_⟩
    split <;> rfl

theorem oneChange_draft (hfile : project.files.get? path = none) :
    OneChange project (changedFile project path draft) (canonicalFiles project ++ [draftFile (path,draft)]) := by
  have hchanged : changedFile project path draft = draftFile (path,draft) := by rw [changedFile,hfile]
  rw [hchanged]
  refine ⟨?_,List.mem_append_right _ (List.mem_singleton_self _),?_,?_⟩
  · rw [List.map_append,List.nodup_append]
    refine ⟨canonicalFiles_distinct project,by simp,?_⟩
    rintro q hq other hother rfl
    obtain ⟨f,hf,rfl⟩ := List.mem_map.mp hq
    obtain ⟨q,file,hrow,rfl⟩ := mem_canonicalFiles.mp hf
    have hsame : q = path := List.mem_singleton.mp hother
    rw [hsame,hfile] at hrow
    cases hrow
  · intro f hf hne
    rcases List.mem_append.mp hf with hf | hf
    · exact mem_canonicalFiles.mp hf
    · exact absurd (List.mem_singleton.mp hf) hne
  · intro q file hrow
    exact ⟨_,List.mem_append_left _ (mem_canonicalFiles.mpr ⟨q,file,hrow,rfl⟩),rfl⟩

theorem draftsOf_single (h : SingleDraft project user path draft) :
    project.draftsOf user = [(path,draft)] := by
  have hrows : project.drafts.rows.filter (fun r => r.1.1 = user) = [((user,path),draft)] := by
    apply eq_singleton
    · exact (project.drafts.distinct.of_map _).filter _
    · rintro ⟨⟨owner,other⟩,d⟩ hrow
      obtain ⟨hrow,howner⟩ := List.mem_filter.mp hrow
      have howner : owner = user := of_decide_eq_true howner
      rw [howner] at hrow
      have hget := Table.mem_rows_iff.mp hrow
      have hother := h.only other (by rw [hget]; rfl)
      rw [hother,h.own,Option.some.injEq] at hget
      rw [howner,hother,← hget]
    · exact List.mem_filter.mpr ⟨Table.mem_rows_iff.mpr h.own,by simp⟩
  rw [TeamProject.draftsOf,hrows]
  rfl

theorem operationsOf_single (h : SingleDraft project user path draft) : project.operationsOf user = [] := by
  have hrows : project.operations.rows.filter (fun r => r.1.1 = user) = [] := by
    rw [List.filter_eq_nil_iff]
    rintro ⟨⟨owner,number⟩,operation⟩ hrow howner
    have howner : owner = user := of_decide_eq_true howner
    rw [howner] at hrow
    have hget := Table.mem_rows_iff.mp hrow
    rw [h.plain number] at hget
    cases hget
  rw [TeamProject.operationsOf,hrows]
  rfl

theorem any_path_iff : (canonicalFiles project).any (fun file => file.path = path) = true ↔
    (project.files.get? path).isSome := by
  rw [List.any_eq_true,Option.isSome_iff_exists]
  constructor
  · rintro ⟨f,hf,hpath⟩
    obtain ⟨q,file,hfile,rfl⟩ := mem_canonicalFiles.mp hf
    have hpath : q = path := of_decide_eq_true hpath
    rw [← hpath]
    exact ⟨file,hfile⟩
  · rintro ⟨file,hfile⟩
    exact ⟨_,mem_canonicalFiles.mpr ⟨path,file,hfile,rfl⟩,decide_eq_true rfl⟩

theorem any_owns_iff : (canonicalFiles project).any (Projection.owns (path,draft)) = true ↔
    (project.files.get? path).isSome := by
  rw [← any_path_iff,List.any_eq_true,List.any_eq_true]
  constructor
  · rintro ⟨f,hf,hown⟩
    obtain ⟨q,file,-,rfl⟩ := mem_canonicalFiles.mp hf
    exact ⟨_,hf,decide_eq_true (owns_canonical.mp hown)⟩
  · rintro ⟨f,hf,hpath⟩
    obtain ⟨q,file,-,rfl⟩ := mem_canonicalFiles.mp hf
    exact ⟨_,hf,owns_canonical.mpr (of_decide_eq_true hpath)⟩

theorem privateWorkingTree_single (h : SingleDraft project user path draft) :
    ∃ p : Projection, p.pendingMain = none ∧ OneChange project (changedFile project path draft) p.files ∧
      project.privateWorkingTree user =
        .ok ⟨p.files.insertionSort (fun a b => a.path ≤ b.path),none,p.summary⟩ := by
  have hbuilt : ∃ p : Projection, p.pendingMain = none ∧
      OneChange project (changedFile project path draft) p.files ∧
      Projection.mergeDraft (Projection.addDraft ⟨canonicalFiles project,none,[]⟩ (path,draft)) (path,draft) =
        .ok p := by
    cases hfile : project.files.get? path with
    | some file =>
      have hany : (canonicalFiles project).any (fun file => file.path = path) = true :=
        any_path_iff.mpr (by rw [hfile]; rfl)
      have howns : (canonicalFiles project).any (Projection.owns (path,draft)) = true :=
        any_owns_iff.mpr (by rw [hfile]; rfl)
      refine ⟨⟨modifyFirst (Projection.owns (path,draft)) (Projection.overlay (path,draft))
        (canonicalFiles project),none,[]⟩,rfl,oneChange_overlay hfile,?_⟩
      rw [Projection.addDraft,hany,if_neg (by simp),Projection.mergeDraft,howns]
      rfl
    | none =>
      have hany : (canonicalFiles project).any (fun file => file.path = path) = false := by
        rw [← Bool.not_eq_true,any_path_iff,hfile]
        simp
      have howns : (canonicalFiles project).any (Projection.owns (path,draft)) = false := by
        rw [← Bool.not_eq_true,any_owns_iff,hfile]
        simp
      have hdeleted : (canonicalFiles project).any (fun file => file.pendingDelete && file.path == path) =
          false := by
        rw [List.any_eq_false]
        intro f hf
        obtain ⟨q,file,-,rfl⟩ := mem_canonicalFiles.mp hf
        simp [canonicalFile]
      by_cases hbase : draft.baseRevision = 0
      · refine ⟨⟨canonicalFiles project ++ [draftFile (path,draft)],none,[path]⟩,rfl,
          oneChange_draft hfile,?_⟩
        rw [Projection.addDraft,hany,if_pos ⟨hbase,rfl⟩,Projection.mergeDraft,if_pos (by simp)]
        rfl
      · refine ⟨⟨canonicalFiles project ++ [draftFile (path,draft)],none,[]⟩,rfl,oneChange_draft hfile,?_⟩
        rw [Projection.addDraft,if_neg (fun hboth => hbase hboth.1),Projection.mergeDraft,howns,hdeleted]
        rfl
  obtain ⟨p,hmain,hone,hmerge⟩ := hbuilt
  refine ⟨p,hmain,hone,?_⟩
  simp only [TeamProject.privateWorkingTree,draftsOf_single h,operationsOf_single h,bind_ok,pure_ok,ensure_ok,
    List.foldlM_nil,List.foldlM_cons,List.foldl_cons,List.foldl_nil]
  refine ⟨_,rfl,p,⟨p,hmerge,rfl⟩,(),?_,?_⟩
  · rw [hmain]
    rfl
  · rw [hmain]

/-! ## Checks on the tree -/

section Checks
variable {resolver : PermissionResolver} {files : List ProjectedTeamFile} {summary : PendingChangeSummary}

abbrev checksOf (project : TeamProject) (resolver : PermissionResolver) (files : List ProjectedTeamFile)
    (summary : PendingChangeSummary) : PublishChecks := ⟨project,⟨files,none,summary⟩,resolver⟩

theorem OneChange.canonical {changed : ProjectedTeamFile} (h : OneChange project changed files) (q : String) :
    (checksOf project resolver files summary).canonical q =
      (project.files.get? q).map TeamFile.fileRevision := by
  rw [PublishChecks.canonical]
  split
  · rfl
  · next hmem =>
    cases hfile : project.files.get? q with
    | none => rfl
    | some file =>
      obtain ⟨f,hf,hpath⟩ := h.all q file hfile
      exact absurd (List.mem_filterMap.mpr ⟨f,hf,hpath⟩) hmem

theorem OneChange.unchanged {changed : ProjectedTeamFile} (h : OneChange project changed files) {q : String}
    {file : TeamFile} (hfile : project.files.get? q = some file) :
    (checksOf project resolver files summary).fileConflicts (canonicalFile (q,file)) = [] := by
  have hsource : (checksOf project resolver files summary).sourceConflicts (canonicalFile (q,file)) = [] := by
    simp only [PublishChecks.sourceConflicts,canonicalFile]
    rw [h.canonical,hfile]
    simp
  rw [PublishChecks.fileConflicts,hsource]
  rfl

theorem OneChange.main {changed : ProjectedTeamFile} (h : OneChange project changed files)
    (hrenamed : changed.renamed = false) : (checksOf project resolver files summary).main = none := by
  have hmoved : ∀ f ∈ files, f.renamed = false := by
    intro f hf
    by_cases hsame : f = changed
    · rw [hsame]
      exact hrenamed
    · obtain ⟨q,file,-,rfl⟩ := h.others f hf hsame
      rfl
  have hfind : ∀ current : String, files.find? (fun file => !file.pendingDelete && file.renamed &&
      file.canonicalPath == some current) = none := by
    intro current
    rw [List.find?_eq_none]
    intro f hf
    rw [hmoved f hf]
    simp
  simp only [PublishChecks.main,PublishChecks.automaticMain,hfind]
  simp

theorem OneChange.conflicts {changed : ProjectedTeamFile} (h : OneChange project changed files)
    (hrenamed : changed.renamed = false) :
    (checksOf project resolver files summary).conflicts = [] ↔
      (checksOf project resolver files summary).fileConflicts changed = [] := by
  rw [PublishChecks.conflicts,PublishChecks.mainConflicts,h.main hrenamed,List.append_nil,List.flatMap_eq_nil_iff]
  constructor
  · intro hall
    exact hall changed h.here
  · intro hnone f hf
    by_cases hsame : f = changed
    · rw [hsame]
      exact hnone
    · obtain ⟨q,file,hfile,rfl⟩ := h.others f hf hsame
      exact h.unchanged hfile

/-- What the change set needs for its one file. -/
def Clear (project : TeamProject) (resolver : PermissionResolver) (path : String) (draft : MemberDraft) : Prop :=
  match project.files.get? path with
  | some file => file.fileRevision = draft.baseRevision ∧ resolver.allows .fileWrite = true ∧
    project.policyAllows resolver path = true
  | none => resolver.allows .fileCreate = true ∧ resolver.allows .fileWrite = true ∧
    project.policyAllows resolver path = true

theorem permissionConflicts_nil {checks : PublishChecks} {f : ProjectedTeamFile} :
    checks.permissionConflicts f = [] ↔
      ∀ action ∈ PublishChecks.required f, checks.resolver.allows action = true := by
  rw [PublishChecks.permissionConflicts,List.map_eq_nil_iff,List.filter_eq_nil_iff]
  simp

theorem policyConflicts_nil {checks : PublishChecks} {f : ProjectedTeamFile} :
    checks.policyConflicts f = [] ↔
      ∀ q ∈ PublishChecks.policyPaths f, checks.project.policyAllows checks.resolver q = true := by
  rw [PublishChecks.policyConflicts,List.map_eq_nil_iff,List.filter_eq_nil_iff]
  simp

theorem fileConflicts_nil {checks : PublishChecks} {f : ProjectedTeamFile}
    (hrequired : PublishChecks.required f ≠ []) :
    checks.fileConflicts f = [] ↔ checks.sourceConflicts f = [] ∧ checks.destinationConflicts f = [] ∧
      (∀ action ∈ PublishChecks.required f, checks.resolver.allows action = true) ∧
      ∀ q ∈ PublishChecks.policyPaths f, checks.project.policyAllows checks.resolver q = true := by
  rw [PublishChecks.fileConflicts,if_neg hrequired]
  simp only [List.append_eq_nil_iff,permissionConflicts_nil,policyConflicts_nil,and_assoc]

theorem sourceConflicts_some {checks : PublishChecks} {file : ProjectedTeamFile} {path : String}
    {expected actual : ℕ} (hpath : file.canonicalPath = some path)
    (hexpected : file.canonicalRevision = some expected) (hactual : checks.canonical path = some actual) :
    checks.sourceConflicts file =
      if actual = expected then [] else [⟨path,some file.path,.changedSinceEdit⟩] := by
  rw [PublishChecks.sourceConflicts,hpath,hexpected]
  dsimp only
  rw [hactual]

theorem changed_conflicts (h : OneChange project (changedFile project path draft) files) :
    (checksOf project resolver files summary).fileConflicts (changedFile project path draft) = [] ↔
      Clear project resolver path draft := by
  have hcanonical : (checksOf project resolver files summary).canonical path =
      (project.files.get? path).map TeamFile.fileRevision := h.canonical path
  unfold Clear changedFile
  cases hfile : project.files.get? path with
  | some file =>
    rw [hfile,Option.map_some] at hcanonical
    dsimp only
    have hrequired : PublishChecks.required (Projection.overlay (path,draft) (canonicalFile (path,file))) =
        [.fileWrite] := rfl
    have hpaths : PublishChecks.policyPaths (Projection.overlay (path,draft) (canonicalFile (path,file))) =
        [path] := rfl
    have hsource : (checksOf project resolver files summary).sourceConflicts
        (Projection.overlay (path,draft) (canonicalFile (path,file))) =
          if file.fileRevision = draft.baseRevision then [] else [⟨path,some path,.changedSinceEdit⟩] :=
      sourceConflicts_some rfl rfl hcanonical
    have hdestination : (checksOf project resolver files summary).destinationConflicts
        (Projection.overlay (path,draft) (canonicalFile (path,file))) = [] := rfl
    rw [fileConflicts_nil (by rw [hrequired]; simp),hsource,hdestination,hrequired,hpaths]
    simp only [ite_eq_left_iff,List.cons_ne_nil,imp_false,not_not,List.mem_singleton,forall_eq,true_and]
  | none =>
    rw [hfile,Option.map_none] at hcanonical
    dsimp only
    have hrequired : PublishChecks.required (draftFile (path,draft)) = [.fileCreate,.fileWrite] := rfl
    have hpaths : PublishChecks.policyPaths (draftFile (path,draft)) = [path] := rfl
    have hsource : (checksOf project resolver files summary).sourceConflicts (draftFile (path,draft)) = [] := rfl
    have hdestination : (checksOf project resolver files summary).destinationConflicts
        (draftFile (path,draft)) = [] := by
      change [] ++ (if true && !false && ((checksOf project resolver files summary).canonical path).isSome then
        _ else []) = _
      rw [hcanonical]
      rfl
    rw [fileConflicts_nil (by rw [hrequired]; simp),hsource,hdestination,hrequired,hpaths]
    simp only [List.mem_cons,List.not_mem_nil,or_false,forall_eq_or_imp,forall_eq,true_and,and_assoc]

end Checks

/-! ## What is published -/

theorem filter_nil {α : Type} {l : List α} {p : α → Bool} (h : ∀ a ∈ l, p a = false) : l.filter p = [] := by
  rw [List.filter_eq_nil_iff]
  intro a ha
  rw [h a ha]
  simp

/-- Of a tree with one change only its contents are written. -/
theorem OneChange.publish {changed : ProjectedTeamFile} {files : List ProjectedTeamFile}
    (h : OneChange project changed files) (hdeleted : changed.pendingDelete = false)
    (hrenamed : changed.renamed = false) (hwritten : (changed.modified || changed.added) = true)
    (t : Table String TeamFile) :
    Publication.publish t files = Publication.put ⟨t,[],0⟩ changed := by
  have hkept : ∀ f ∈ files, f.pendingDelete = false ∧ f.renamed = false := by
    intro f hf
    by_cases hsame : f = changed
    · rw [hsame]
      exact ⟨hdeleted,hrenamed⟩
    · obtain ⟨q,file,-,rfl⟩ := h.others f hf hsame
      exact ⟨rfl,rfl⟩
  have hdeletes : files.filter (fun file => file.pendingDelete && file.canonicalPath.isSome) = [] := by
    apply filter_nil
    intro f hf
    rw [(hkept f hf).1]
    rfl
  have hrenames : files.filter (fun file => !file.pendingDelete && file.renamed) = [] := by
    apply filter_nil
    intro f hf
    rw [(hkept f hf).2,Bool.and_false]
  have hputs : files.filter (fun file => !file.pendingDelete && !file.renamed &&
      (file.modified || file.added)) = [changed] := by
    apply eq_singleton
    · exact (h.distinct.of_map _).filter _
    · intro f hf
      obtain ⟨hf,hwritten⟩ := List.mem_filter.mp hf
      by_contra hne
      obtain ⟨q,file,-,rfl⟩ := h.others f hf hne
      simp [canonicalFile] at hwritten
    · refine List.mem_filter.mpr ⟨h.here,?_⟩
      rw [hdeleted,hrenamed,hwritten]
      rfl
  rw [Publication.publish,hdeletes,hrenames,hputs]
  simp only [List.foldl_nil,List.foldlM_nil,List.foldlM_cons]
  cases hput : Publication.put ⟨t,[],0⟩ changed with
  | error e => simp [bind,Except.bind,pure,Except.pure,hput]
  | ok p => simp [bind,Except.bind,pure,Except.pure,hput]

def publishedAs (project : TeamProject) (user : UserId) (path : String) (draft : MemberDraft)
    (revision version : ℕ) (events : Table ℕ EventRow) : TeamProject :=
  { project with
    files := project.files.upsert path ⟨draft.blobHash,draft.sizeBytes,revision⟩
    events := events
    head := some version
    canonicalGeneration := project.canonicalGeneration + 1
    drafts := project.drafts.deleteWhere (fun key _ => key = (user,path)) }

structure Accepted (project : TeamProject) (user : UserId) (path : String) (draft : MemberDraft)
    (version : ℕ) (events : Table ℕ EventRow) : Prop where
  head : ∃ actual, project.head = some actual ∧ version = actual + 1
  bounded : version ≤ i64Max
  generation : project.canonicalGeneration + 1 ≤ i64Max
  inserted : project.events.insert? version ⟨.obj [("schema_version",.ofNat 1),
    ("operations",.arr [putValue path draft.blobHash draft.sizeBytes])],user⟩ = some events

theorem checkedRevision_ok {base revision : ℕ} :
    checkedRevision base = .ok revision ↔ base + 1 ≤ i64Max ∧ revision = base + 1 := by
  have hbound : i64Max ≤ u64Max := by decide
  simp only [checkedRevision,bind_ok,ensure_ok,pure_ok,decide_eq_true_eq]
  constructor
  · rintro ⟨_,-,_,hle,rfl⟩
    exact ⟨hle,rfl⟩
  · rintro ⟨hle,rfl⟩
    exact ⟨(),hle.trans hbound,(),hle,rfl⟩

theorem appendOperations_ok {operations : List Value} {next : TeamProject} {version : ℕ} :
    project.appendOperations user operations = .ok (next,version) ↔
      ∃ actual events, project.head = some actual ∧ version = actual + 1 ∧ version ≤ i64Max ∧
        project.events.insert? version ⟨.obj [("schema_version",.ofNat 1),("operations",.arr operations)],user⟩ =
          some events ∧ next = { project with events := events, head := some version } := by
  simp only [TeamProject.appendOperations,bind_ok,require_ok,ensure_ok,pure_ok,decide_eq_true_eq,Prod.mk.injEq]
  constructor
  · rintro ⟨actual,hhead,_,hle,events,hevents,rfl,rfl⟩
    exact ⟨actual,events,hhead,rfl,hle,hevents,rfl⟩
  · rintro ⟨actual,events,hhead,rfl,hle,hevents,rfl⟩
    exact ⟨actual,hhead,(),hle,events,hevents,rfl,rfl⟩

theorem incrementGeneration_ok {next : TeamProject} {generation : ℕ} :
    project.incrementGeneration = .ok (next,generation) ↔ project.canonicalGeneration + 1 ≤ i64Max ∧
      generation = project.canonicalGeneration + 1 ∧ next = { project with canonicalGeneration := generation } := by
  simp only [TeamProject.incrementGeneration,bind_ok,ensure_ok,pure_ok,decide_eq_true_eq,Prod.mk.injEq]
  constructor
  · rintro ⟨_,hle,rfl,rfl⟩
    exact ⟨hle,rfl,rfl⟩
  · rintro ⟨hle,rfl,rfl⟩
    exact ⟨(),hle,rfl,rfl⟩

section Publishing
variable {member : Member}

theorem publishDraft_ok (hmember : project.members.get? user = some member)
    (hallowed : (member.resolver.allows .fileWrite && project.policyAllows member.resolver path) = true)
    (hown : project.drafts.get? (user,path) = some draft) {current : ℕ}
    (hcurrent : ((project.files.get? path).map TeamFile.fileRevision).getD 0 = current) {next : TeamProject}
    {result : PublishResult} : project.publishDraft user path = .ok (next,result) ↔
      if draft.baseRevision = current then current + 1 ≤ i64Max ∧ ∃ version events,
        Accepted project user path draft version events ∧
          next = publishedAs project user path draft (current + 1) version events ∧
          result = .published (project.canonicalGeneration + 1) version (current + 1)
      else next = project ∧ result = .conflict current := by
  simp only [TeamProject.publishDraft,hmember,hown,hcurrent,TeamProject.assertMutable,bind_ok,require_ok,
    ensure_ok,Option.some.injEq,exists_eq_left',hallowed,true_and,exists_const]
  by_cases hbase : draft.baseRevision = current
  · rw [if_neg (not_not.mpr hbase),if_pos hbase]
    simp only [bind_ok,pure_ok,Prod.mk.injEq]
    constructor
    · rintro ⟨revision,hrevision,⟨p,version⟩,happend,⟨p',generation⟩,hincrement,rfl,rfl⟩
      obtain ⟨hle,rfl⟩ := checkedRevision_ok.mp hrevision
      obtain ⟨actual,events,hhead,hversion,hbound,hinsert,rfl⟩ := appendOperations_ok.mp happend
      obtain ⟨hroom,rfl,rfl⟩ := incrementGeneration_ok.mp hincrement
      exact ⟨hle,version,events,⟨⟨actual,hhead,hversion⟩,hbound,hroom,hinsert⟩,rfl,rfl⟩
    · rintro ⟨hle,version,events,⟨⟨actual,hhead,hversion⟩,hbound,hroom,hinsert⟩,rfl,rfl⟩
      refine ⟨current + 1,checkedRevision_ok.mpr ⟨hle,rfl⟩,(_,version),appendOperations_ok.mpr
        ⟨actual,events,hhead,hversion,hbound,hinsert,rfl⟩,(_,_),incrementGeneration_ok.mpr
        ⟨hroom,rfl,rfl⟩,rfl,rfl⟩
  · rw [if_pos hbase,if_neg hbase,pure_ok,Prod.mk.injEq]
    exact ⟨fun h => ⟨h.1.symm,h.2.symm⟩,fun h => ⟨h.1.symm,h.2.symm⟩⟩

theorem put_changed {t : Table String TeamFile} {p : Publication} :
    Publication.put ⟨t,[],0⟩ (changedFile project path draft) = .ok p ↔ ∃ revision,
      (match project.files.get? path with
        | some _ => draft.baseRevision + 1 ≤ i64Max ∧ revision = draft.baseRevision + 1
        | none => revision = 1) ∧
      p = ⟨t.upsert path ⟨draft.blobHash,draft.sizeBytes,revision⟩,
        [putValue path draft.blobHash draft.sizeBytes],1⟩ := by
  unfold changedFile
  cases hfile : project.files.get? path with
  | some file =>
    simp only [Publication.put,Projection.overlay,canonicalFile,bind_ok,pure_ok,require_ok,Bool.false_eq_true,
      if_false,Option.some.injEq,exists_eq_left',checkedRevision_ok]
    exact exists_congr (fun revision => and_congr_right (fun _ => eq_comm))
  | none =>
    simp only [Publication.put,draftFile,bind_ok,pure_ok,if_true]
    exact exists_congr (fun revision => and_congr eq_comm eq_comm)

theorem drafts_single (h : SingleDraft project user path draft) :
    project.drafts.deleteWhere (fun key _ => key.1 = user) =
      project.drafts.deleteWhere (fun key _ => key = (user,path)) := by
  simp only [Table.deleteWhere,Table.mk.injEq]
  apply List.filter_congr
  rintro ⟨⟨owner,other⟩,d⟩ hrow
  have hget := Table.mem_rows_iff.mp hrow
  have hsame : owner = user ↔ (owner,other) = (user,path) := by
    constructor
    · rintro rfl
      rw [h.only other (by rw [hget]; rfl)]
    · exact congrArg Prod.fst
  simp only [hsame]

theorem operations_single (h : SingleDraft project user path draft) :
    project.operations.deleteWhere (fun key _ => key.1 = user) = project.operations := by
  have hrows : project.operations.rows.filter (fun r => !decide (r.1.1 = user)) = project.operations.rows := by
    rw [List.filter_eq_self]
    rintro ⟨⟨owner,number⟩,operation⟩ hrow
    have hget := Table.mem_rows_iff.mp hrow
    have hother : owner ≠ user := by
      rintro rfl
      rw [h.plain number] at hget
      cases hget
    simp [hother]
  cases hoperations : project.operations with
  | mk rows distinct =>
    rw [hoperations] at hrows
    simp only [Table.deleteWhere,hrows]

theorem total_pos {p : Projection} (h : OneChange project (changedFile project path draft) p.files) :
    p.summary.total ≠ 0 := by
  have hcounted : 0 < p.files.countP (fun file => file.modified && !file.renamed && !file.pendingDelete) ∨
      0 < p.files.countP (fun file => file.added && !file.pendingDelete) := by
    rw [List.countP_pos_iff,List.countP_pos_iff]
    cases hfile : project.files.get? path with
    | some file => exact Or.inl ⟨_,h.here,by rw [changedFile,hfile]; rfl⟩
    | none => exact Or.inr ⟨_,h.here,by rw [changedFile,hfile]; rfl⟩
  simp only [Projection.summary]
  omega

theorem changedFile_plain (project : TeamProject) (path : String) (draft : MemberDraft) :
    (changedFile project path draft).pendingDelete = false ∧
      (changedFile project path draft).renamed = false ∧
      ((changedFile project path draft).modified || (changedFile project path draft).added) = true := by
  unfold changedFile
  cases project.files.get? path with
  | some file => exact ⟨rfl,rfl,rfl⟩
  | none => exact ⟨rfl,rfl,rfl⟩

theorem publishChangeSet_ok (h : SingleDraft project user path draft)
    (hmember : project.members.get? user = some member) :
    (¬Clear project member.resolver path draft →
      ∃ conflicts, project.publishChangeSet user = .ok (project,.conflict conflicts)) ∧
    (Clear project member.resolver path draft → ∀ next result,
      project.publishChangeSet user = .ok (next,result) ↔ ∃ revision,
        (match project.files.get? path with
          | some _ => draft.baseRevision + 1 ≤ i64Max ∧ revision = draft.baseRevision + 1
          | none => revision = 1) ∧ ∃ version events, Accepted project user path draft version events ∧
            next = publishedAs project user path draft revision version events ∧
            result = .published (project.canonicalGeneration + 1) version 1) := by
  obtain ⟨p,-,hone,htree⟩ := privateWorkingTree_single h
  obtain ⟨hdeleted,hrenamed,hwritten⟩ := changedFile_plain project path draft
  have htotal : decide (p.summary.total ≠ 0) = true := decide_eq_true (total_pos hone)
  have hsorted := hone.perm (List.perm_insertionSort (fun a b => a.path ≤ b.path) p.files)
  have hclear : (checksOf project member.resolver (p.files.insertionSort (fun a b => a.path ≤ b.path))
      p.summary).conflicts = [] ↔ Clear project member.resolver path draft :=
    (hsorted.conflicts hrenamed).trans (changed_conflicts hsorted)
  have hmain : (checksOf project member.resolver (p.files.insertionSort (fun a b => a.path ≤ b.path))
      p.summary).main = none := hsorted.main hrenamed
  have hpublish := hsorted.publish hdeleted hrenamed hwritten project.files
  have hwrites : ∀ q : Publication, q.operations = [putValue path draft.blobHash draft.sizeBytes] →
      q.operations ++ ((checksOf project member.resolver (p.files.insertionSort (fun a b => a.path ≤ b.path))
        p.summary).main.toList.map (fun main => Value.obj [("op",.str "set_main_file"),("path",.str main)])) =
        [putValue path draft.blobHash draft.sizeBytes] := by
    intro q hq
    rw [hmain,hq]
    rfl
  simp only [TeamProject.publishChangeSet,hmember,htree,bind_ok,require_ok,ensure_ok,Option.some.injEq,
    exists_eq_left']
  constructor
  · intro hnot
    refine ⟨sortConflicts (checksOf project member.resolver
      (p.files.insertionSort (fun a b => a.path ≤ b.path)) p.summary).conflicts,_,rfl,(),htotal,?_⟩
    rw [if_pos (fun hnone => hnot (hclear.mp hnone))]
    rfl
  · intro hok next result
    have hnone := hclear.mpr hok
    constructor
    · rintro ⟨tree,heq,_,-,hrun⟩
      cases heq
      rw [if_neg (not_not.mpr hnone)] at hrun
      simp only [bind_ok,pure_ok,Prod.mk.injEq] at hrun
      obtain ⟨q,hput,⟨p₁,version⟩,happend,⟨p₂,generation⟩,hincrement,rfl,rfl⟩ := hrun
      rw [hpublish,put_changed] at hput
      obtain ⟨revision,hrevision,rfl⟩ := hput
      obtain ⟨actual,events,hhead,hversion,hbound,hinsert,rfl⟩ := appendOperations_ok.mp happend
      obtain ⟨hroom,rfl,rfl⟩ := incrementGeneration_ok.mp hincrement
      have hinsert := (congrArg (fun operations => project.events.insert? version
        ⟨.obj [("schema_version",.ofNat 1),("operations",.arr operations)],user⟩) (hwrites _ rfl)).symm.trans
          hinsert
      refine ⟨revision,hrevision,version,events,⟨⟨actual,hhead,hversion⟩,hbound,hroom,hinsert⟩,?_,rfl⟩
      simp only [publishedAs,drafts_single h,operations_single h]
    · rintro ⟨revision,hrevision,version,events,⟨⟨actual,hhead,hversion⟩,hbound,hroom,hinsert⟩,rfl,rfl⟩
      refine ⟨_,rfl,(),htotal,?_⟩
      rw [if_neg (not_not.mpr hnone)]
      simp only [bind_ok,pure_ok,Prod.mk.injEq]
      have hinsert := (congrArg (fun operations => project.events.insert? version
        ⟨.obj [("schema_version",.ofNat 1),("operations",.arr operations)],user⟩) (hwrites
          ⟨project.files.upsert path ⟨draft.blobHash,draft.sizeBytes,revision⟩,
            [putValue path draft.blobHash draft.sizeBytes],1⟩ rfl)).trans hinsert
      refine ⟨_,hpublish.trans (put_changed.mpr ⟨revision,hrevision,rfl⟩),(_,version),appendOperations_ok.mpr
        ⟨actual,events,hhead,hversion,hbound,hinsert,rfl⟩,(_,_),incrementGeneration_ok.mpr
        ⟨hroom,rfl,rfl⟩,?_,rfl⟩
      simp only [publishedAs,drafts_single h,operations_single h]

end Publishing

/-! ## Agreement -/

theorem Room.accepted {revision : ℕ} (h : Room project revision) :
    ∃ version events, Accepted project user path draft version events := by
  obtain ⟨actual,hhead,hbound,hfree⟩ := h.event
  obtain ⟨events,hevents⟩ := Table.insert?_isSome hfree (⟨.obj [("schema_version",.ofNat 1),
    ("operations",.arr [putValue path draft.blobHash draft.sizeBytes])],user⟩ : EventRow)
  exact ⟨actual + 1,events,⟨actual,hhead,rfl⟩,hbound,h.generation,hevents⟩

theorem Accepted.room {version revision : ℕ} {events : Table ℕ EventRow}
    (h : Accepted project user path draft version events) (hrevision : revision + 1 ≤ i64Max) :
    Room project revision := by
  obtain ⟨actual,hhead,rfl⟩ := h.head
  exact ⟨hrevision,h.generation,actual,hhead,h.bounded,(Table.insert?_eq_some h.inserted).1⟩

theorem publishDraft_allowed {next : TeamProject} {result : PublishResult}
    (h : project.publishDraft user path = .ok (next,result)) : ∃ member,
      project.members.get? user = some member ∧ member.resolver.allows .fileWrite = true ∧
        project.policyAllows member.resolver path = true := by
  simp only [TeamProject.publishDraft,TeamProject.assertMutable,bind_ok,require_ok,ensure_ok,
    Bool.and_eq_true] at h
  obtain ⟨member,hmember,_,hallowed,-⟩ := h
  exact ⟨member,hmember,hallowed⟩

theorem clear_iff {resolver : PermissionResolver} (hwrite : resolver.allows .fileWrite = true)
    (hpolicy : project.policyAllows resolver path = true) : Clear project resolver path draft ↔
      match project.files.get? path with
      | some file => draft.baseRevision = file.fileRevision
      | none => resolver.allows .fileCreate = true := by
  unfold Clear
  cases project.files.get? path with
  | some file =>
    dsimp only
    rw [hwrite,hpolicy]
    simp [eq_comm]
  | none =>
    dsimp only
    rw [hwrite,hpolicy]
    simp

/-- The two publications of a single draft agree exactly where the member may write its file and the
draft belongs to the file that is there, or to a new one that the member may create. -/
theorem publications_agree_iff (project : TeamProject) (user : UserId) (path : String) (draft : MemberDraft)
    (h : SingleDraft project user path draft) :
    Agree project user path ↔ Publishable project user path draft := by
  constructor
  · intro hagree
    obtain ⟨next,result,hdraft⟩ : ∃ next result, project.publishDraft user path = .ok (next,result) := by
      rcases hagree with ⟨revision,_,hdraft,-⟩ | ⟨next,_,_,_,_,hdraft,-⟩
      · exact ⟨_,_,hdraft⟩
      · exact ⟨_,_,hdraft⟩
    obtain ⟨member,hmember,hwrite,hpolicy⟩ := publishDraft_allowed hdraft
    have hboth : (member.resolver.allows .fileWrite && project.policyAllows member.resolver path) = true := by
      rw [hwrite,hpolicy]
      rfl
    obtain ⟨hconflict,hpublish⟩ := publishChangeSet_ok h hmember
    rw [clear_iff hwrite hpolicy] at hconflict hpublish
    refine ⟨member,hmember,hwrite,hpolicy,?_⟩
    rcases hagree with ⟨revision,conflicts,hsingle,hset⟩ | ⟨next,generation,version,revision,count,hsingle,hset⟩
    · have hstale := (publishDraft_ok hmember hboth h.own rfl).mp hsingle
      split at hstale
      · obtain ⟨-,_,_,-,-,hresult⟩ := hstale
        cases hresult
      · next hbase =>
        cases hfile : project.files.get? path with
        | some file =>
          rw [hfile] at hbase
          exact fun heq => absurd heq hbase
        | none =>
          have hbase : draft.baseRevision ≠ 0 := by simpa [hfile] using hbase
          rw [hfile] at hpublish
          dsimp only at hpublish ⊢
          rw [if_neg hbase,← Bool.not_eq_true]
          intro hcreate
          obtain ⟨_,-,_,_,-,-,hresult⟩ := (hpublish hcreate _ _).mp hset
          cases hresult
    · have hcurrent := (publishDraft_ok hmember hboth h.own rfl).mp hsingle
      split at hcurrent
      · next hbase =>
        obtain ⟨hle,_,_,haccepted,-,-⟩ := hcurrent
        cases hfile : project.files.get? path with
        | some file =>
          rw [hfile] at hle
          exact fun _ => haccepted.room hle
        | none =>
          have hbase : draft.baseRevision = 0 := by simpa [hfile] using hbase
          rw [hfile] at hconflict
          dsimp only at hconflict ⊢
          rw [if_pos hbase]
          refine ⟨?_,haccepted.room (by decide)⟩
          by_contra hcreate
          obtain ⟨_,hset'⟩ := hconflict hcreate
          rw [hset] at hset'
          cases hset'
      · cases hcurrent.2
  · rintro ⟨member,hmember,hwrite,hpolicy,hcase⟩
    have hboth : (member.resolver.allows .fileWrite && project.policyAllows member.resolver path) = true := by
      rw [hwrite,hpolicy]
      rfl
    obtain ⟨hconflict,hpublish⟩ := publishChangeSet_ok h hmember
    rw [clear_iff hwrite hpolicy] at hconflict hpublish
    cases hfile : project.files.get? path with
    | some file =>
      rw [hfile] at hcase hconflict hpublish
      dsimp only at hcase hconflict hpublish
      have hcurrent : ((project.files.get? path).map TeamFile.fileRevision).getD 0 = file.fileRevision := by
        rw [hfile]
        rfl
      by_cases hbase : draft.baseRevision = file.fileRevision
      · have hroom := hcase hbase
        obtain ⟨version,events,haccepted⟩ : ∃ version events, Accepted project user path draft version events :=
          hroom.accepted
        refine Or.inr ⟨publishedAs project user path draft (file.fileRevision + 1) version events,
          project.canonicalGeneration + 1,version,file.fileRevision + 1,1,
          (publishDraft_ok hmember hboth h.own hcurrent).mpr ?_,(hpublish hbase _ _).mpr ?_⟩
        · rw [if_pos hbase]
          exact ⟨hroom.revision,version,events,haccepted,rfl,rfl⟩
        · refine ⟨file.fileRevision + 1,?_,version,events,haccepted,rfl,rfl⟩
          rw [hbase]
          exact ⟨hroom.revision,rfl⟩
      · obtain ⟨conflicts,hset⟩ := hconflict hbase
        refine Or.inl ⟨file.fileRevision,conflicts,(publishDraft_ok hmember hboth h.own hcurrent).mpr ?_,hset⟩
        rw [if_neg hbase]
        exact ⟨rfl,rfl⟩
    | none =>
      rw [hfile] at hcase hconflict hpublish
      dsimp only at hcase hconflict hpublish
      have hcurrent : ((project.files.get? path).map TeamFile.fileRevision).getD 0 = 0 := by
        rw [hfile]
        rfl
      by_cases hbase : draft.baseRevision = 0
      · rw [if_pos hbase] at hcase
        obtain ⟨hcreate,hroom⟩ := hcase
        obtain ⟨version,events,haccepted⟩ : ∃ version events, Accepted project user path draft version events :=
          hroom.accepted
        refine Or.inr ⟨publishedAs project user path draft 1 version events,
          project.canonicalGeneration + 1,version,1,1,
          (publishDraft_ok hmember hboth h.own hcurrent).mpr ?_,(hpublish hcreate _ _).mpr ?_⟩
        · rw [if_pos hbase]
          exact ⟨hroom.revision,version,events,haccepted,rfl,rfl⟩
        · exact ⟨1,rfl,version,events,haccepted,rfl,rfl⟩
      · rw [if_neg hbase] at hcase
        obtain ⟨conflicts,hset⟩ := hconflict (by rw [hcase]; simp)
        refine Or.inl ⟨0,conflicts,(publishDraft_ok hmember hboth h.own hcurrent).mpr ?_,hset⟩
        rw [if_neg hbase]
        exact ⟨rfl,rfl⟩
/-! ## A draft of a file that is gone -/

def sampleDraft (base : ℕ) : MemberDraft := ⟨base,1,sampleHash,4⟩

/-- A writer with one draft of a chapter, in a project of the main file and no more. -/
def draftedProject (base : ℕ) : TeamProject where
  policyDefault := .editable
  members := Table.empty.upsert 7 ⟨.student,⟨false⟩,⟨true,false,false⟩,[]⟩
  files := Table.empty.upsert "main.tex" ⟨sampleHash,0,1⟩
  filePolicies := Table.empty
  mainFileLocked := false
  canonicalGeneration := 3
  drafts := Table.empty.upsert (7,"chapter.tex") (sampleDraft base)
  operations := Table.empty
  head := some 3
  events := Table.empty

theorem draftedProject_single (base : ℕ) :
    SingleDraft (draftedProject base) 7 "chapter.tex" (sampleDraft base) := by
  refine ⟨rfl,?_,fun _ => rfl⟩
  intro other hother
  simp only [draftedProject,Table.get?_upsert,Table.get?_empty] at hother
  split at hother
  · next heq => exact congrArg Prod.snd heq
  · cases hother

theorem new_chapter_agrees : Agree (draftedProject 0) 7 "chapter.tex" ∧
    ((draftedProject 0).publishDraft 7 "chapter.tex").toOption.map Prod.snd =
      some (.published 4 4 1) := by
  refine ⟨(publications_agree_iff _ 7 _ _ (draftedProject_single 0)).mpr ?_,by decide +kernel⟩
  exact ⟨⟨.student,⟨false⟩,⟨true,false,false⟩,[]⟩,rfl,by decide,by decide +kernel,by decide,
    by decide,by decide,3,rfl,by decide,rfl⟩

/-- The chapter was deleted after the draft was made: one publication refuses, the other writes it again. -/
theorem deleted_chapter_disagrees : SingleDraft (draftedProject 2) 7 "chapter.tex" (sampleDraft 2) ∧
    ((draftedProject 2).publishDraft 7 "chapter.tex").toOption.map Prod.snd = some (.conflict 0) ∧
    ((draftedProject 2).publishChangeSet 7).toOption.map Prod.snd = some (.published 4 4 1) ∧
    ¬Agree (draftedProject 2) 7 "chapter.tex" := by
  have hdraft : ((draftedProject 2).publishDraft 7 "chapter.tex").toOption.map Prod.snd =
      some (.conflict 0) := by decide +kernel
  have hset : ((draftedProject 2).publishChangeSet 7).toOption.map Prod.snd = some (.published 4 4 1) := by
    decide +kernel
  refine ⟨draftedProject_single 2,hdraft,hset,?_⟩
  rintro (⟨_,_,-,hconflict⟩ | ⟨_,_,_,_,_,hpublished,-⟩)
  · rw [hconflict] at hset
    cases hset
  · rw [hpublished] at hdraft
    cases hdraft

end LatexCore.Teams
